import QueryPress.Proofs.Merge.Renaming
import QueryPress.Proofs.Press.Stability
import QueryPress.Proofs.Template.Strategies

/-!
# Proofs/Press/Strategies — the two strategies mean the same

A press compiles a text in memory, or in a file.  Both ways fail alike, or make templates that hold the
same texts but for the names of their entries, and that are rendered alike from then on
(`strategies_mean_the_same`): a rendering refreshes twins in step and merges scenes that differ in names
of pages.  Files may change in between, as long as no text mentions an entry.

A loader of the host may go by the name that texts in memory have for theirs.  If it waits between its
looks it hands out its copy of the entry's name for such a text (`not_strategies_mean_the_same`).
-/

namespace QueryPress

open Answers (Leads)
open Properties (Registry)

variable {v w w' : World} {home : Place} {root root' : Resource} {settings : List LoaderSettings}

/-! ## One rendering -/

/-- **To merge twins comes to the same**, and leaves the same sources and buffers. -/
theorem Bundle.IsTwin.mergeBundle {b b' : Bundle} (h : IsTwin root root' b b')
    (hw : World.Beside (home ++ [root'.name]) v w) {registry : Registry}
    (hregistry : registry.IsElsewhere root'.name) (vars : Table Json) (pool : BufferPool) :
    Press.mergeBundle w b' vars registry pool = Press.mergeBundle v b vars registry pool ∧
      (Press.mergeBundle v b vars registry pool).2.1.IsElsewhere root'.name := by
  have hscene : (Press.sceneOf v b vars (registry.fresh v)).IsRenamed
      (Equiv.swap root.name root'.name) home root'.name (Press.sceneOf w b' vars (registry.fresh v)) := by
    refine ⟨h.book, ?_, rfl, hw⟩
    rw [Press.sceneOf, Press.sceneOf, h.entry, h.entry', Equiv.swap_apply_left]
  obtain ⟨hmerge, helsewhere⟩ := hscene.merge (hregistry.fresh v)
  rw [Press.mergeBundle_eq, Press.mergeBundle_eq, hregistry.fresh_eq hw]
  dsimp only
  rw [hmerge]
  exact ⟨rfl, helsewhere⟩

/-- A template and the press that renders it. -/
structure Job where
  press : Press
  template : Template

namespace Job

/-- The loaders of a job. -/
def chain (j : Job) : Chain := j.press.compiler.chain

/-- Renders the template. -/
def render (w : World) (j : Job) (vars : Table Json) : Except Error ByteArray × Job :=
  let (result, template, press) := j.press.render w j.template vars
  (result, { press, template })

/-- **Two jobs are twins** — their bundles are, with loaders that are paired around the roots, the same
sources, which read other files, and the same buffers. -/
structure IsTwin (settings : List LoaderSettings) (root root' : Resource) (j j' : Job) : Prop where
  bundles : Bundle.IsTwin root root' j.template.bundle j'.template.bundle
  chains : Chain.IsPaired root.name root'.name settings j.chain j'.chain
  registry : j'.press.registry = j.press.registry
  elsewhere : j.press.registry.IsElsewhere root'.name
  buffers : j'.press.buffers = j.press.buffers

/-- **A rendering meets no name of two roots** — no text that has changed, or that is collected anew,
mentions one. -/
def IsSilent (v : World) (entry file : String) (j : Job) : Prop :=
  ∀ r, Chain.Meets v j.chain j.template.bundle.resources r → QueryPress.IsSilent entry file r.source

variable {j j' i i' : Job}

/-- **Twins are rendered alike**, and stay twins. -/
theorem IsTwin.render (hp : IsPair settings root root') (h : IsTwin settings root root' j j')
    (hw : World.Beside (home ++ [root'.name]) v w) (hsilent : j.IsSilent v root.name root'.name)
    (vars : Table Json) : SameOutcome (j.render v vars).1 (j'.render w vars).1 ∧
      IsTwin settings root root' (j.render v vars).2 (j'.render w vars).2 := by
  obtain ⟨hbundles, hchains⟩ := h.bundles.refresh hp hw h.chains hsilent
  obtain ⟨hmerge, helsewhere⟩ := hbundles.mergeBundle hw h.elsewhere vars j.press.buffers
  have hmerge' : Press.mergeBundle w (j'.template.bundle.refresh w j'.press.compiler.chain).1 vars
      j'.press.registry j'.press.buffers
    = Press.mergeBundle v (j.template.bundle.refresh v j.press.compiler.chain).1 vars j.press.registry
      j.press.buffers := by
    rw [h.registry, h.buffers]
    exact hmerge
  refine ⟨?_, hbundles, hchains, congrArg (fun x => x.2.1) hmerge', helsewhere,
    congrArg (fun x => x.2.2) hmerge'⟩
  change SameOutcome (j.press.render v j.template vars).1 (j'.press.render w j'.template vars).1
  rw [Press.fst_render, Press.fst_render, hmerge']
  exact .of_merge _ _ _

/-! ## Any number of renderings -/

/-- **Two jobs are done side by side** — rendered any number of times with the same variables, in worlds
that differ in a file, while no text that is met mentions the entry or the file. -/
inductive Alongside (home : Place) (entry file : String) (j j' : Job) : Job → Job → Prop
  | start : Alongside home entry file j j' j j'
  | rendered {i i' : Job} {v w : World} (vars : Table Json) : Alongside home entry file j j' i i' →
      World.Beside (home ++ [file]) v w → i.IsSilent v entry file →
      Alongside home entry file j j' (i.render v vars).2 (i'.render w vars).2

/-- **Twins that are done side by side stay twins.** -/
theorem IsTwin.alongside (hp : IsPair settings root root') (h : IsTwin settings root root' j j')
    (hrun : Alongside home root.name root'.name j j' i i') : IsTwin settings root root' i i' := by
  induction hrun with
  | start => exact h
  | rendered vars _ hw hsilent ih => exact (ih.render hp hw hsilent vars).2

end Job

/-! ## Both strategies -/

/-- Options that ask for a strategy. -/
def Strategy.asked (s : Strategy) (options : Table String) : Table String :=
  Table.insert options Strategy.option s.name

@[simp] theorem Strategy.ofOptions_asked (s : Strategy) (options : Table String) :
    Strategy.ofOptions (s.asked options) = .ok (some s) := by
  simp [Strategy.ofOptions, Strategy.asked, Table.get?_insert]

/-- The text to compile, without the line that may ask for a file. -/
def Compiler.bodyOf (k : Compiler) (source : String) : String := (Strategy.classify k.marker source).2

theorem Compiler.compile_ephemeral (w : World) (k : Compiler) (name : Option String) (source : String)
    (options : Table String) : k.compile w name source (Strategy.ephemeral.asked options)
      = ((k.compileEphemeral w name (k.bodyOf source) (Strategy.ephemeral.asked options)).1,
        (k.compileEphemeral w name (k.bodyOf source) (Strategy.ephemeral.asked options)).2, w) := by
  simp [Compiler.compile, Compiler.bodyOf]

theorem Compiler.compile_materialized (w : World) (k : Compiler) (name : Option String)
    (source : String) (options : Table String) :
    k.compile w name source (Strategy.materialized.asked options)
      = k.compileMaterialized w name (k.bodyOf source) (Strategy.materialized.asked options) := by
  simp [Compiler.compile, Compiler.bodyOf]

/-- **Two jobs match** — their templates hold one text under their entries and the same texts beside
them, in worlds that differ in the file alone, and are rendered alike however often they have been
rendered side by side. -/
structure Job.IsMatch (home : Place) (entry file body : String) (w w' : World) (j j' : Job) : Prop where
  entry_eq : j.template.bundle.entry = entry
  entry_eq' : j'.template.bundle.entry = file
  text : j.template.bundle.book.source? entry = some body
  text' : j'.template.bundle.book.source? file = some body
  others : ∀ n, j'.template.bundle.other? n = j.template.bundle.other? n
  beside : World.Beside (home ++ [file]) w w'
  rendered : ∀ {i i' : Job}, Job.Alongside home entry file j j' i i' → ∀ {v v' : World} (vars : Table Json),
    World.Beside (home ++ [file]) v v' → i.IsSilent v entry file →
      SameOutcome (i.render v vars).1 (i'.render v' vars).1

/-- **Twins match.** -/
theorem Job.IsTwin.isMatch {j j' : Job} {entry file body : String} (hp : IsPair settings root root')
    (hentry : root.name = entry) (hfile : root'.name = file) (h : IsTwin settings root root' j j')
    (hw : World.Beside (home ++ [file]) w w')
    (htext : j.template.bundle.book.source? j.template.bundle.entry = some body) :
    Job.IsMatch home entry file body w w' j j' := by
  subst hentry hfile
  obtain ⟨hsame, hothers⟩ := h.bundles.texts
  exact {
    entry_eq := h.bundles.entry
    entry_eq' := h.bundles.entry'
    text := by rwa [h.bundles.entry] at htext
    text' := by rwa [htext, h.bundles.entry'] at hsame
    others := hothers
    beside := hw
    rendered := fun hrun _ _ vars hv hsilent => ((h.alongside hp hrun).render hp hv hsilent vars).1 }

namespace Press

/-- **Two compiles mean the same** on one press — they fail alike, or make jobs that match. -/
inductive MeanTheSame (home : Place) (entry file body : String) (p : Press) :
    (compiled compiled' : Except Error Template × Compiler × World) → Prop
  | fail {e e' : Error} {k k' : Compiler} {w w' : World} : FailAlike e e' →
      MeanTheSame home entry file body p (.error e, k, w) (.error e', k', w')
  | make {t t' : Template} {k k' : Compiler} {w w' : World} :
      Job.IsMatch home entry file body w w' { press := { p with compiler := k }, template := t }
        { press := { p with compiler := k' }, template := t' } →
      MeanTheSame home entry file body p (.ok t, k, w) (.ok t', k', w')

variable {p : Press} {source : String}

/-- **The two strategies mean the same**, in every state of a press that can write a file.

The file is new: no loader and no property source knows its name.  No text that the compiled text leads to
mentions the entry or, in any spelling, the file.  And texts in memory are left alone: no loader that goes
by the name which they have for theirs waits between two looks and keeps copies. -/
theorem strategies_mean_the_same (h : p.compiler.CanWrite w home)
    (hinline : Compiler.LeavesInline p.compiler.chain)
    (hregistry : p.registry.IsElsewhere (p.compiler.nextFile w)) (name : Option String)
    (options : Table String)
    (hsilent : ∀ r, Leads (Chain.answer w p.compiler.chain)
      (Compiler.inlineResource (traceId (p.compiler.bodyOf source)) (p.compiler.bodyOf source)) r →
      IsSilent (traceId (p.compiler.bodyOf source)) (p.compiler.nextFile w) r.source) :
    MeanTheSame home (traceId (p.compiler.bodyOf source)) (p.compiler.nextFile w)
      (p.compiler.bodyOf source) p
      (p.compiler.compile w name source (Strategy.ephemeral.asked options))
      (p.compiler.compile w name source (Strategy.materialized.asked options)) := by
  generalize hbody : p.compiler.bodyOf source = body at hsilent ⊢
  rw [Compiler.compile_ephemeral, Compiler.compile_materialized, hbody]
  obtain ⟨e, e', hfail, hfirst, hsecond⟩ |
      ⟨t, t', k, k', w', hfirst, hsecond, hbeside, htwin, hchains, htext⟩ :=
    Compiler.compile_strategies h hinline hsilent name (Strategy.ephemeral.asked options)
      (Strategy.materialized.asked options)
  · rw [hfirst]
    generalize p.compiler.compileMaterialized w name body (Strategy.materialized.asked options) = made
      at hsecond
    obtain ⟨made, k', w'⟩ := made
    obtain rfl : made = .error e' := hsecond
    exact .fail hfail
  · rw [hfirst, hsecond]
    have hname := Compiler.name_inlineResource (traceId body) body
    have hname' := p.compiler.name_fileResource (p.compiler.nextFile w) body w.now
    refine .make (Job.IsTwin.isMatch (h.isPair hinline body) hname hname' ⟨htwin, ?_, rfl, ?_, rfl⟩
      hbeside htext)
    · rwa [hname, hname']
    · rwa [hname']

/-! ### A text that includes a page -/

/-- Whether all that is collected is silent. -/
def allSilent (entry file : String) : Except Error (List Resource) → Bool
  | .error _ => false
  | .ok members => members.all fun r => decide (IsSilent entry file r.source)

theorem allSilent_iff {entry file : String} {x : Except Error (List Resource)} :
    allSilent entry file x = true ↔ ∃ members, x = .ok members ∧
      ∀ r ∈ members, IsSilent entry file r.source := by
  cases x <;> simp [allSilent]

/-- What a text leads to is silent if all that is collected is. -/
theorem isSilent_of_collect {c : Chain} (hc : c.IsSound) {entry file : String}
    (h : allSilent entry file (c.collect w root).1 = true) :
    ∀ r, Leads (Chain.answer w c) root r → IsSilent entry file r.source := by
  rintro r ⟨done, waiting, hreach, hr⟩
  obtain ⟨members, hmembers, hall⟩ := allSilent_iff.1 h
  have hend := Chain.ends_collect hc w root
  rw [hmembers] at hend
  exact hall r ((hreach.prefix_of_finished hend.reaches).subset hr)

/-- A rendering meets nothing but silent texts if all that has changed is. -/
theorem isSilent_of_collectChanges {j : Job} (hc : j.chain.IsSound) {entry file : String}
    (h : allSilent entry file (j.chain.collectChanges w j.template.bundle.resources).1 = true) :
    j.IsSilent w entry file := by
  obtain ⟨members, hmembers, hall⟩ := allSilent_iff.1 h
  exact fun r hr => hall r ((Chain.meets_iff hc hmembers).1 hr)

/-- Whether all that has changed of what a compile has made is silent. -/
def changedSilent (entry file : String) (made : Except Error Template × Compiler × World) : Bool :=
  made.1.toOption.all fun t =>
    allSilent entry file (made.2.1.chain.collectChanges made.2.2 t.bundle.resources).1

/-- A template that was made in memory meets nothing but silent texts if all that has changed is. -/
theorem isSilent_of_compile_ephemeral {k k' : Compiler} (hk : k.chain.IsSound) {name : Option String}
    {options : Table String} {entry file : String} {t : Template}
    (h : changedSilent entry file (k.compile w name source (Strategy.ephemeral.asked options)) = true)
    (hmade : k.compile w name source (Strategy.ephemeral.asked options) = (.ok t, k', w')) :
    Job.IsSilent w' entry file { press := { p with compiler := k' }, template := t } := by
  rw [hmade] at h
  rw [Compiler.compile_ephemeral] at hmade
  obtain ⟨ht, hmade⟩ := Prod.mk.inj hmade
  obtain ⟨hk', rfl⟩ := Prod.mk.inj hmade
  obtain ⟨-, -, label, hroot⟩ := Compiler.compileEphemeral_eq_ok (Prod.ext ht hk')
  have hsound := Bundle.isSound_ofRoot hk w label
    (Compiler.inlineResource (traceId (k.bodyOf source)) (k.bodyOf source))
  rw [hroot] at hsound
  refine isSilent_of_collectChanges ?_ h
  exact hsound

theorem canWrite_hourlyCompiler : hourlyCompiler.CanWrite earlyWorld ["work"] where
  toIsFitted := isFitted_hourlyCompiler
  nodup := by decide
  rooted := isRooted_earlyWorld
  isHome := { tree := Disk.isTree_of_entries (by decide +kernel), place := by rfl, directory := by decide }
  new := by
    intro l hl n r hr
    rcases List.mem_cons.1 hl with rfl | hl
    · cases hr
    · obtain rfl := List.mem_singleton.1 hl
      cases hr

theorem leavesInline_hourlyCompiler : Compiler.LeavesInline hourlyCompiler.chain := by
  unfold Compiler.LeavesInline
  decide

/-- What a compile has made, rendered as a text. -/
def renderedText (p : Press) (made : Except Error Template × Compiler × World) : Option String :=
  made.1.toOption.bind fun t =>
    (Press.render made.2.2 { p with compiler := made.2.1 } t []).1.toOption.bind String.fromUTF8?

/-- A text that includes a stored page means the same either way. -/
theorem strategies_mean_the_same_including :
    MeanTheSame ["work"] (traceId (hourlyCompiler.bodyOf Session.includingText))
      (hourlyCompiler.nextFile earlyWorld) (hourlyCompiler.bodyOf Session.includingText) freshPress
      (hourlyCompiler.compile earlyWorld none Session.includingText (Strategy.ephemeral.asked []))
      (hourlyCompiler.compile earlyWorld none Session.includingText
        (Strategy.materialized.asked [])) ∧
    hourlyCompiler.nextFile earlyWorld = "tmpl-0.tera" ∧
    renderedText freshPress (hourlyCompiler.compile earlyWorld none Session.includingText
      (Strategy.materialized.asked [])) = some "[old]" := by
  refine ⟨strategies_mean_the_same (p := freshPress) canWrite_hourlyCompiler leavesInline_hourlyCompiler
    (fun q hq => by cases hq) none []
    (isSilent_of_collect isFitted_hourlyCompiler.reachable.isSound (by decide +kernel)),
    by decide +kernel, by decide +kernel⟩

/-! ### A loader with the name of another -/

/-- What one would say of any loaders: the strategies mean the same. -/
def StrategiesMeanTheSame : Prop :=
  ∀ (p : Press) (w : World) (home : Place) (source : String) (name : Option String)
    (options : Table String), p.compiler.CanWrite w home →
    p.registry.IsElsewhere (p.compiler.nextFile w) →
    (∀ r, Leads (Chain.answer w p.compiler.chain)
      (Compiler.inlineResource (traceId (p.compiler.bodyOf source)) (p.compiler.bodyOf source)) r →
      IsSilent (traceId (p.compiler.bodyOf source)) (p.compiler.nextFile w) r.source) →
    MeanTheSame home (traceId (p.compiler.bodyOf source)) (p.compiler.nextFile w)
      (p.compiler.bodyOf source) p
      (p.compiler.compile w name source (Strategy.ephemeral.asked options))
      (p.compiler.compile w name source (Strategy.materialized.asked options))

/-- A page with the name that the text "x" has in memory. -/
def namesakeWorld : World where
  disk := { entries := [
    (["work"], .directory), (["pages"], .directory),
    (["pages", "inline-735b2f4734cda621"], .file "other".toUTF8 1)] }
  now := 2

/-- A loader of the host that is called like that of texts in memory, and waits for an hour between two
looks. -/
def namesakeChain : Chain := [
  { settings := { name := "ephemeral", paths := ["/work"], cache := true, checkInterval := .never } },
  { settings := { name := "inline", paths := ["/pages"], cache := true, checkInterval := .every 3600 } }]

/-- The compiler when the page has been asked for. -/
def namesakeCompiler : Compiler where
  workingDirectory := "/work"
  marker := ""
  chain := (Chain.find namesakeWorld "inline-735b2f4734cda621" namesakeChain).2

theorem reachable_namesakeChain : namesakeChain.Reachable := Chain.reachable_start [_, _]

theorem canWrite_namesakeCompiler : namesakeCompiler.CanWrite namesakeWorld ["work"] where
  settings := ⟨_, (Chain.settings_find _ _ _).trans rfl⟩
  reachable := reachable_namesakeChain.find _ _
  nodup := by decide +kernel
  rooted := ⟨by decide, by decide⟩
  isHome := { tree := Disk.isTree_of_entries (by decide +kernel), place := by rfl, directory := by decide }
  new := by
    have hnew : ∀ l ∈ namesakeCompiler.chain, ∀ e ∈ l.copies,
        e.1 ≠ namesakeCompiler.nextFile namesakeWorld ∧
          ¬ e.2.path.EndsIn (namesakeCompiler.nextFile namesakeWorld) := by
      decide +kernel
    exact fun l hl n r hr => hnew l hl (n, r) (Table.mem_of_get? hr)

/-- **A text in memory is taken for a page of the loader that is called like its own**: the two strategies
do not mean the same. -/
theorem not_strategies_mean_the_same : ¬ StrategiesMeanTheSame := by
  intro hclaim
  have hmean := hclaim (pressOf namesakeCompiler) namesakeWorld ["work"] "x" none []
    canWrite_namesakeCompiler (fun q hq => by cases hq)
    (isSilent_of_collect canWrite_namesakeCompiler.reachable.isSound (by decide +kernel))
  have hmemory : renderedText (pressOf namesakeCompiler) (namesakeCompiler.compile namesakeWorld none "x"
      (Strategy.ephemeral.asked [])) = some "other" := by
    decide +kernel
  have hfile : renderedText (pressOf namesakeCompiler) (namesakeCompiler.compile namesakeWorld none "x"
      (Strategy.materialized.asked [])) = some "x" := by
    decide +kernel
  have hchanged : changedSilent (traceId "x") "tmpl-0.tera" (namesakeCompiler.compile namesakeWorld none
      "x" (Strategy.ephemeral.asked [])) = true := by
    decide +kernel
  have hsilent : ∀ t k w, namesakeCompiler.compile namesakeWorld none "x" (Strategy.ephemeral.asked [])
      = (.ok t, k, w) → Job.IsSilent w (traceId "x") "tmpl-0.tera"
        { press := { pressOf namesakeCompiler with compiler := k }, template := t } := fun t k w hmade =>
    isSilent_of_compile_ephemeral canWrite_namesakeCompiler.reachable.isSound hchanged hmade
  change MeanTheSame _ _ _ _ _ (namesakeCompiler.compile namesakeWorld none "x" _)
    (namesakeCompiler.compile namesakeWorld none "x" _) at hmean
  generalize namesakeCompiler.compile namesakeWorld none "x" (Strategy.ephemeral.asked []) = a
    at hmean hmemory hsilent
  generalize namesakeCompiler.compile namesakeWorld none "x" (Strategy.materialized.asked []) = b
    at hmean hfile
  cases hmean with
  | fail _ => simp [renderedText, Except.toOption] at hmemory
  | @make t t' k k' w w' hmatch =>
    have hsame := hmatch.rendered .start [] hmatch.beside (hsilent _ _ _ rfl)
    have hsame : ((pressOf k').render w' t' []).1.toOption = ((pressOf k).render w t []).1.toOption :=
      hsame.toOption_eq
    have heq : some "x" = some "other" :=
      hfile.symm.trans ((congrArg (·.bind String.fromUTF8?) hsame).trans hmemory)
    exact absurd heq (by decide)

end Press

end QueryPress
