import QueryPress.Proofs.Press.Describing
import QueryPress.Proofs.Press.Strategies

/-!
# Proofs/Press/InMemory — a text that was compiled in memory stays what it was

A text in memory is the root of its bundle, and a refresh looks for a later copy of the root as of any
other resource.  No file is behind it, so a loader that is asked for one finds nothing on the disk; but a
loader that is not yet due hands out what it keeps under the root's name.  A root that *rests* with the
loaders (`Resource.Rests`) is therefore never replaced (`Bundle.KeepsRoot.refresh`), whatever else a host
does in between (`Usage.Carries.keepsRoot`), and a text in memory rests unless a loader goes by the name
that such texts have for theirs (`text_in_memory_stays`, `not_textInMemoryStays`).
-/

namespace QueryPress

variable {w w' w₀ : World} {c d : Chain} {r root : Resource} {rs members : List Resource} {b : Bundle}
  {t t' : Template} {k : Compiler} {settings : List LoaderSettings} {u u' : Usage}

/-! ## Looks at a root that rests -/

namespace Chain

/-- **A chain has no later copy of a resource that rests.** -/
theorem fst_refresh_of_rests (w : World) : ∀ {c : Chain}, r.Rests (c.map Loader.settings) →
    (refresh w r c).1 = .ok none
  | [], _ => rfl
  | l :: ls, h => by
    obtain ⟨hl, hls⟩ := List.forall_mem_cons.1 h
    obtain ⟨hname, hf⟩ | ⟨-, hf⟩ := refresh_cons w r l ls <;> rw [hf]
    · obtain hr | hr := Loader.refresh_of_rests w (hl hname) <;> rw [hr] <;> rfl
    · exact fst_refresh_of_rests w hls

/-- **What has changed bears other names than a root that rests**: what is read again bears the name of
the resource that was looked at, and what is collected anew a name that was not known. -/
theorem not_mem_collectChanges_of_rests (hc : c.IsSound) (hrests : root.Rests (c.map Loader.settings))
    (hnodup : ((root :: rs).map Resource.name).Nodup)
    (h : (c.collectChanges w (root :: rs)).1 = .ok members) : root.name ∉ members.map Resource.name := by
  obtain ⟨hroot, -⟩ := List.nodup_cons.1 hnodup
  have hlook : refresh w root c = (.ok none, (refresh w root c).2) :=
    Prod.ext (fst_refresh_of_rests w hrests) rfl
  rw [collectChanges_eq, refreshAll_of_rests hlook] at h
  have hsound := hc.refresh w root
  have hsound' := hsound.refreshAll w rs
  rcases hf : refreshAll w rs (refresh w root c).2 with ⟨(e | changed), d⟩ <;> rw [hf] at h hsound'
  · cases h
  · obtain ⟨asked, -, hnew, hok⟩ := (walks_collectFrom hsound' w _ changed).asks hsound'
    obtain ⟨-, -, hcome, -⟩ := hok members h
    intro hin
    obtain ⟨m, hm, hname⟩ := List.mem_map.1 hin
    rcases hcome m hm with hm | ⟨hm, -⟩
    · have hsub := (names_refreshAll hsound (congrArg Prod.fst hf)).subset
      exact hroot (hname ▸ hsub (List.mem_map_of_mem hm))
    · rw [hname] at hm
      exact hnew _ hm List.mem_cons_self

end Chain

/-! ## A bundle and its root -/

/-- **A bundle keeps a root** — the entry bears its name, the book has its text under the entry, and it is
the first of the resources. -/
structure Bundle.KeepsRoot (root : Resource) (b : Bundle) : Prop where
  entry : b.entry = root.name
  text : b.book.source? b.entry = some root.source
  head : b.resources.head? = some root

theorem Bundle.keepsRoot_of_ofRoot {label : String} (hc : c.IsSound)
    (h : (Bundle.ofRoot w label root c).1 = .ok b) : b.KeepsRoot root where
  entry := by
    obtain ⟨members, book, -, -, rfl⟩ := (ofRoot_cases w label root c).2 b h
    rfl
  text := source?_of_ofRoot hc h
  head := head?_of_ofRoot hc h

/-- **A refresh keeps a root that rests.** -/
theorem Bundle.KeepsRoot.refresh (h : b.KeepsRoot root) (hc : c.IsSound)
    (hnodup : (b.resources.map Resource.name).Nodup) (hrests : root.Rests (c.map Loader.settings))
    (w : World) : (b.refresh w c).1.KeepsRoot root := by
  obtain ⟨-, ⟨-, hb⟩ | ⟨changed, book, -, hchanged, hadd, hb⟩⟩ := refresh_cases w b c <;> rw [hb]
  · exact h
  · obtain ⟨rest, hresources⟩ := List.head?_eq_some_iff.1 h.head
    rw [hresources] at hnodup hchanged ⊢
    have hout := Chain.not_mem_collectChanges_of_rests hc hrests hnodup hchanged
    refine ⟨h.entry, ?_, ?_⟩
    · change book.source? b.entry = some root.source
      rw [Book.source?_add? hadd, lookup_texts_of_not_mem (h.entry ▸ hout), Option.none_or, h.text]
    · have hput : changed.foldl (fun rs r => put r rs) (root :: rest)
          = root :: changed.foldl (fun rs r => put r rs) rest :=
        foldl_put_root fun r hr heq => hout (heq ▸ List.mem_map_of_mem hr)
      exact congrArg List.head? hput

/-! ## A template in the hands of a host -/

/-- **A template in the course of a run** — a host has it in hand, whatever it does, and refreshes it now
and then. -/
inductive Usage.Carries (u : Usage) (t : Template) : Usage → Template → Prop
  | start : t ∈ u.templates → Carries u t u t
  | onward {u' u'' : Usage} {t' : Template} : Carries u t u' t' → Usage.Step u' u'' →
      t' ∈ u''.templates → Carries u t u'' t'
  | refreshed {u' : Usage} {t' : Template} {front back : List Template} (w : World) :
      Carries u t u' t' → u'.templates = front ++ t' :: back →
      Carries u t { u' with compiler := (u'.compiler.refresh w t').2,
                            templates := front ++ (u'.compiler.refresh w t').1 :: back }
        (u'.compiler.refresh w t').1

namespace Usage.Carries

/-- What a host does with a template in hand is a run. -/
theorem run (h : Carries u t u' t') : Usage.Run u u' ∧ t' ∈ u'.templates := by
  induction h with
  | start ht => exact ⟨.start, ht⟩
  | onward _ hstep ht ih => exact ⟨.step ih.1 hstep, ht⟩
  | refreshed w _ htemplates ih =>
    exact ⟨.step ih.1 (.refresh w htemplates), List.mem_append_right _ List.mem_cons_self⟩

/-- **A root that rests is kept by every run.** -/
theorem keepsRoot (h : Carries u t u' t') (hnames : (settings.map LoaderSettings.name).Nodup)
    (hu : u.IsKept anyTrait settings) (hrests : root.Rests settings) (ht : t.bundle.KeepsRoot root) :
    t'.bundle.KeepsRoot root := by
  induction h with
  | start => exact ht
  | onward _ _ _ ih => exact ih
  | @refreshed u' t' front back w hcarries htemplates ih =>
    obtain ⟨hrun, hin⟩ := hcarries.run
    have hkept := hu.run isRegular_anyTrait hnames hrun
    exact ih.refresh hkept.chain.sound (hkept.templates t' hin).closed.nodup
      (by rw [hkept.chain.settings_eq]; exact hrests) w

end Usage.Carries

/-! ## A text in memory -/

namespace Compiler

/-- **A text in memory rests** with loaders of which none that goes by the name that such texts have for
theirs waits between two looks and keeps copies. -/
theorem rests_inlineResource (h : ∀ l ∈ settings, l.name = inlineLoader →
    l.checkInterval.isTimed = true → l.cache = false) (n body : String) :
    (inlineResource n body).Rests settings := fun l hl hname => .inr ⟨rfl, h l hl hname⟩

/-- A template that was compiled in memory has its text for a root. -/
theorem keepsRoot_of_compile (hc : k.chain.IsSound) {name : Option String} {source : String}
    {options : Table String} {k' : Compiler}
    (h : k.compile w name source options = (.ok t, k', w')) (hstrategy : t.strategy = .ephemeral) :
    t.bundle.KeepsRoot (inlineResource (traceId (k.bodyOf source)) (k.bodyOf source)) := by
  obtain ⟨hmemory, -⟩ | hfile := compile_eq_ok h
  · obtain ⟨-, -, label, hbundle⟩ := compileEphemeral_eq_ok hmemory
    exact Bundle.keepsRoot_of_ofRoot hc (congrArg Prod.fst hbundle)
  · rw [(compileMaterialized_eq_ok hfile).1] at hstrategy
    cases hstrategy

end Compiler

/-- **A text that was compiled in memory stays what it was.**

Settings make a press, and a host does with its compiler and its loaders what it likes, while files change
as they like.  In between it compiles a text in memory, and from then on has the template in hand.  Unless
one of the loaders goes by the name that texts in memory have for theirs, waits between two looks and
keeps copies, the template has the text that it was compiled from under its entry, whatever is done and
however often it is refreshed; its first resource is that text, which is no file's; and so it is when it
is rendered again. -/
theorem text_in_memory_stays {s : Settings} {directory : Path} {p : Press} {name : Option String}
    {source : String} {options : Table String} (hpress : Press.ofSettings w₀ s directory = .ok p)
    (hsettings : s.chainSettings w₀.home directory = .ok settings)
    (hinline : ∀ l ∈ settings, l.name = Compiler.inlineLoader → l.checkInterval.isTimed = true →
      l.cache = false)
    (hrun : Usage.Run { compiler := p.compiler } u)
    (hmade : u.compiler.compile w name source options = (.ok t, k, w'))
    (hstrategy : t.strategy = .ephemeral) (hcarries : Usage.Carries (u.made k [t]) t u' t') :
    t'.bundle.KeepsRoot (Compiler.inlineResource (traceId (u.compiler.bodyOf source))
        (u.compiler.bodyOf source)) ∧
      ∀ (p' : Press) (v : World) (vars : Table Json), p'.compiler = u'.compiler →
        (p'.render v t' vars).2.1.bundle.KeepsRoot
          (Compiler.inlineResource (traceId (u.compiler.bodyOf source)) (u.compiler.bodyOf source)) := by
  obtain ⟨hnames, hstart⟩ := Press.upholds_of_ofSettings hpress hsettings anyTrait
  have hkept := (Usage.isKept_start hstart).run isRegular_anyTrait hnames hrun
  have hstep : Usage.Step u (u.made k [t]) := by
    have hstep : Usage.Step u (u.made (u.compiler.compile w name source options).2.1 [t]) :=
      .compile w name source options fun t' ht' => by rw [List.mem_singleton.1 ht', hmade]
    rwa [hmade] at hstep
  have hkept' := hkept.step isRegular_anyTrait hnames hstep
  have hrests := Compiler.rests_inlineResource hinline (traceId (u.compiler.bodyOf source))
    (u.compiler.bodyOf source)
  have hroot := hcarries.keepsRoot hnames hkept' hrests
    (Compiler.keepsRoot_of_compile hkept.chain.sound hmade hstrategy)
  refine ⟨hroot, fun p' v vars hp' => ?_⟩
  -- a rendering begins with a refresh
  obtain ⟨hrun', hin⟩ := hcarries.run
  obtain ⟨hchain, -, htemplates⟩ := hkept'.run isRegular_anyTrait hnames hrun'
  have hc : p'.compiler.chain.Upholds anyTrait settings := hp' ▸ hchain
  exact hroot.refresh hc.sound (htemplates t' hin).closed.nodup (hc.settings_eq ▸ hrests) v

/-! ## A loader with the name of another -/

namespace InMemory

open Press (namesakeWorld)

/-- A loader of the host that is called like that of texts in memory, and looks at its files again after
so many seconds. -/
def namesakeSettings (seconds : Int) : Settings where
  configDirectory := "/press"
  bufferPoolSize := 0
  loaders := [{ name := "inline", paths := ["/pages"], checkInterval := some seconds }]

/-- The loader looks at a file once in an hour. -/
def hourlyPress : Press :=
  (Press.ofSettings namesakeWorld (namesakeSettings 3600) "/work").toOption.get (by decide +kernel)

/-- The loader looks at a file whenever it is asked for it. -/
def promptPress : Press :=
  (Press.ofSettings namesakeWorld (namesakeSettings (-1)) "/work").toOption.get (by decide +kernel)

theorem isSome_promptSettings :
    ((namesakeSettings (-1)).chainSettings namesakeWorld.home "/work").toOption.isSome = true := by
  decide +kernel

/-- A host that has asked for the page which is called like the text "x" in memory. -/
def namesakeUsage (p : Press) : Usage :=
  Usage.asked { compiler := p.compiler }
    (p.compiler.chain.resolve namesakeWorld "inline-735b2f4734cda621").2 []

theorem run_namesakeUsage (p : Press) :
    Usage.Run { compiler := p.compiler } (namesakeUsage p) :=
  .step .start (.resolve namesakeWorld _ (by simp))

/-- What compiling the text "x" comes to then. -/
def compiledX (p : Press) : Except Error Template × Compiler × World :=
  (namesakeUsage p).compiler.compile namesakeWorld none "x" []

/-- The template of the text, where the loader looks once in an hour. -/
def hourlyX : Template := (compiledX hourlyPress).1.toOption.get (by decide +kernel)

/-- The template of the text, where the loader looks whenever it is asked. -/
def promptX : Template := (compiledX promptPress).1.toOption.get (by decide +kernel)

/-- The template is refreshed. -/
theorem carries_refresh (u : Usage) (k : Compiler) (t : Template) :
    Usage.Carries (u.made k [t]) t { u.made k [t] with
      compiler := (k.refresh namesakeWorld t).2
      templates := (k.refresh namesakeWorld t).1 :: u.templates } (k.refresh namesakeWorld t).1 := by
  have htemplates : (u.made k [t]).templates = [] ++ t :: u.templates := rfl
  exact .refreshed namesakeWorld (.start List.mem_cons_self) htemplates

theorem bodyOf_x (p : Press) (h : p.compiler.marker = "\x7b# cache #\x7d") :
    (namesakeUsage p).compiler.bodyOf "x" = "x" := by
  have hmarker : (namesakeUsage p).compiler.marker = "\x7b# cache #\x7d" := h
  rw [Compiler.bodyOf, hmarker]
  decide +kernel

/-- The text of the template when it has been refreshed. -/
def refreshedText (p : Press) (t : Template) : Option String :=
  let bundle := ((compiledX p).2.1.refresh namesakeWorld t).1.bundle
  bundle.book.source? bundle.entry

end InMemory

open InMemory

/-- A page has the name of the text, and its loader is called like that of texts in memory; but it looks at
the disk whenever it is asked, and the text stays. -/
theorem text_in_memory_stays_prompt :
    (Chain.answer Press.namesakeWorld (compiledX promptPress).2.1.chain promptX.bundle.entry).toOption.bind
        (·.map Resource.source) = some "other" ∧
      refreshedText promptPress promptX = some "x" := by
  obtain ⟨hstrategy, hmarker, hother⟩ : promptX.strategy = .ephemeral ∧
      promptPress.compiler.marker = "\x7b# cache #\x7d" ∧
      (Chain.answer Press.namesakeWorld (compiledX promptPress).2.1.chain
        promptX.bundle.entry).toOption.bind (·.map Resource.source) = some "other" := by
    decide +kernel
  have hpress : Press.ofSettings Press.namesakeWorld (namesakeSettings (-1)) "/work" = .ok promptPress :=
    eq_ok_get _
  have hmade : compiledX promptPress
      = (.ok promptX, (compiledX promptPress).2.1, (compiledX promptPress).2.2) :=
    Prod.ext (eq_ok_get _) rfl
  obtain ⟨hroot, -⟩ := text_in_memory_stays hpress
    (eq_ok_get isSome_promptSettings) (by decide +kernel) (run_namesakeUsage promptPress) hmade hstrategy
    (carries_refresh (namesakeUsage promptPress) (compiledX promptPress).2.1 promptX)
  exact ⟨hother, hroot.text.trans (congrArg some (bodyOf_x promptPress hmarker))⟩

/-- What one would say of every press: a text that was compiled in memory stays what it was. -/
def TextInMemoryStays : Prop :=
  ∀ (w₀ w w' : World) (s : Settings) (directory : Path) (p : Press) (u u' : Usage) (t t' : Template)
    (k : Compiler) (name : Option String) (source : String) (options : Table String),
    Press.ofSettings w₀ s directory = .ok p → Usage.Run { compiler := p.compiler } u →
    u.compiler.compile w name source options = (.ok t, k, w') → t.strategy = .ephemeral →
    Usage.Carries (u.made k [t]) t u' t' →
      t'.bundle.book.source? t'.bundle.entry = some (u.compiler.bodyOf source)

/-- **A loader that goes by the name which texts in memory have for theirs**, and looks at its files once
in an hour, hands out the page that it keeps under the name of the text in place of the text. -/
theorem not_textInMemoryStays : ¬ TextInMemoryStays := by
  intro hstays
  obtain ⟨hstrategy, hmarker, hother⟩ : hourlyX.strategy = .ephemeral ∧
      hourlyPress.compiler.marker = "\x7b# cache #\x7d" ∧
      refreshedText hourlyPress hourlyX = some "other" := by
    decide +kernel
  have hpress : Press.ofSettings Press.namesakeWorld (namesakeSettings 3600) "/work" = .ok hourlyPress :=
    eq_ok_get _
  have hmade : compiledX hourlyPress
      = (.ok hourlyX, (compiledX hourlyPress).2.1, (compiledX hourlyPress).2.2) :=
    Prod.ext (eq_ok_get _) rfl
  have htext := hstays _ _ _ _ _ _ _ _ _ _ _ _ _ _
    hpress (run_namesakeUsage hourlyPress) hmade hstrategy
    (carries_refresh (namesakeUsage hourlyPress) (compiledX hourlyPress).2.1 hourlyX)
  rw [bodyOf_x hourlyPress hmarker] at htext
  exact absurd (hother.symm.trans htext) (by decide)

end QueryPress
