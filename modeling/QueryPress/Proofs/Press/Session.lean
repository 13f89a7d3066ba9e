import QueryPress.Press
import QueryPress.Proofs.Template.Making

/-!
# Proofs/Press/Session — hot reload is as good as compiling again

A *session* begins when a template has been compiled: files are written over at later times, time
passes, and the template and others of the press are rendered, in any order.  However long it takes and
whatever goes wrong on the way, a refresh that is not abandoned leaves in the template all that would be
collected anew for it, with the texts that it would be collected with (`reload_eq_compile`).

Loaders that serve several templates keep one copy under a name.  So that no look on behalf of another
template takes a file away from this one, what the loaders and the others hold has to be settled when
the template is compiled (`not_reload_eq_compile`).
-/

namespace QueryPress

/-- **What loaders hold in a session** — plain texts, and settled ones if several templates share the
loaders. -/
def sessionTrait (shared : Prop) (w : World) : Trait := fun settings r =>
  IsPlain r.source ∧ (shared → settledTrait w settings r)

variable {w w' : World} {shared : Prop}

theorem sessionTrait_isRegular (shared : Prop) (hw : ∀ text ∈ w.texts, IsPlain text) :
    (sessionTrait shared w).IsRegular w where
  found hloc hread := ⟨hw _ (World.mem_texts_of_readText (Loader.read_eq_ok hread).1),
    fun _ => (settledTrait_isRegular w).found hloc hread⟩
  reread hs hread := ⟨hw _ (World.mem_texts_of_readText (Loader.read_eq_ok hread).1),
    fun hshared => (settledTrait_isRegular w).reread (hs.2 hshared) hread⟩

theorem sessionTrait_ages (ha : w.Ages w') {settings : LoaderSettings} {r : Resource}
    (h : sessionTrait shared w settings r) : sessionTrait shared w' settings r :=
  h.imp id fun hsettled hshared => settledTrait_ages ha (hsettled hshared)

theorem Chain.Has.mono {R S : Trait} {c : Chain} {r : Resource} (h : Chain.Has R c r)
    (hRS : ∀ settings, R settings r → S settings r) : Chain.Has S c r := by
  obtain ⟨settings, hmem, hname, hR⟩ := h
  exact ⟨settings, hmem, hname, hRS settings hR⟩

/-- A press at work on a template, beside others. -/
structure Session where
  world : World
  press : Press
  template : Template
  others : List Template

namespace Session

/-- The loaders of the press. -/
def chain (s : Session) : Chain := s.press.compiler.chain

/-- **What happens in a session** — a file is written over at a later time with a plain text, time
passes, or the template or another is rendered. -/
inductive Step : Session → Session → Prop
  | edit {s : Session} {p : Path} {old bytes : ByteArray} {t time : Instant} {w' : World} :
      s.world.entry p = .ok (.file old t) → t < time →
      (∀ text, String.fromUTF8? bytes = some text → IsPlain text) →
      s.world.writeAt p bytes time = .ok w' → Step s { s with world := w' }
  | wait {s : Session} (now : Instant) : Step s { s with world := { s.world with now } }
  | render {s : Session} {vars : Table Json} {answer : Except Error ByteArray} {t : Template}
      {p : Press} :
      s.press.render s.world s.template vars = (answer, t, p) →
      Step s { s with press := p, template := t }
  | renderOther {s : Session} {front back : List Template} {vars : Table Json}
      {answer : Except Error ByteArray} {t t' : Template} {p : Press} :
      s.others = front ++ t :: back → s.press.render s.world t vars = (answer, t', p) →
      Step s { s with press := p, others := front ++ t' :: back }

/-- One step after the other. -/
inductive Run : Session → Session → Prop
  | start {s : Session} : Run s s
  | step {s s' s'' : Session} : Run s s' → Step s' s'' → Run s s''

/-! ## What every step keeps -/

/-- **What is kept in a session** — the loaders are in order and uphold the template, and all texts are
plain; and what the loaders and the others hold is settled if there are others. -/
structure IsKept (shared : Prop) (root : Option Resource) (entry : String) (s : Session) :
    Prop where
  orderly : s.chain.IsOrderly
  upheld : s.template.bundle.IsUpheld s.world s.chain root
  named : s.template.bundle.entry = entry
  files : ∀ text ∈ s.world.texts, IsPlain text
  copies : Chain.Keeps (sessionTrait shared s.world) s.chain
  texts : ∀ r ∈ s.template.bundle.resources, IsPlain r.source
  members : ∀ r ∈ s.template.bundle.resources,
    (root = some r ∧ r.IsGiven) ∨ Chain.Has (sessionTrait shared s.world) s.chain r
  others : ∀ t ∈ s.others, ∀ r ∈ t.bundle.resources,
    r.IsGiven ∨ Chain.Has (sessionTrait shared s.world) s.chain r
  alone : s.others ≠ [] → shared

variable {root : Option Resource} {entry : String} {s s' : Session}

/-- Files become later, and their texts are plain. -/
theorem IsKept.ages (h : s.IsKept shared root entry) (ha : s.world.Ages w')
    (hfiles : ∀ text ∈ w'.texts, IsPlain text) :
    IsKept shared root entry { s with world := w' } where
  orderly := h.orderly
  upheld := h.upheld.ages ha
  named := h.named
  files := hfiles
  copies l hl n y hy := sessionTrait_ages ha (h.copies l hl n y hy)
  texts := h.texts
  members r hr := (h.members r hr).imp id (·.mono fun _ => sessionTrait_ages ha)
  others t ht r hr := (h.others t ht r hr).imp id (·.mono fun _ => sessionTrait_ages ha)
  alone := h.alone

/-- To render is to refresh first. -/
theorem render_eq {p p' : Press} {t t' : Template} {vars : Table Json}
    {answer : Except Error ByteArray} (h : p.render w t vars = (answer, t', p')) :
    t'.bundle = (t.bundle.refresh w p.compiler.chain).1 ∧
      p'.compiler.chain = (t.bundle.refresh w p.compiler.chain).2 := by
  obtain ⟨-, hrest⟩ := Prod.mk.inj h
  obtain ⟨rfl, rfl⟩ := Prod.mk.inj hrest
  exact ⟨rfl, rfl⟩

/-- **A refresh of the template keeps all that is kept**, and brings the template up to date unless it is
abandoned. -/
theorem IsKept.refresh (h : s.IsKept shared root entry) {t : Template} {p : Press}
    (ht : t.bundle = (s.template.bundle.refresh s.world s.chain).1)
    (hp : p.compiler.chain = (s.template.bundle.refresh s.world s.chain).2) :
    IsKept shared root entry { s with press := p, template := t } ∧
      (¬ Bundle.Abandons s.world s.chain s.template.bundle →
        t.bundle.IsCurrent s.world p.compiler.chain root) := by
  have hR := sessionTrait_isRegular shared h.files
  obtain ⟨hchain, -⟩ := Bundle.refresh_cases s.world s.template.bundle s.chain
  obtain ⟨hupheld, hcurrent⟩ := h.upheld.refresh h.orderly
  obtain ⟨hcopies, hbrought⟩ := Bundle.has_refresh hR h.orderly.sound h.orderly.nodup h.copies
    fun r hr => (h.members r hr).imp And.right id
  have hset := Chain.settings_collectChanges h.orderly.sound s.world s.template.bundle.resources
  rw [← hchain] at hset
  rw [← hp] at hupheld hcopies hbrought hcurrent hset
  rw [← ht] at hupheld hbrought hcurrent
  refine ⟨⟨?_, hupheld, ?_, h.files, hcopies, fun r hr => ?_, fun r hr => ?_,
    fun t ht r hr => ?_, h.alone⟩, hcurrent⟩
  · change p.compiler.chain.IsOrderly
    rw [hp, hchain]
    exact h.orderly.collectChanges s.world s.template.bundle.resources
  · change t.bundle.entry = entry
    rw [ht, Bundle.entry_refresh, h.named]
  · rcases hbrought r hr with hold | ⟨settings, -, -, hplain, -⟩
    · exact h.texts r hold
    · exact hplain
  · rcases hbrought r hr with hold | hnew
    · exact (h.members r hold).imp id (·.congr hset)
    · exact .inr hnew
  · exact (h.others t ht r hr).imp id (·.congr hset)

/-- **A refresh of another template keeps all that is kept**, too: the loaders are calm. -/
theorem IsKept.refreshOther (h : s.IsKept shared root entry) {front back : List Template}
    {t t' : Template} {p : Press} (hothers : s.others = front ++ t :: back)
    (ht : t'.bundle = (t.bundle.refresh s.world s.chain).1)
    (hp : p.compiler.chain = (t.bundle.refresh s.world s.chain).2) :
    IsKept shared root entry { s with press := p, others := front ++ t' :: back } := by
  have hR := sessionTrait_isRegular shared h.files
  have hshared : shared := h.alone (by simp [hothers])
  have hother := h.others t (by simp [hothers])
  have hcalm : Chain.IsCalm s.world s.chain t.bundle.resources :=
    ⟨fun l hl n y hy => (h.copies l hl n y hy).2 hshared,
      fun r hr => (hother r hr).imp id (·.mono fun _ hhas => hhas.2 hshared)⟩
  obtain ⟨hchain, -⟩ := Bundle.refresh_cases s.world t.bundle s.chain
  obtain ⟨hcopies, hbrought⟩ := Bundle.has_refresh hR h.orderly.sound h.orderly.nodup h.copies hother
  have hset := Chain.settings_collectChanges h.orderly.sound s.world t.bundle.resources
  have hupheld := h.upheld.of_calm h.orderly hcalm
    fun r hr => (h.members r hr).imp And.left (·.mono fun _ hhas => hhas.2 hshared)
  rw [← hchain, ← hp] at hset hupheld
  rw [← hp] at hcopies hbrought
  rw [← ht] at hbrought
  refine ⟨?_, hupheld, h.named, h.files, hcopies, h.texts,
    fun r hr => (h.members r hr).imp id (·.congr hset), fun o ho r hr => ?_, fun _ => hshared⟩
  · change p.compiler.chain.IsOrderly
    rw [hp, hchain]
    exact h.orderly.collectChanges s.world t.bundle.resources
  · have hkeep : ∀ o ∈ s.others, ∀ r ∈ o.bundle.resources,
        r.IsGiven ∨ Chain.Has (sessionTrait shared s.world) p.compiler.chain r :=
      fun o ho r hr => (h.others o ho r hr).imp id (·.congr hset)
    rcases List.mem_append.1 ho with ho | ho
    · exact hkeep o (by simp [hothers, ho]) r hr
    · rcases List.mem_cons.1 ho with rfl | ho
      · rcases hbrought r hr with hold | hnew
        · exact hkeep t (by simp [hothers]) r hold
        · exact .inr hnew
      · exact hkeep o (by simp [hothers, ho]) r hr

/-- **Every step keeps all that is kept.** -/
theorem IsKept.step (h : s.IsKept shared root entry) (hstep : Step s s') :
    s'.IsKept shared root entry := by
  cases hstep with
  | edit hfile hlater hplain hwrite =>
    refine h.ages (World.ages_overwrite hfile hwrite hlater) fun text htext => ?_
    exact (World.texts_overwrite hfile hwrite text htext).elim (hplain text) (h.files text)
  | wait now => exact h.ages (World.ages_tick s.world now) h.files
  | render hrender => exact (h.refresh (render_eq hrender).1 (render_eq hrender).2).1
  | renderOther hothers hrender =>
    exact h.refreshOther hothers (render_eq hrender).1 (render_eq hrender).2

theorem IsKept.run (h : s.IsKept shared root entry) (hrun : Run s s') :
    s'.IsKept shared root entry := by
  induction hrun with
  | start => exact h
  | step _ hstep ih => exact ih.step hstep

/-! ## From the compiled template on -/

variable {k k' k'' : Compiler} {t reloaded : Template} {others : List Template} {p : Press}

/-- **A session begins with all that is kept.** -/
theorem isKept_start (hk : k.IsPrompt) (hw : w.IsRooted) (hmade : k.IsMade w t k' w')
    (hpress : p.compiler = k') (hplain : ∀ text ∈ k.chain.reachableTexts w', IsPlain text)
    (htexts : ∀ o ∈ t :: others, ∀ r ∈ o.bundle.resources, IsPlain r.source)
    (hothers : others = [] ∨
      Chain.IsCalm w' k.chain (others.flatMap fun o => o.bundle.resources)) :
    IsKept (others ≠ []) t.root? t.bundle.entry
      { world := w', press := p, template := t, others } := by
  subst hpress
  have hfiles : ∀ text ∈ w'.texts, IsPlain text := fun text htext =>
    hplain text (List.mem_append_right _ htext)
  have hcopies : Chain.Keeps (sessionTrait (others ≠ []) w') k.chain := fun l hl n y hy =>
    ⟨hplain _ (List.mem_append_left _ (List.mem_flatMap.2
        ⟨l, hl, List.mem_map_of_mem (Table.mem_values_of_get? hy)⟩)),
      fun hne => (hothers.resolve_left hne).copies l hl n y hy⟩
  obtain ⟨horderly, hupheld⟩ := hmade.isUpheld hk hw
  obtain ⟨hset, hcopies', hmembers⟩ :=
    hmade.has hk hw (sessionTrait_isRegular (others ≠ []) hfiles) hcopies
  refine ⟨horderly, hupheld, rfl, hfiles, hcopies', htexts t List.mem_cons_self, hmembers,
    fun o ho r hr => ?_, id⟩
  have hcalm := hothers.resolve_left (List.ne_nil_of_mem ho)
  refine (hcalm.resources r (List.mem_flatMap.2 ⟨o, ho, hr⟩)).imp id fun hhas => ?_
  have hsession : Chain.Has (sessionTrait (others ≠ []) w') k.chain r :=
    hhas.mono fun _ hsettled => ⟨htexts o (List.mem_cons_of_mem t ho) r hr, fun _ => hsettled⟩
  exact hsession.congr hset

/-- **Hot reload is as good as compiling again.**

However a template was compiled, with loaders that look at files whenever they are asked, and whatever
has been edited and rendered since: a refresh that is not abandoned leaves in the template all that
would be collected anew for it, and its resources and its book hold the texts that it would be collected
with.  Collecting anew does not fail then. -/
theorem reload_eq_compile (hk : k.IsPrompt) (hw : w.IsRooted) (hmade : k.IsMade w t k' w')
    (hpress : p.compiler = k') (hplain : ∀ text ∈ k.chain.reachableTexts w', IsPlain text)
    (htexts : ∀ o ∈ t :: others, ∀ r ∈ o.bundle.resources, IsPlain r.source)
    (hothers : others = [] ∨
      Chain.IsCalm w' k.chain (others.flatMap fun o => o.bundle.resources))
    (hrun : Run { world := w', press := p, template := t, others } s)
    (hdone : ¬ Bundle.Abandons s.world s.chain s.template.bundle)
    (hrefresh : s.press.compiler.refresh s.world s.template = (reloaded, k'')) :
    (reloaded.bundle.resources.map Resource.name).Nodup ∧
      ∃ members, Bundle.collectAnew s.world k''.chain t.root? t.bundle.entry = .ok members ∧
        ∀ m ∈ members, m ∈ reloaded.bundle.resources ∧
          reloaded.bundle.book.source? m.name = some m.source := by
  obtain ⟨rfl, rfl⟩ := Prod.mk.inj hrefresh
  have hkept := (isKept_start hk hw hmade hpress hplain htexts hothers).run hrun
  obtain ⟨hkept', hcurrent⟩ := hkept.refresh
    (t := (s.press.compiler.refresh s.world s.template).1)
    (p := { s.press with compiler := (s.press.compiler.refresh s.world s.template).2 }) rfl rfl
  have hanew := hkept'.upheld.collectAnew hkept'.orderly (hcurrent hdone) hkept'.texts
  rw [hkept'.named] at hanew
  exact ⟨hkept'.upheld.nodup, hanew⟩

/-! ## Two directories with a page of one name -/

/-- A page in the second of two directories. -/
def farWorld : World where
  disk := { entries := [
    (["work"], .directory), (["p1"], .directory), (["p2"], .directory),
    (["p2", "a.tera"], .file "far".toUTF8 1)] }

/-- The page has been edited, and there is one of its name in the first directory. -/
def nearWorld : World where
  disk := { entries := [
    (["work"], .directory), (["p1"], .directory), (["p2"], .directory),
    (["p1", "a.tera"], .file "near".toUTF8 1), (["p2", "a.tera"], .file "far again".toUTF8 2)] }

/-- One loader of both directories, behind that of the working directory. -/
def sharedCompiler : Compiler where
  workingDirectory := "/work"
  marker := ""
  chain := [
    { settings := { name := "ephemeral", paths := ["/work"], cache := true,
                    checkInterval := .never } },
    { settings := { name := "shared", paths := ["/p1", "/p2"], cache := true,
                    checkInterval := .always } }]

theorem isPrompt_sharedCompiler : sharedCompiler.IsPrompt where
  settings := ⟨[_], rfl, by simp⟩
  reachable := Chain.reachable_start [_, _]
  nodup := by decide

/-- The text of a template that includes the page. -/
def includingText : String := "[\x7b% include 'a.tera' %\x7d]"

/-- What compiling the text comes to. -/
def including (w : World) (k : Compiler) : Except Error Template × Compiler × World :=
  k.compile w none includingText []

theorem including_eq {w : World} {k : Compiler} (h : k.marker = "") :
    (including w k).2.2 = w ∧ (including w k).2.1.marker = "" := by
  simp [including, Compiler.compile, Strategy.classify, h, Strategy.ofOptions, Table.get?,
    Compiler.compileEphemeral]

theorem isMade_including {w : World} {k : Compiler} (hk : k.marker = "")
    (h : (including w k).1.toOption.isSome = true) :
    k.IsMade w ((including w k).1.toOption.get h) (including w k).2.1 w := by
  have hmade : including w k = (.ok ((including w k).1.toOption.get h), (including w k).2.1, w) :=
    Prod.ext (eq_ok_get h) (Prod.ext rfl (including_eq hk).1)
  exact .compiled hmade

-- what is compiled is only ever looked at by evaluation
attribute [irreducible] including

theorem isSome_farTemplate : (including farWorld sharedCompiler).1.toOption.isSome = true := by
  decide +kernel

/-- A template that has found the far page. -/
def farTemplate : Template := (including farWorld sharedCompiler).1.toOption.get isSome_farTemplate

/-- A press with the compiler that has made it. -/
def farPress : Press where
  registry := []
  compiler := (including farWorld sharedCompiler).2.1
  buffers := { maxSize := 1, capacity := 1, maxRetained := 1 }

/-- The far page has been edited. -/
def editedWorld : World :=
  { farWorld with disk := farWorld.disk.put ["p2", "a.tera"] (.file "far again".toUTF8 2) }

theorem isRooted_farWorld : farWorld.IsRooted where
  absolute := by decide
  straight := by decide

theorem entry_farPage : farWorld.entry "/p2/a.tera" = .ok (.file "far".toUTF8 1) := by rfl

theorem write_farPage :
    farWorld.writeAt "/p2/a.tera" "far again".toUTF8 2 = .ok editedWorld := by
  rfl

theorem isPlain_farPage :
    ∀ text, String.fromUTF8? "far again".toUTF8 = some text → IsPlain text := by
  have hfar : String.fromUTF8? "far again".toUTF8 = some "far again" := by decide +kernel
  intro text htext
  obtain rfl := Option.some.inj (hfar.symm.trans htext)
  decide +kernel

/-- The session of the far template. -/
def farSession : Session :=
  { world := farWorld, press := farPress, template := farTemplate, others := [] }

/-- The session when the far page has been edited. -/
def editedSession : Session := { farSession with world := editedWorld }

theorem run_editedSession : Run farSession editedSession :=
  .step .start (.edit (s := farSession) entry_farPage (by decide) isPlain_farPage write_farPage)

/-- What a refresh comes to then. -/
def editedRefresh : Template × Compiler :=
  editedSession.press.compiler.refresh editedSession.world editedSession.template

/-- What would be collected anew then. -/
def editedMembers : Except Error (List Resource) :=
  Bundle.collectAnew editedSession.world editedRefresh.2.chain farTemplate.root?
    farTemplate.bundle.entry

/-- A page that has been edited is found again. -/
theorem reload_eq_compile_edited : ∃ members, editedMembers = .ok members ∧
    members.map Resource.source = [includingText, "far again"] ∧
    ∀ m ∈ members, m ∈ editedRefresh.1.bundle.resources ∧
      editedRefresh.1.bundle.book.source? m.name = some m.source := by
  have hrefresh : editedSession.press.compiler.refresh editedSession.world editedSession.template
      = (editedRefresh.1, editedRefresh.2) := by
    rw [editedRefresh]
  have hdone : ¬ Bundle.Abandons editedSession.world editedSession.chain
      editedSession.template.bundle :=
    Bundle.not_abandons (by decide +kernel)
  obtain ⟨-, members, hmembers, hheld⟩ := reload_eq_compile
    isPrompt_sharedCompiler isRooted_farWorld (isMade_including rfl isSome_farTemplate) rfl
    (by decide +kernel) (by decide +kernel) (.inl rfl) run_editedSession hdone hrefresh
  have hsources : editedMembers.toOption.map (fun rs => rs.map Resource.source)
      = some [includingText, "far again"] := by
    decide +kernel
  have hmembers : editedMembers = .ok members := hmembers
  rw [hmembers] at hsources
  exact ⟨members, hmembers, Option.some.inj hsources, hheld⟩

/-! ## A file that is looked at for another template -/

/-- The compiler that has made the far template. -/
def farCompiler : Compiler := (including farWorld sharedCompiler).2.1

theorem isSome_nearTemplate : (including nearWorld farCompiler).1.toOption.isSome = true := by
  decide +kernel

/-- A template that has found the near page. -/
def nearTemplate : Template := (including nearWorld farCompiler).1.toOption.get isSome_nearTemplate

/-- A press with the compiler that has made both templates. -/
def nearPress : Press where
  registry := []
  compiler := (including nearWorld farCompiler).2.1
  buffers := { maxSize := 1, capacity := 1, maxRetained := 1 }

/-- The session of the near template beside the far one. -/
def nearSession : Session :=
  { world := nearWorld, press := nearPress, template := nearTemplate, others := [farTemplate] }

/-- What rendering the far template comes to. -/
@[irreducible]
def farRendered : Except Error ByteArray × Template × Press :=
  nearPress.render nearWorld farTemplate []

/-- The session when the far template has been rendered. -/
def mixedSession : Session :=
  { nearSession with press := farRendered.2.2, others := [] ++ farRendered.2.1 :: [] }

theorem run_mixedSession : Run nearSession mixedSession := by
  have hrender : nearPress.render nearWorld farTemplate []
      = (farRendered.1, farRendered.2.1, farRendered.2.2) := by
    unfold farRendered
    rfl
  have hothers : nearSession.others = [] ++ farTemplate :: [] := rfl
  exact .step .start (.renderOther hothers hrender)

/-- What a refresh of the near template comes to then. -/
def mixedRefresh : Template × Compiler :=
  mixedSession.press.compiler.refresh mixedSession.world mixedSession.template

/-- What would be collected anew for it. -/
def mixedMembers : Except Error (List Resource) :=
  Bundle.collectAnew mixedSession.world mixedRefresh.2.chain nearTemplate.root?
    nearTemplate.bundle.entry

/-- **Other templates have to be settled** — a look for a later copy of the far page puts it in the
place of the near one, which the near template goes on holding. -/
theorem not_reload_eq_compile :
    ¬ ∀ (w₀ w₁ w w' : World) (k₀ k k' k'' : Compiler) (o t reloaded : Template) (p : Press)
      (s : Session), k₀.IsPrompt → w₀.IsRooted → k₀.IsMade w₀ o k w₁ →
        w.IsRooted → k.IsMade w t k' w' → p.compiler = k' →
        (∀ text ∈ k.chain.reachableTexts w', IsPlain text) →
        (∀ o' ∈ [t, o], ∀ r ∈ o'.bundle.resources, IsPlain r.source) →
        Run { world := w', press := p, template := t, others := [o] } s →
        ¬ Bundle.Abandons s.world s.chain s.template.bundle →
        s.press.compiler.refresh s.world s.template = (reloaded, k'') →
        ∃ members, Bundle.collectAnew s.world k''.chain t.root? t.bundle.entry = .ok members ∧
          ∀ m ∈ members, m ∈ reloaded.bundle.resources ∧
            reloaded.bundle.book.source? m.name = some m.source := by
  intro hclaim
  have hrooted : nearWorld.IsRooted := ⟨by decide, by decide⟩
  have hmarker : farCompiler.marker = "" := (including_eq rfl).2
  have hrefresh : mixedSession.press.compiler.refresh mixedSession.world mixedSession.template
      = (mixedRefresh.1, mixedRefresh.2) := by
    rw [mixedRefresh]
  have hdone : ¬ Bundle.Abandons mixedSession.world mixedSession.chain
      mixedSession.template.bundle :=
    Bundle.not_abandons (by decide +kernel)
  obtain ⟨members, hmembers, hheld⟩ := hclaim _ _ _ _ _ farCompiler _ _ farTemplate nearTemplate _
    nearPress mixedSession isPrompt_sharedCompiler isRooted_farWorld
    (isMade_including rfl isSome_farTemplate) hrooted
    (isMade_including hmarker isSome_nearTemplate) rfl (by decide +kernel) (by decide +kernel)
    run_mixedSession hdone hrefresh
  have hmembers : mixedMembers = .ok members := hmembers
  -- the loader has the far page under the name, the template has the near one
  have hfar : mixedMembers.toOption.map (fun rs => rs.map fun r => (r.name, r.source))
      = some [(nearTemplate.bundle.entry, includingText), ("a.tera", "far again")] := by
    decide +kernel
  have hnear : mixedRefresh.1.bundle.book.source? "a.tera" = some "near" := by
    decide +kernel
  rw [hmembers] at hfar
  have hmap : members.map (fun r => (r.name, r.source))
      = [(nearTemplate.bundle.entry, includingText), ("a.tera", "far again")] :=
    Option.some.inj hfar
  have hin : ("a.tera", "far again") ∈ members.map fun r => (r.name, r.source) := by
    rw [hmap]
    simp
  obtain ⟨m, hm, heq⟩ := List.mem_map.1 hin
  obtain ⟨hname, hsource⟩ := Prod.mk.inj heq
  have hbook := (hheld m hm).2
  rw [hname, hsource, hnear] at hbook
  exact absurd hbook (by decide)

end Session

end QueryPress
