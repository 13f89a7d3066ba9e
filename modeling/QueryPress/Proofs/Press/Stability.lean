import QueryPress.Proofs.Press.Merging
import QueryPress.Proofs.Press.Session
import QueryPress.Proofs.Press.Settling
import QueryPress.Proofs.Template.Stability

/-!
# Proofs/Press/Stability — a template is refreshed as a whole, and rendered alike while nothing happens

Whatever has been edited, broken or removed, a refresh brings all that the loaders report, with what it
refers to, or leaves the template as it was.  While no file changes and nothing disturbs the loaders
(`Bundle.Undisturbed`), the next refresh brings nothing more, and so a template is rendered the same
twice, if its property sources keep what they have and what it asks outside is answered the same
(`refresh_stable`).  Loaders that wait between their looks are disturbed by time, or by a copy that
is dropped: what was edited before the first refresh is noticed by the second, if the wait is over by
then (`not_staysAsRefreshed`).
-/

namespace QueryPress

variable {w w' : World} {k k' : Compiler} {t t₀ : Template} {c : Chain} {b : Bundle}

/-! ## Two refreshes -/

/-- **Nothing disturbs a bundle between two refreshes** — no file changes.  If the first is not abandoned,
no stray copy is kept of a resource, and the loaders that wait are left alone; if it is, no loader waits
at all, and they are asked for names and nothing else. -/
inductive Bundle.Undisturbed (w w' : World) (c : Chain) (b : Bundle) (c' : Chain) : Prop
  | done : ¬ Bundle.Abandons w c b → w.Unchanged w' →
      (∀ r ∈ (b.refresh w c).1.resources, w'.modified r.path = w.modified r.path) →
      (∀ r ∈ b.resources, Chain.KeepsNoStray w c r) →
      Chain.Waits w'.now (b.refresh w c).1.resources (b.refresh w c).2 c' → Undisturbed w w' c b c'
  | abandoned : Bundle.Abandons w c b → w.Unchanged w' →
      (∀ r ∈ (b.refresh w c).1.resources, w'.modified r.path = w.modified r.path) →
      c.IsUntimed → Chain.AskedMeanwhile w (b.refresh w c).2 c' → Chain.KeepsTimes w w' c' →
      Undisturbed w w' c b c'

theorem Bundle.refresh_of_undisturbed {c' : Chain} (hc : c.IsSound) (hnames : c.names.Nodup)
    (hb : b.IsClosed) (h : b.Undisturbed w w' c c') :
    ((b.refresh w c).1.refresh w' c').1 = (b.refresh w c).1 := by
  cases h with
  | done hdone _ hmodified hstray hwaits =>
    exact refresh_refresh hc hnames hb hstray hdone hmodified hwaits
  | abandoned habandons hu hmodified huntimed hasked htimes =>
    have hsame : (b.refresh w c).1 = b := by
      obtain ⟨-, ⟨-, hsame⟩ | ⟨members, book, hdone, -⟩⟩ := refresh_cases w b c
      · exact hsame
      · exact absurd habandons hdone
    rw [hsame] at hmodified
    rw [refresh_refresh_of_abandons hc huntimed hu hmodified hasked htimes habandons, hsame]

theorem Bundle.Undisturbed.unchanged {c' : Chain} (h : b.Undisturbed w w' c c') : w.Unchanged w' := by
  cases h <;> assumption

/-- **A refresh is all or nothing, and stable.**

A template that was made and refreshed any number of times, by whatever loaders, is refreshed as a whole
or, if the refresh is abandoned, not at all.  If nothing disturbs it until the next refresh, by loaders
of whatever state, that leaves it as it is.  And if it is rendered again with the same variables, while
nothing disturbs it, its property sources keep what they have and the functions that it calls say the same,
the result is the same. -/
theorem refresh_stable {v v' : World} {p : Press} (hk : k.chain.IsSound)
    (hmade : k.IsMade v t₀ k' v') (hrenewed : Template.Renewed t₀ t)
    (hc : p.compiler.chain.Reachable) (hnames : p.compiler.chain.names.Nodup) (w : World) :
    ((t.bundle.Abandons w p.compiler.chain ∧ (p.compiler.refresh w t).1 = t) ∨
      (¬ t.bundle.Abandons w p.compiler.chain ∧
        t.bundle.Installs w p.compiler.chain (p.compiler.refresh w t).1.bundle)) ∧
    (∀ w' later, t.bundle.Undisturbed w w' p.compiler.chain later.chain →
      (Compiler.refresh w' later (p.compiler.refresh w t).1).1 = (p.compiler.refresh w t).1) ∧
    ∀ vars w', Table.InOrder p.registry → p.buffers.IsClean →
      t.bundle.Undisturbed w w' p.compiler.chain (p.render w t vars).2.2.compiler.chain →
      (p.registry.fresh w).IsSteady w → Press.SourcesWait w w' (p.render w t vars).2.2.registry →
      (∀ f : Standard, f.name ∈ (p.compiler.refresh w t).1.bundle.book.calls → f.SaysTheSame w w') →
        ((p.render w t vars).2.2.render w' (p.render w t vars).2.1 vars).1 = (p.render w t vars).1 := by
  have hsound := hc.isSound
  have hclosed := hrenewed.isClosed (hmade.isClosed hk)
  refine ⟨?_, fun w' later h => ?_, fun vars w' hordered hclean h hsteady hwait hsays => ?_⟩
  · refine (Bundle.refresh_abandons_or_installs (w := w) hsound hclosed).imp
      (fun h => ⟨h.1, ?_⟩) id
    rw [Compiler.refresh]
    exact congrArg (fun bundle => { t with bundle }) h.2
  · have hsame := Bundle.refresh_of_undisturbed hsound hnames hclosed h
    exact congrArg (fun bundle => { t with bundle }) hsame
  · have hsame : ((t.bundle.refresh w p.compiler.chain).1.refresh w'
        (t.bundle.refresh w p.compiler.chain).2).1 = (t.bundle.refresh w p.compiler.chain).1 :=
      Bundle.refresh_of_undisturbed hsound hnames hclosed h
    have hmerge := Press.mergeBundle_again (t.bundle.refresh w p.compiler.chain).1 vars hordered hclean
      hsteady hsays h.unchanged hwait
    have hsecond := Press.fst_render (p.render w t vars).2.2 w' (p.render w t vars).2.1 vars
    rw [hsecond, Press.fst_render]
    simp only [Press.template_render, Press.chain_render, Press.sources_render, Press.buffers_render,
      hsame, hmerge]

/-! ## A loader that waits -/

open Session (including isMade_including)

/-- A page below a directory. -/
def earlyWorld : World where
  disk := { entries := [
    (["work"], .directory), (["pages"], .directory),
    (["pages", "a.tera"], .file "old".toUTF8 1)] }
  now := 2

/-- The page has been edited. -/
def lateWorld : World where
  disk := { entries := [
    (["work"], .directory), (["pages"], .directory),
    (["pages", "a.tera"], .file "new".toUTF8 3)] }
  now := 4

/-- A loader that waits for an hour between two looks, behind that of the working directory. -/
def hourlyCompiler : Compiler where
  workingDirectory := "/work"
  marker := ""
  chain := [
    { settings := { name := "ephemeral", paths := ["/work"], cache := true,
                    checkInterval := .never } },
    { settings := { name := "pages", paths := ["/pages"], cache := true,
                    checkInterval := .every 3600 } }]

theorem isFitted_hourlyCompiler : hourlyCompiler.IsFitted where
  settings := ⟨[_], rfl⟩
  reachable := Chain.reachable_start [_, _]

theorem isRooted_earlyWorld : earlyWorld.IsRooted := ⟨by decide, by decide⟩

theorem isSome_earlyTemplate : (including earlyWorld hourlyCompiler).1.toOption.isSome = true := by
  decide +kernel

/-- A template with the page as it was. -/
def earlyTemplate : Template :=
  (including earlyWorld hourlyCompiler).1.toOption.get isSome_earlyTemplate

/-- The compiler that has made it. -/
def earlyCompiler : Compiler := (including earlyWorld hourlyCompiler).2.1

/-- The page as it is after the first refresh, by loaders that have just been set up. -/
def freshPress : Press where
  registry := []
  compiler := hourlyCompiler
  buffers := { maxSize := 1, capacity := 8, maxRetained := 64 }

theorem isStill_earlyTemplate :
    ∀ r ∈ (earlyTemplate.bundle.refresh lateWorld hourlyCompiler.chain).1.resources,
      World.modified { lateWorld with now := 100 } r.path = lateWorld.modified r.path := by
  have hfiles : ∀ r ∈ (earlyTemplate.bundle.refresh lateWorld hourlyCompiler.chain).1.resources,
      r.path = "" ∨ lateWorld.isFile r.path = true := by
    decide +kernel
  intro r hr
  rcases hfiles r hr with hempty | hfile
  · rw [hempty, World.modified_empty, World.modified_empty]
  · exact World.Unchanged.modified (fun _ => rfl) hfile

theorem waits_hourlyCompiler :
    Chain.Waits 100 (earlyTemplate.bundle.refresh lateWorld hourlyCompiler.chain).1.resources
      (earlyTemplate.bundle.refresh lateWorld hourlyCompiler.chain).2
      (earlyTemplate.bundle.refresh lateWorld hourlyCompiler.chain).2 := by
  have hdue : ∀ l ∈ (earlyTemplate.bundle.refresh lateWorld hourlyCompiler.chain).2,
      l.settings.checkInterval.isTimed = true →
        ∀ r ∈ (earlyTemplate.bundle.refresh lateWorld hourlyCompiler.chain).1.resources,
          l.name = r.loader → l.isDue 100 r.name = false := by
    decide +kernel
  exact fun l hl => ⟨l, hl, rfl, fun htimed r hr hname => ⟨rfl, hdue l hl htimed r hr hname⟩⟩

theorem undisturbed_earlyTemplate :
    earlyTemplate.bundle.Undisturbed lateWorld { lateWorld with now := 100 } hourlyCompiler.chain
      (earlyTemplate.bundle.refresh lateWorld hourlyCompiler.chain).2 := by
  refine .done (Bundle.not_abandons (by decide +kernel)) (fun _ => rfl) isStill_earlyTemplate
    (fun r _ l hl _ _ _ y hy => ?_) waits_hourlyCompiler
  have hnone : l.copy? r.name = none := by
    rcases List.mem_cons.1 hl with rfl | hl
    · rfl
    · obtain rfl := List.mem_singleton.1 hl
      rfl
  rw [hnone] at hy
  cases hy

/-- The template calls nothing. -/
theorem saysTheSame_earlyTemplate (f : Standard)
    (hf : f.name ∈ (freshPress.compiler.refresh lateWorld earlyTemplate).1.bundle.book.calls) :
    f.SaysTheSame lateWorld { lateWorld with now := 100 } := by
  have hcalls : (freshPress.compiler.refresh lateWorld earlyTemplate).1.bundle.book.calls = [] := by
    decide +kernel
  rw [hcalls] at hf
  cases hf

/-- The text of the page in a template. -/
def pageOf (t : Template) : Option String := t.bundle.book.source? "a.tera"

/-- The edited page is brought by the first refresh, and rendered twice. -/
theorem refresh_stable_hourly :
    pageOf (hourlyCompiler.refresh lateWorld earlyTemplate).1 = some "new" ∧
      ((freshPress.render lateWorld earlyTemplate []).2.2.render { lateWorld with now := 100 }
        (freshPress.render lateWorld earlyTemplate []).2.1 []).1
        = (freshPress.render lateWorld earlyTemplate []).1 := by
  have hstable := refresh_stable (p := freshPress) isFitted_hourlyCompiler.reachable.isSound
    (isMade_including rfl isSome_earlyTemplate) .none isFitted_hourlyCompiler.reachable (by decide)
    lateWorld
  have hnone : (freshPress.render lateWorld earlyTemplate []).2.2.registry.isEmpty = true := by
    decide +kernel
  have hwait : Press.SourcesWait lateWorld { lateWorld with now := 100 }
      (freshPress.render lateWorld earlyTemplate []).2.2.registry := by
    intro q hq
    rw [List.isEmpty_iff.1 hnone] at hq
    cases hq
  exact ⟨by decide +kernel, hstable.2.2 [] _ List.Pairwise.nil (fun _ hb => by cases hb)
    undisturbed_earlyTemplate (fun _ hp => by cases hp) hwait saysTheSame_earlyTemplate⟩

/-! ## A wait that is over -/

/-- What one would say without a thought of waiting: a refresh leaves a template as the one before it has
left it, if no file has changed in between, whatever copies have been dropped. -/
def StaysAsRefreshed : Prop :=
  ∀ (w w' v v' : World) (k k' : Compiler) (t : Template) (evicted : List String), k.IsFitted →
    k.chain.names.Nodup → w.IsRooted → k.IsMade w t k' w' → v.Unchanged v' →
      (Compiler.refresh v'
        { (k'.refresh v t).2 with chain := evicted.foldl Chain.evict (k'.refresh v t).2.chain }
        (k'.refresh v t).1).1 = (k'.refresh v t).1

/-- **A template does not stay as it was refreshed**: the page has been edited before the first refresh,
which does not look, and the second does, because the page's copy has been dropped. -/
theorem not_staysAsRefreshed : ¬ StaysAsRefreshed := by
  intro hclaim
  have hsame := hclaim earlyWorld earlyWorld lateWorld lateWorld hourlyCompiler earlyCompiler
    earlyTemplate ["a.tera"] isFitted_hourlyCompiler (by decide) isRooted_earlyWorld
    (isMade_including rfl isSome_earlyTemplate) fun _ => rfl
  have hold : pageOf (earlyCompiler.refresh lateWorld earlyTemplate).1 = some "old" := by
    decide +kernel
  have hnew : pageOf (Compiler.refresh lateWorld
      { (earlyCompiler.refresh lateWorld earlyTemplate).2 with
        chain := ["a.tera"].foldl Chain.evict (earlyCompiler.refresh lateWorld earlyTemplate).2.chain }
      (earlyCompiler.refresh lateWorld earlyTemplate).1).1 = some "new" := by
    decide +kernel
  rw [hsame, hold] at hnew
  exact absurd hnew (by decide)

end QueryPress
