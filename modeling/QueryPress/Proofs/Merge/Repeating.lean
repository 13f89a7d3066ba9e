import QueryPress.Proofs.Merge.Heredity
import QueryPress.Proofs.Properties.Numbered
import QueryPress.Proofs.Properties.Steady

/-!
# Proofs/Merge/Repeating — a merge comes to the same when it is done again

A merge sees nothing of the world but the contents of its property sources and what functions find outside:
on the clock, by chance and in the environment.  So merges of one scene come to the same whatever the world
is, as long as their sources show the same, which steady ones do, and the functions that the book calls say
the same (`isInherited_repeats`, `Scene.merge_repeats`); when the files were written does not matter.
-/

namespace QueryPress

/-- **A function says the same in two worlds**, however much has been asked before.  Those that only work on
their arguments always do. -/
def Standard.SaysTheSame (w w' : World) (f : Standard) : Prop :=
  ∀ asked arguments, f.run w asked arguments = f.run w' asked arguments

/-- **In the same surroundings every function says the same**, whatever files there are. -/
theorem Standard.saysTheSame_of_outside {w w' : World} (hnow : w'.now = w.now) (hhome : w'.home = w.home)
    (houtside : w'.outside = w.outside) (f : Standard) : f.SaysTheSame w w' := by
  intro asked arguments
  have henvironment : w'.environment? = w.environment? := by
    funext name
    rw [World.environment?, World.environment?, hhome, houtside]
  cases f <;> simp only [run, hnow, houtside, henvironment]

namespace Merge

open Properties (Registry)

variable {α β : Type} {shown : Table (Table String)} {w w' : World} {s : Scene} {m : Merge α}
  {f : α → Merge β}

/-! ## Steps that repeat themselves -/

/-- **A step repeats itself** — in two worlds, with sources that show the same, it comes to the same, and
leaves sources that show the same. -/
def Repeats (shown : Table (Table String)) (w w' : World) (s : Scene) (m : Merge α) : Prop :=
  ∀ (d : Draft) (registry registry' : Registry), registry.Shows w shown → registry'.Shows w' shown →
    ∃ (a : Except MergeError α) (e : Draft) (after after' : Registry),
      m { s with world := w } { d with registry }
        = (a, { e with registry := after }) ∧
      m { s with world := w' } { d with registry := registry' } = (a, { e with registry := after' }) ∧
      after.Shows w shown ∧ after'.Shows w' shown

theorem Repeats.bind (hm : Repeats shown w w' s m) (hf : ∀ a, Repeats shown w w' s (f a)) :
    Repeats shown w w' s (m >>= f) := by
  intro d registry registry' hr hr'
  obtain ⟨a, e, after, after', h, h', hafter, hafter'⟩ := hm d registry registry' hr hr'
  rw [bind_run, bind_run, h, h']
  cases a with
  | error x => exact ⟨.error x, e, after, after', rfl, rfl, hafter, hafter'⟩
  | ok a => exact hf a e after after' hafter hafter'

theorem Repeats.captured {m : Merge Unit} (hm : Repeats shown w w' s m) :
    Repeats shown w w' s (captured m) := by
  intro d registry registry' hr hr'
  obtain ⟨a, e, after, after', h, h', hafter, hafter'⟩ :=
    hm { d with written := [] } registry registry' hr hr'
  unfold Merge.captured
  rw [h, h']
  cases a with
  | error x => exact ⟨_, { e with written := d.written }, _, _, rfl, rfl, hafter, hafter'⟩
  | ok u => exact ⟨_, { e with written := d.written }, _, _, rfl, rfl, hafter, hafter'⟩

theorem Repeats.orFalse {m : Merge Bool} (hm : Repeats shown w w' s m) :
    Repeats shown w w' s (orFalse m) := by
  intro d registry registry' hr hr'
  obtain ⟨a, e, after, after', h, h', hafter, hafter'⟩ := hm d registry registry' hr hr'
  unfold Merge.orFalse
  rw [h, h']
  cases a with
  | error x => exact ⟨_, e, _, _, rfl, rfl, hafter, hafter'⟩
  | ok b => exact ⟨_, e, _, _, rfl, rfl, hafter, hafter'⟩

theorem Repeats.operationValue {m : Merge (Option Number)} (hm : Repeats shown w w' s m) :
    Repeats shown w w' s (operationValue m) := by
  intro d registry registry' hr hr'
  obtain ⟨a, e, after, after', h, h', hafter, hafter'⟩ := hm d registry registry' hr hr'
  unfold Merge.operationValue
  rw [h, h']
  cases a with
  | error x => exact ⟨_, e, _, _, rfl, rfl, hafter, hafter'⟩
  | ok b => exact ⟨_, e, _, _, rfl, rfl, hafter, hafter'⟩

/-- **A lookup reads what the sources show**, at whatever time. -/
theorem run_of_shows (hshown : Table.InOrder shown) (lookup : Lookup) (arguments : Table Json) :
    (∃ x, ∀ w registry asked, Registry.Shows w shown registry →
      lookup.run (w.later asked) registry arguments = .error x) ∨
    ∃ v, ∀ w registry asked, Registry.Shows w shown registry → ∃ after,
      lookup.run (w.later asked) registry arguments = .ok (v, after) ∧ after.Shows w shown := by
  have hhas : ∀ {w registry} (n : String), Registry.Shows w shown registry →
      Table.has registry n = Table.has shown n := by
    intro w registry n h
    rw [Table.has, Table.has, ← h.contents, Registry.get?_contents, Option.isSome_map]
  cases hsource : lookup.stringArgument arguments "source" with
  | error x =>
    exact .inl ⟨x, fun w registry _ _ => by simp [Lookup.run, hsource, Bind.bind, Except.bind]⟩
  | ok source =>
    by_cases hin : Table.has shown source = true
    · cases hkey : lookup.stringArgument arguments "key" with
      | error x =>
        refine .inl ⟨x, fun w registry _ h => ?_⟩
        simp [Lookup.run, hsource, hkey, hhas source h, hin, Bind.bind, Except.bind]
      | ok key =>
        obtain ⟨values, hvalues⟩ := Option.isSome_iff_exists.1 hin
        refine .inr ⟨lookup.read ⟨values, 0⟩ key arguments, fun w registry asked h => ?_⟩
        have hthere : Table.has registry source = true := (hhas source h).trans hin
        obtain ⟨t, ht⟩ := Option.isSome_iff_exists.1 hthere
        obtain ⟨hshows, hafter⟩ := h.insert_fresh hshown ht asked
        obtain rfl := Option.some.inj (hvalues.symm.trans hshows)
        refine ⟨_, ?_, hafter⟩
        rw [← Properties.read_values]
        exact Properties.run_lookup lookup ht (Lookup.stringArgument_eq_ok.1 hsource)
          (Lookup.stringArgument_eq_ok.1 hkey)
    · refine .inl ⟨.unknownSource lookup.name source, fun w registry _ h => ?_⟩
      simp [Lookup.run, hsource, hhas source h, hin, Bind.bind, Except.bind, throw, throwThe,
        MonadExceptOf.throw]

theorem Repeats.lookUp (hshown : Table.InOrder shown) (lookup : Lookup) (arguments : Table Json) :
    Repeats shown w w' s (lookUp lookup arguments) := by
  intro d registry registry' hr hr'
  unfold Merge.lookUp
  rcases run_of_shows hshown lookup arguments with ⟨x, hx⟩ | ⟨v, hv⟩
  · dsimp only
    rw [hx w registry d.asked hr, hx w' registry' d.asked hr']
    exact ⟨_, d, _, _, rfl, rfl, hr, hr'⟩
  · obtain ⟨after, hrun, hafter⟩ := hv w registry d.asked hr
    obtain ⟨after', hrun', hafter'⟩ := hv w' registry' d.asked hr'
    dsimp only
    rw [hrun, hrun']
    exact ⟨_, { d with asked := d.asked + 1 }, _, _, rfl, rfl, hafter, hafter'⟩

theorem Repeats.ask {f : Standard} (hsame : f.SaysTheSame w w') (arguments : Table Json) :
    Repeats shown w w' s (ask f arguments) := by
  intro d registry registry' hr hr'
  unfold Merge.ask
  dsimp only
  rw [← hsame d.asked arguments]
  exact ⟨_, { d with asked := d.asked + 1 }, _, _, rfl, rfl, hr, hr'⟩

/-- **That steps repeat themselves is inherited** if the functions that the book calls say the same. -/
theorem isInherited_repeats (hshown : Table.InOrder shown) {w w' : World} {s : Scene}
    (hsame : ∀ f : Standard, f.name ∈ s.book.calls → f.SaysTheSame w w') :
    IsInherited s (fun _ calls => calls ⊆ s.book.calls) (Repeats shown w w' s) where
  pure a d _ _ hr hr' := ⟨.ok a, d, _, _, rfl, rfl, hr, hr'⟩
  throw x _ d _ _ hr hr' := ⟨.error x, d, _, _, rfl, rfl, hr, hr'⟩
  bind := .bind
  read {_ f} hworld hf d registry registry' hr hr' := by
    obtain ⟨a, e, after, after', h, h', hafter⟩ := hf d registry registry' hr hr'
    rw [← hworld w] at h
    rw [← hworld w'] at h'
    exact ⟨a, e, after, after', h, h', hafter⟩
  get {_ f} hregistry hf d registry registry' hr hr' := by
    obtain ⟨a, e, after, after', h, h', hafter⟩ := hf d d registry registry' hr hr'
    rw [← hregistry d registry] at h
    rw [← hregistry d registry'] at h'
    exact ⟨a, e, after, after', h, h', hafter⟩
  modify g hg d registry registry' hr hr' :=
    ⟨.ok (), g d, registry, registry', congrArg (Prod.mk _) (hg d registry),
      congrArg (Prod.mk _) (hg d registry'), hr, hr'⟩
  captured := .captured
  orFalse := .orFalse
  operationValue := .operationValue
  lookUp := .lookUp hshown
  ask arguments hf := .ask (hsame _ (hf List.mem_cons_self)) arguments
  append h := List.append_subset.1 h
  page := Book.calls_body
  block := Book.calls_block
  macroBody := Book.calls_macroBody
  missing _ _ d _ _ hr hr' := ⟨.error _, d, _, _, rfl, rfl, hr, hr'⟩

end Merge

/-- **A merge comes to the same in two worlds** if the sources show the same and the functions that the
book calls say the same, and leaves sources that do. -/
theorem Scene.merge_repeats {shown : Table (Table String)} (hshown : Table.InOrder shown)
    {w w' : World} (s : Scene) {registry registry' : Properties.Registry}
    (hsame : ∀ f : Standard, f.name ∈ s.book.calls → f.SaysTheSame w w')
    (hr : registry.Shows w shown) (hr' : registry'.Shows w' shown) :
    ∃ (a : Except MergeError Unit) (e : Draft) (after after' : Properties.Registry),
      Scene.merge { s with world := w } registry
        = (a, { e with registry := after }) ∧
      Scene.merge { s with world := w' } registry' = (a, { e with registry := after' }) ∧
      after.Shows w shown ∧ after'.Shows w' shown :=
  (Merge.isInherited_repeats hshown hsame).body (List.nil_subset _) (s.start []) registry registry' hr hr'

end QueryPress
