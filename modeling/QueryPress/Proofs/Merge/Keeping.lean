import QueryPress.Proofs.Attempt
import QueryPress.Proofs.Merge.Heredity
import QueryPress.Proofs.Properties.Numbered

/-!
# Proofs/Merge/Keeping — what a merge keeps of the property sources

Nothing in a merge touches the sources but the functions that read properties, each of which makes one
source ready to answer (`Lookup.run_eq_ok`).  So whatever such calls keep, at whatever time, a merge keeps
(`Scene.merge_keeps`).
-/

namespace QueryPress

open Properties (Registry Source)

/-- **A function that reads properties succeeds** for a string as a key and the name of a source, which
answers when it is ready, and does nothing else. -/
theorem Lookup.run_eq_ok {f : Lookup} {w : World} {registry registry' : Registry}
    {arguments : Table Json} {v : Json} : f.run w registry arguments = .ok (v, registry') ↔
      ∃ n key s, Table.get? arguments "source" = some (.string n) ∧
        Table.get? arguments "key" = some (.string key) ∧ Table.get? registry n = some s ∧
        v = f.read (s.fresh w).snapshot key arguments ∧
        registry' = Table.insert registry n (s.fresh w) := by
  constructor
  · intro h
    obtain ⟨n, hsource, h⟩ := bind_eq_ok.1 h
    by_cases hhas : (! Table.has registry n) = true
    · rw [if_pos hhas] at h
      cases h
    · rw [if_neg hhas] at h
      obtain ⟨key, hkey, h⟩ := bind_eq_ok.1 h
      split at h
      · cases h
      · rename_i s after heq
        obtain ⟨t, ht, heq⟩ := Option.map_eq_some_iff.1 heq
        obtain ⟨rfl, rfl⟩ := Prod.mk.inj heq
        obtain ⟨rfl, rfl⟩ := Prod.mk.inj (Except.ok.inj h)
        exact ⟨n, key, t, stringArgument_eq_ok.1 hsource, stringArgument_eq_ok.1 hkey, ht, rfl, rfl⟩
  · rintro ⟨n, key, s, hsource, hkey, hs, rfl, rfl⟩
    exact Properties.run_lookup f hs hsource hkey

namespace Merge

variable {α β : Type} {s : Scene} {m : Merge α} {f : α → Merge β} {I : Registry → Prop}

/-- **A step keeps something of the sources** in a scene, whether it fails or not. -/
def Keeps (s : Scene) (I : Registry → Prop) (m : Merge α) : Prop :=
  ∀ d, I d.registry → I (m s d).2.registry

theorem Keeps.bind (hm : Keeps s I m) (hf : ∀ a, Keeps s I (f a)) : Keeps s I (m >>= f) := by
  intro d hd
  have hfirst := hm d hd
  rw [bind_run]
  rcases hms : m s d with ⟨(e | a), d'⟩ <;> rw [hms] at hfirst
  · exact hfirst
  · exact hf a d' hfirst

theorem Keeps.captured {m : Merge Unit} (hm : Keeps s I m) : Keeps s I (captured m) := by
  intro d hd
  have hinner := hm { d with written := [] } hd
  rw [Merge.captured]
  rcases hms : m s { d with written := [] } with ⟨(e | a), d'⟩ <;> rw [hms] at hinner <;> exact hinner

theorem Keeps.orFalse {m : Merge Bool} (hm : Keeps s I m) : Keeps s I (orFalse m) := by
  intro d hd
  have hinner := hm d hd
  rw [Merge.orFalse]
  rcases hms : m s d with ⟨(e | a), d'⟩ <;> rw [hms] at hinner <;> exact hinner

theorem Keeps.operationValue {m : Merge (Option Number)} (hm : Keeps s I m) :
    Keeps s I (operationValue m) := by
  intro d hd
  have hinner := hm d hd
  rw [Merge.operationValue]
  rcases hms : m s d with ⟨(e | a), d'⟩ <;> rw [hms] at hinner <;> exact hinner

/-- **That something is kept of the sources is inherited** if to ask one of them keeps it, whenever it is
asked. -/
theorem isInherited_keeps (hI : ∀ (asked : Nat) (registry : Registry) (n : String) (t : Source),
      I registry → Table.get? registry n = some t →
        I (Table.insert registry n (t.fresh (s.world.later asked)))) :
    IsInherited s (fun _ _ => True) (Keeps s I) where
  pure _ _ h := h
  throw _ _ _ h := h
  bind := .bind
  read _ hf := hf
  get _ hf d := hf d d
  modify g hg d h := by
    have hsame : g d = { g d with registry := d.registry } := hg d d.registry
    change I (g d).registry
    rw [hsame]
    exact h
  captured := .captured
  orFalse := .orFalse
  operationValue := .operationValue
  lookUp f arguments d h := by
    rw [Merge.lookUp]
    split
    · rename_i hrun
      obtain ⟨n, key, t, -, -, ht, -, rfl⟩ := Lookup.run_eq_ok.1 hrun
      exact hI d.asked d.registry n t h ht
    · exact h
  ask _ _ _ h := h
  append _ := ⟨trivial, trivial⟩
  page _ := trivial
  block _ _ := trivial
  macroBody _ := trivial
  missing _ _ _ h := h

end Merge

/-- **A merge does nothing to the sources but ask them.** -/
theorem Scene.merge_keeps {s : Scene} {I : Registry → Prop} {registry : Registry}
    (hI : ∀ (asked : Nat) (registry : Registry) (n : String) (t : Source),
      I registry → Table.get? registry n = some t →
        I (Table.insert registry n (t.fresh (s.world.later asked)))) (h : I registry) :
    I (s.merge registry).2.registry :=
  (Merge.isInherited_keeps hI).body trivial (s.start registry) h

end QueryPress
