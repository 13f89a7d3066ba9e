import QueryPress.Proofs.Attempt
import QueryPress.Proofs.Merge.Heredity

/-!
# Proofs/Merge/Missing — a merge misses no page of a book that is settled

`NeverMisses s m` says of a step that in the scene `s` it does not fail for want of the pages of an
inclusion.  Whatever is made of such steps is such a step, so only an inclusion can fail like that;
and every inclusion that is written stands in the body, a block or a macro of a page of the book
(`Scene.merge_ne_missingPages`).
-/

namespace QueryPress

namespace Merge

variable {α β : Type} {s : Scene} {m : Merge α} {f : α → Merge β}

/-- **A step never misses a page** — in the scene it does not fail because none of the pages of an
inclusion is there. -/
def NeverMisses (s : Scene) (m : Merge α) : Prop :=
  ∀ d pages, (m s d).1 ≠ .error (.missingPages pages)

theorem NeverMisses.bind (hm : NeverMisses s m) (hf : ∀ a, NeverMisses s (f a)) :
    NeverMisses s (m >>= f) := by
  intro d pages h
  have hm := hm d pages
  rw [bind_run] at h
  rcases hms : m s d with ⟨(e | a), d'⟩ <;> rw [hms] at h hm
  · exact hm (congrArg Except.error (Except.error.inj h))
  · exact hf a d' pages h

theorem NeverMisses.captured {m : Merge Unit} (hm : NeverMisses s m) :
    NeverMisses s (captured m) := by
  intro d pages h
  have hm := hm { d with written := [] } pages
  rw [Merge.captured] at h
  rcases hms : m s { d with written := [] } with ⟨(e | a), d'⟩ <;> rw [hms] at h hm
  · exact hm (congrArg Except.error (Except.error.inj h))
  · cases h

theorem NeverMisses.orFalse (m : Merge Bool) : NeverMisses s (orFalse m) := by
  intro d pages h
  rw [Merge.orFalse] at h
  rcases hms : m s d with ⟨(e | a), d'⟩ <;> rw [hms] at h <;> cases h

theorem NeverMisses.operationValue (m : Merge (Option Number)) :
    NeverMisses s (operationValue m) := by
  intro d pages h
  rw [Merge.operationValue] at h
  rcases hms : m s d with ⟨(e | a), d'⟩ <;> rw [hms] at h <;> cases h

/-- **An answer misses no page** — it does not fail because none of the pages of an inclusion is there. -/
def MissesNoPage (x : Except MergeError α) : Prop := ∀ pages, x ≠ .error (.missingPages pages)

namespace MissesNoPage

theorem ok (a : α) : MissesNoPage (.ok a) := fun _ h => nomatch h

theorem error {e : MergeError} (he : ∀ pages, e ≠ .missingPages pages) :
    MissesNoPage (.error e : Except MergeError α) := fun pages h => he pages (Except.error.inj h)

theorem bind {x : Except MergeError α} {f : α → Except MergeError β} (hx : MissesNoPage x)
    (hf : ∀ a, MissesNoPage (f a)) : MissesNoPage (x >>= f) := by
  intro pages h
  obtain h | ⟨a, -, h⟩ := bind_eq_error.1 h
  · exact hx pages h
  · exact hf a pages h

theorem ite {c : Prop} [Decidable c] {x y : Except MergeError α} (hx : MissesNoPage x)
    (hy : MissesNoPage y) : MissesNoPage (if c then x else y) := by
  split
  · exact hx
  · exact hy

end MissesNoPage

/-- **A function that reads properties misses no page.** -/
theorem missesNoPage_lookup (lookup : Lookup) (w : World) (registry : Properties.Registry)
    (arguments : Table Json) : MissesNoPage (lookup.run w registry arguments) := by
  have hstring (argument : String) : MissesNoPage (lookup.stringArgument arguments argument) := by
    rw [Lookup.stringArgument]
    split
    · exact .ok _
    · exact .error (by simp)
  refine (hstring "source").bind fun source => .ite (.error (by simp)) ?_
  refine (hstring "key").bind fun key => ?_
  split
  · exact .error (by simp)
  · exact .ok _

/-- **A function that every template has misses no page**, whatever it finds outside. -/
theorem missesNoPage_standard (f : Standard) (w : World) (asked : Nat) (arguments : Table Json) :
    MissesNoPage (f.run w asked arguments) := by
  have hwhole (f : Standard) (argument : String) (fits : Int → Bool) (standIn : Option Int) :
      MissesNoPage (f.wholeArgument arguments argument fits standIn) := by
    rw [Standard.wholeArgument]
    split
    · exact .ok _
    · exact .error (by simp)
  have hflag (f : Standard) (argument : String) : MissesNoPage (f.flagArgument arguments argument) := by
    rw [Standard.flagArgument]
    split
    · exact .ok _
    · exact .ok _
    · exact .error (by simp)
  have htext (f : Standard) (argument : String) : MissesNoPage (f.textArgument arguments argument) := by
    rw [Standard.textArgument]
    split
    · exact .ok _
    · exact .error (by simp)
  cases f with
  | range =>
    exact (hwhole _ _ _ _).bind fun start => (hwhole _ _ _ _).bind fun step =>
      (hwhole _ _ _ _).bind fun stop => .ite (.error (by simp)) (.ok _)
  | fail => exact (htext _ _).bind fun message => .error (by simp)
  | clock =>
    exact (hflag _ _).bind fun isUniversal => (hflag _ _).bind fun isNumber => .ite (.ok _) (.ok _)
  | chance =>
    exact (hwhole _ _ _ _).bind fun start => (hwhole _ _ _ _).bind fun stop =>
      .ite (.error (by simp)) (.ok _)
  | environment =>
    refine (htext _ _).bind fun name => ?_
    split
    · exact .ok _
    · exact .ok _
    · exact .error (by simp)

theorem NeverMisses.lookUp (lookup : Lookup) (arguments : Table Json) :
    NeverMisses s (lookUp lookup arguments) := by
  intro d pages h
  rw [Merge.lookUp] at h
  split at h
  · cases h
  · rename_i hrun
    obtain rfl := Except.error.inj h
    exact missesNoPage_lookup _ _ _ _ _ hrun

/-- **That pages are not missed is inherited** where the book is settled, whatever is called. -/
theorem isInherited_neverMisses (hb : s.book.IsSettled) :
    IsInherited s (fun refs _ => s.book.Settles refs) (NeverMisses s) where
  pure _ _ _ h := by cases h
  throw e he d pages h := he pages (Except.error.inj h)
  bind := .bind
  read _ hf := hf
  get _ hf d := hf d d
  modify _ _ _ _ h := by cases h
  captured := .captured
  orFalse _ := .orFalse _
  operationValue _ := .operationValue _
  lookUp := .lookUp
  ask arguments _ d := missesNoPage_standard _ _ _ _
  append h := ⟨h.mono (List.subset_append_left _ _), h.mono (List.subset_append_right _ _)⟩
  page := hb.body
  block := hb.block
  macroBody := hb.macroBody
  missing h hnone := by
    obtain ⟨n, hn, hhas⟩ := h _ List.mem_cons_self rfl
    simp [Table.has, hnone n hn] at hhas

end Merge

/-- **A merge misses no page of a settled book**, whatever the variables and the property sources. -/
theorem Scene.merge_ne_missingPages {s : Scene} (hb : s.book.IsSettled)
    (registry : Properties.Registry) (pages : List String) :
    (s.merge registry).1 ≠ .error (.missingPages pages) :=
  (Merge.isInherited_neverMisses hb).body (by simp [Book.Settles]) _ pages

end QueryPress
