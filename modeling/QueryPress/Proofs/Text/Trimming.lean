import Mathlib.Data.List.TakeWhile
import QueryPress.Text.Blank

/-!
# Proofs/Text/Trimming — what is left when the ends are taken off

Taking off the elements at either end for which something holds leaves the one list that has none of them at
its ends and only them around it (`dropEnds_eq_iff`).  So to trim a text leaves what stands between its white
space (`trimmed_eq_iff`), to trim it again changes nothing (`trimmed_trimmed`), and white space that is put
behind a text is trimmed with the rest (`trim_concat`).
-/

namespace QueryPress

section

variable {α : Type} {p : α → Bool} {l m : List α}

/-- **A list without its ends** — `l` is `m` with elements around it for which `p` holds, and `p` holds for
neither the first nor the last element of `m`. -/
structure IsStripped (p : α → Bool) (l m : List α) : Prop where
  around : ∃ front back, l = front ++ m ++ back ∧ ∀ a ∈ front ++ back, p a = true
  first : ∀ a ∈ m.head?, p a = false
  last : ∀ a ∈ m.getLast?, p a = false

theorem dropWhile_eq_self (h : ∀ a ∈ l.head?, p a = false) : l.dropWhile p = l := by
  cases l with
  | nil => rfl
  | cons a l => exact List.dropWhile_cons_of_neg (by simp [h a rfl])

theorem head_dropWhile {a : α} (h : a ∈ (l.dropWhile p).head?) : p a = false := by
  have hnot := l.head?_dropWhile_not p
  rwa [h] at hnot

/-- Taking off the ends leaves a list without them. -/
theorem isStripped_dropEnds (p : α → Bool) (l : List α) :
    IsStripped p l ((l.dropWhile p).reverse.dropWhile p).reverse where
  around := by
    refine ⟨l.takeWhile p, ((l.dropWhile p).reverse.takeWhile p).reverse, ?_, fun a ha => ?_⟩
    · rw [List.append_assoc, ← List.reverse_append, List.takeWhile_append_dropWhile, List.reverse_reverse,
        List.takeWhile_append_dropWhile]
    · rcases List.mem_append.1 ha with ha | ha
      · exact List.mem_takeWhile_imp ha
      · exact List.mem_takeWhile_imp (List.mem_reverse.1 ha)
  first := by
    -- What is taken off behind does not reach the first element.
    intro a ha
    refine head_dropWhile (l := l) ?_
    obtain ⟨rest, hrest⟩ := List.reverse_prefix.2 (List.dropWhile_suffix (l := (l.dropWhile p).reverse) p)
    rw [List.reverse_reverse] at hrest
    rw [← hrest, List.head?_append]
    exact Option.or_eq_some_iff.2 (.inl ha)
  last := fun a ha => head_dropWhile (by rwa [List.getLast?_reverse] at ha)

/-- **Taking off the ends** leaves the only list that is without them. -/
theorem dropEnds_eq_iff : ((l.dropWhile p).reverse.dropWhile p).reverse = m ↔ IsStripped p l m := by
  refine ⟨fun h => h ▸ isStripped_dropEnds p l, ?_⟩
  rintro ⟨⟨front, back, rfl, haround⟩, hfirst, hlast⟩
  obtain ⟨hfront, hback⟩ := List.forall_mem_append.1 haround
  rw [List.append_assoc, List.dropWhile_append_of_pos hfront]
  cases m with
  | nil =>
    rw [List.nil_append, List.dropWhile_eq_nil_iff.2 hback]
    rfl
  | cons b m =>
    have hkept : (b :: m ++ back).dropWhile p = b :: m ++ back := dropWhile_eq_self hfirst
    rw [hkept, List.reverse_append,
      List.dropWhile_append_of_pos fun a ha => hback a (List.mem_reverse.1 ha),
      dropWhile_eq_self fun a ha => hlast a (by rwa [List.head?_reverse] at ha), List.reverse_reverse]

end

namespace Text

variable {c : Char} {l : List Char} {s t : String}

/-- **A text without the white space at its ends.** -/
def IsTrimmed (s t : String) : Prop := IsStripped isSpace s.toList t.toList

/-- **To trim a text again** changes nothing. -/
theorem trim_trim (l : List Char) : trim (trim l) = trim l :=
  have h := isStripped_dropEnds isSpace l
  dropEnds_eq_iff.2 ⟨⟨[], [], by rw [List.nil_append, List.append_nil], nofun⟩, h.first, h.last⟩

/-- **White space behind a text** is trimmed with the rest. -/
theorem trim_concat (l : List Char) (h : isSpace c = true) : trim (l ++ [c]) = trim l := by
  obtain ⟨⟨front, back, hl, haround⟩, hfirst, hlast⟩ := isStripped_dropEnds isSpace l
  refine dropEnds_eq_iff.2 ⟨⟨front, back ++ [c], ?_, fun a ha => ?_⟩, hfirst, hlast⟩
  · rw [← List.append_assoc, trim, trimEnd, trimStart, dropEnd, dropStart, ← hl]
  · rw [← List.append_assoc] at ha
    rcases List.mem_append.1 ha with ha | ha
    · exact haround a ha
    · rwa [List.mem_singleton.1 ha]

@[simp] theorem toList_trimmed (s : String) : (trimmed s).toList = trim s.toList := by
  rw [trimmed, String.toList_ofList]

theorem trimmed_trimmed (s : String) : trimmed (trimmed s) = trimmed s := by
  rw [trimmed, toList_trimmed, trim_trim, trimmed]

/-- **What trimming leaves** is the only text that stands between white space and has none at its ends. -/
theorem trimmed_eq_iff : trimmed s = t ↔ IsTrimmed s t := by
  rw [← String.toList_inj, toList_trimmed]
  exact dropEnds_eq_iff

theorem isTrimmed_trimmed (s : String) : IsTrimmed s (trimmed s) := trimmed_eq_iff.1 rfl

/-- Of a text that is blank nothing is left, and of no other. -/
theorem trimmed_eq_empty_iff : trimmed s = "" ↔ ∀ c ∈ s.toList, isSpace c = true := by
  rw [trimmed_eq_iff]
  constructor
  · rintro ⟨⟨front, back, hs, haround⟩, -⟩
    rw [hs, String.toList_empty, List.append_nil]
    exact haround
  · exact fun hs => ⟨⟨s.toList, [], by simp, by simpa using hs⟩, nofun, nofun⟩

theorem trimmed_ne_empty (h : ∃ c ∈ s.toList, isSpace c = false) : trimmed s ≠ "" := by
  intro hempty
  obtain ⟨c, hc, hnot⟩ := h
  rw [trimmed_eq_empty_iff.1 hempty c hc] at hnot
  cases hnot

end Text

end QueryPress
