import QueryPress.Proofs.Markup.Inside
import QueryPress.Reference

/-!
# Proofs/Markup/Tidy — texts in which no delimiter is hidden

A text is *tidy* if its tags end where they seem to: nothing in quotes has an opening brace, no tag has
a back quote, and whatever ends a raw stretch for one reader, or makes an inclusion optional, does so
for the other.  This is told from the text alone, from one delimiter to the next (`pieceEnd?`), and what
is left of a tidy text behind a tag is tidy (`IsTidy.behind`).
-/

namespace QueryPress

open Reader

/-! ## From one delimiter to the next -/

/-- **Where the first piece of a text ends** — a comment, a raw stretch, a value, another tag, or one
character of anything else; nothing if it does not end, or hides a delimiter. -/
def pieceEnd? : List Char → Option (List Char)
  | [] => none
  | '\x7b' :: '#' :: r => (Reference.comment ('\x7b' :: '#' :: r)).map Prod.snd
  | '\x7b' :: '\x7b' :: r =>
    if r.head? = some '%' || r.head? = some '#' then none else tagEnd? none r
  | '\x7b' :: '%' :: r =>
    if (Reference.rawTag "raw" ('\x7b' :: '%' :: r)).isSome then
      (Reference.rawStretch ('\x7b' :: '%' :: r)).map Prod.snd
    else tagEnd? none r
  | _ :: r => some r

/-- Every piece of a text ends; its first characters, that many, are passed over. -/
def endsFrom : (skip : Nat) → List Char → Bool
  | _, [] => true
  | k + 1, _ :: r => endsFrom k r
  | 0, c :: r =>
    match pieceEnd? (c :: r) with
    | some rest => endsFrom (r.length - rest.length) r
    | none => false

/-- Something holds of what is left of a text at each of its characters. -/
def everywhere (check : List Char → Bool) : List Char → Bool
  | [] => true
  | c :: r => check (c :: r) && everywhere check r

/-- The words by which an inclusion is optional, with the white space between them. -/
def looseWords : Reader (List Char) := do
  word "ignore"
  let g ← run isGap
  word "missing"
  return g

/-- If a text begins with these words, there is one blank between them. -/
def isSpacedOnce (s : List Char) : Bool :=
  match looseWords s with
  | some (g, _) => g == [' ']
  | none => true

/-- If a text begins with the end of a raw stretch, it does so for a reader of pages. -/
def endsAlike (s : List Char) : Bool :=
  ! (Reference.rawTag "endraw" s).isSome || (Page.bareTag "endraw" s).isSome

/-- **A text is tidy.** -/
structure IsTidy (s : List Char) : Prop where
  ends : endsFrom 0 s = true
  words : everywhere isSpacedOnce s = true
  stretches : everywhere endsAlike s = true

instance (s : List Char) : Decidable (IsTidy s) :=
  decidable_of_iff (endsFrom 0 s = true ∧ everywhere isSpacedOnce s = true ∧
    everywhere endsAlike s = true) ⟨fun ⟨h₁, h₂, h₃⟩ => ⟨h₁, h₂, h₃⟩, fun ⟨h₁, h₂, h₃⟩ => ⟨h₁, h₂, h₃⟩⟩

variable {s r l : List Char} {c : Char} {check : List Char → Bool}

/-! ## What is left of a tidy text -/

theorem endsFrom_eq_drop : ∀ (k : Nat) (s : List Char), endsFrom k s = endsFrom 0 (s.drop k)
  | 0, s => rfl
  | k + 1, [] => rfl
  | k + 1, _ :: s => by rw [endsFrom, endsFrom_eq_drop k s, List.drop_succ_cons]

theorem everywhere_append : ∀ {l : List Char}, everywhere check (l ++ r) = true →
    everywhere check r = true
  | [], h => h
  | c :: l, h => by
    rw [List.cons_append, everywhere, Bool.and_eq_true] at h
    exact everywhere_append h.2

theorem check_of_everywhere (h : everywhere check (c :: r) = true) : check (c :: r) = true := by
  rw [everywhere, Bool.and_eq_true] at h
  exact h.1

/-- **What is left of a tidy text behind its first piece is tidy.** -/
theorem IsTidy.behind (hl : l ≠ []) (hend : pieceEnd? (l ++ r) = some r) (h : IsTidy (l ++ r)) :
    IsTidy r := by
  refine ⟨?_, everywhere_append h.words, everywhere_append h.stretches⟩
  have hends := h.ends
  obtain ⟨c, l, rfl⟩ := List.exists_cons_of_ne_nil hl
  rw [List.cons_append] at hends hend
  rw [endsFrom, hend] at hends
  dsimp only at hends
  rwa [endsFrom_eq_drop, drop_append_sub] at hends

/-- A piece of a tidy text ends. -/
theorem IsTidy.exists_end (h : IsTidy (c :: r)) : ∃ rest, pieceEnd? (c :: r) = some rest := by
  have hends := h.ends
  rw [endsFrom] at hends
  split at hends
  · exact ⟨_, ‹_›⟩
  · cases hends

/-! ## Pieces that open nothing -/

/-- Only an opening brace opens something, and only in front of one of three characters. -/
theorem anyOpening_eq_none : Page.anyOpening (c :: r) = none ↔ (c = '\x7b' →
    r.head? ≠ some '\x7b' ∧ r.head? ≠ some '%' ∧ r.head? ≠ some '#') := by
  rw [Page.anyOpening, orElse_eq, orElse_eq]
  cases r with
  | nil => simp [word, List.isPrefixOf]
  | cons d r =>
    simp only [word, List.isPrefixOf, String.reduceToList, List.head?_cons, ne_eq, Option.some.injEq]
    simp [@eq_comm _ _ c, @eq_comm _ _ d, ← forall_and]

theorem pieceEnd?_of_anyOpening (h : Page.anyOpening (c :: r) = none) :
    pieceEnd? (c :: r) = some r := by
  have hc := anyOpening_eq_none.1 h
  unfold pieceEnd?
  split <;> simp_all

/-- **A tidy text is tidy behind a character that opens nothing.** -/
theorem IsTidy.of_cons (h : IsTidy (c :: r)) (hc : Page.anyOpening (c :: r) = none) : IsTidy r :=
  IsTidy.behind (l := [c]) (by simp) (pieceEnd?_of_anyOpening hc) h

end QueryPress
