import QueryPress.Proofs.Markup.Tag
import QueryPress.Proofs.Markup.Tidy

/-!
# Proofs/Markup/Found — what the reader of references finds, piece by piece

The reader of references goes through a text twice: once to leave out comments and raw stretches, and
once to look for tags.  Both times it takes a text one piece after the other, so what it finds in a text
is what it finds in the first piece and then in the rest: nothing in a character that opens nothing
(`found_cons`), in a comment, in a raw stretch (`found_rawStretch`), in a value and in a quiet tag
(`found_quiet`), and one reference in a tag that asks for a page (`found_asking`).
-/

namespace QueryPress

open Reader

namespace Reference

/-- The references of a text, as a list of characters. -/
def found (s : List Char) : List Reference :=
  (scan reader (visible s)).filter (! ·.candidates.isEmpty)

variable {s r l : List Char} {c : Char} {b : Bool} {ref : Reference}

theorem ofText_eq (text : String) : ofText text = found text.toList := rfl

theorem found_nil : found [] = [] := rfl

/-! ## Where nothing is found -/

theorem rawTag_eq_none {keyword : String} (h : word "\x7b%" s = none) : rawTag keyword s = none :=
  bind_of_none h

theorem reader_eq_none (h : word "\x7b%" s = none) : reader s = none := bind_of_none h

theorem rawStretch_eq_none (h : rawTag "raw" s = none) : rawStretch s = none := bind_of_none h

theorem comment_eq_none (h : word "\x7b#" s = none) : comment s = none := bind_of_none h

theorem word_cons_eq_none {t : String} {d : Char} {t' : List Char} (ht : t.toList = d :: t')
    (h : c ≠ d) : word t (c :: s) = none :=
  word_eq_none fun hp => by
    rw [ht] at hp
    exact h (List.cons_prefix_cons.1 hp).1.symm

/-- Nothing is left out where no comment and no raw stretch begins. -/
theorem visible_cons (hraw : rawTag "raw" (c :: s) = none) (hcomment : word "\x7b#" (c :: s) = none) :
    visible (c :: s) = c :: visible s := by
  refine without_cons ?_
  rw [orElse_eq, rawStretch_eq_none hraw, comment_eq_none hcomment]
  rfl

theorem visible_cons_of_ne (hc : c ≠ '\x7b') : visible (c :: s) = c :: visible s :=
  visible_cons (rawTag_eq_none (word_cons_eq_none rfl hc)) (word_cons_eq_none rfl hc)

theorem visible_append (hl : '\x7b' ∉ l) : visible (l ++ s) = l ++ visible s := by
  induction l with
  | nil => rfl
  | cons c l ih =>
    obtain ⟨hc, hl⟩ : c ≠ '\x7b' ∧ '\x7b' ∉ l := by simpa [eq_comm] using hl
    rw [List.cons_append, visible_cons_of_ne hc, ih hl, List.cons_append]

theorem found_of_scan (hv : visible s = l ++ visible r)
    (h : scan reader (l ++ visible r) = scan reader (visible r)) : found s = found r := by
  rw [found, hv, h, found]

theorem visible_of_anyOpening (h : Page.anyOpening (c :: s) = none) :
    visible (c :: s) = c :: visible s := by
  obtain ⟨-, hrest⟩ := orElse_eq_none.1 h
  obtain ⟨htag, hcomment⟩ := orElse_eq_none.1 hrest
  exact visible_cons (rawTag_eq_none htag) hcomment

/-- **Nothing is found in a character that opens nothing.** -/
theorem found_cons (h : Page.anyOpening (c :: s) = none) : found (c :: s) = found s := by
  refine found_of_scan (l := [c]) (visible_of_anyOpening h) (scan_cons (reader_eq_none ?_))
  have hc := anyOpening_eq_none.1 h
  by_cases hbrace : c = '\x7b'
  · obtain ⟨hvalue, htag, -⟩ := hc hbrace
    cases s with
    | nil => exact hbrace ▸ rfl
    | cons d s =>
      have hd : d ≠ '\x7b' := fun heq => hvalue (by rw [heq]; rfl)
      rw [visible_cons_of_ne hd]
      refine word_eq_none fun hp => htag ?_
      obtain ⟨heq, -⟩ := List.cons_prefix_cons.1 (List.cons_prefix_cons.1 hp).2
      rw [← heq]
      rfl
  · exact word_cons_eq_none rfl hbrace

theorem found_append (hl : '\x7b' ∉ l) : found (l ++ s) = found s := by
  induction l with
  | nil => rfl
  | cons c l ih =>
    obtain ⟨hc, hl⟩ : c ≠ '\x7b' ∧ '\x7b' ∉ l := by simpa [eq_comm] using hl
    rw [List.cons_append, found_cons (anyOpening_eq_none.2 fun heq => absurd heq hc), ih hl]

/-! ## What is left out -/

theorem exists_of_comment (h : comment s = some ((), r)) : ∃ l, s = l ++ r ∧ l ≠ [] := by
  obtain ⟨_, s₁, hopen, h₁⟩ := bind_eq_some.1 h
  obtain ⟨l, s₂, hbefore, h₂⟩ := bind_eq_some.1 h₁
  rw [word_eq_some.1 hopen, ← before_append _ hbefore, word_eq_some.1 h₂, ← List.append_assoc,
    ← List.append_assoc]
  exact ⟨_, rfl, by simp⟩

theorem found_comment (h : comment s = some ((), r)) : found s = found r := by
  obtain ⟨l, rfl, hl⟩ := exists_of_comment h
  have hraw : rawStretch (l ++ r) = none := by
    obtain ⟨_, s₁, hopen, -⟩ := bind_eq_some.1 h
    rw [word_eq_some.1 hopen]
    rfl
  have hnone : (rawStretch <|> comment) (l ++ r) = some ((), r) := by
    rw [orElse_eq, hraw, h]
    rfl
  rw [found, found, visible, visible, without_append_of_some hl hnone]

/-- **A raw stretch ends in the same place for both readers** of a tidy text. -/
theorem rawStretch_of_raw {p : Piece} (h : Page.raw s = some (p, r)) (hs : IsTidy s) :
    ∃ l, s = '\x7b' :: '%' :: (l ++ r) ∧ rawTag "raw" s ≠ none ∧ rawStretch s = some ((), r) := by
  obtain ⟨first, s₁, hfirst, h₁⟩ := bind_eq_some.1 h
  obtain ⟨m, s₂, hbefore, h₂⟩ := bind_eq_some.1 h₁
  obtain ⟨last, s₃, hlast, h₃⟩ := bind_eq_some.1 h₂
  obtain ⟨-, rfl⟩ := pure_eq_some.1 h₃
  obtain ⟨rfl, -, hnone⟩ := before_eq_some.1 hbefore
  have hopen := rawTag_of_bareTag rfl hfirst
  have hclose := rawTag_of_bareTag rfl hlast
  obtain ⟨x, rfl⟩ := exists_of_bareTag hfirst
  have hbefore' : before (rawTag "endraw") (m ++ s₂) = some (m, s₂) := by
    refine before_eq_some.2 ⟨rfl, ⟨_, hclose⟩, fun y z hyz hz => ?_⟩
    -- whatever ends the stretch for one reader ends it for the other
    have hcheck : endsAlike (z ++ s₂) = true := by
      have hevery := hs.stretches
      rw [hyz, List.append_assoc, ← List.append_assoc x y, ← List.cons_append,
        ← List.cons_append] at hevery
      obtain ⟨d, z, rfl⟩ := List.exists_cons_of_ne_nil hz
      exact check_of_everywhere (everywhere_append hevery)
    simpa [endsAlike, hnone y z hyz hz] using hcheck
  obtain ⟨y, rfl⟩ := exists_of_bareTag hlast
  refine ⟨x ++ (m ++ '\x7b' :: '%' :: y), by simp, by simp [hopen], ?_⟩
  rw [rawStretch, bind_of_some hopen, bind_of_some hbefore']
  exact hclose

theorem found_rawStretch (hl : l ≠ []) (h : rawStretch (l ++ r) = some ((), r)) :
    found (l ++ r) = found r := by
  have hsome : (rawStretch <|> comment) (l ++ r) = some ((), r) := orElse_eq_some.2 (.inl h)
  rw [found, found, visible, visible, without_append_of_some hl hsome]

/-! ## Values and tags -/

/-- Of a tag nothing is left out. -/
theorem visible_tag (hl : '\x7b' ∉ l) (hraw : rawTag "raw" ('\x7b' :: '%' :: (l ++ r)) = none) :
    visible ('\x7b' :: '%' :: (l ++ r)) = '\x7b' :: '%' :: (l ++ visible r) := by
  rw [visible_cons hraw rfl, visible_cons_of_ne (by decide), visible_append hl]

/-- **Nothing is found in a value.** -/
theorem found_value (hl : '\x7b' ∉ l) (hne : l ≠ []) (htag : l.head? ≠ some '%')
    (hcomment : l.head? ≠ some '#') : found ('\x7b' :: '\x7b' :: (l ++ r)) = found r := by
  obtain ⟨c, l, rfl⟩ := List.exists_cons_of_ne_nil hne
  have hc : c ≠ '\x7b' := fun heq => hl (by simp [heq])
  have hin : Page.anyOpening ('\x7b' :: (c :: l ++ r)) = none :=
    anyOpening_eq_none.2 fun _ => ⟨fun h => hc (Option.some.inj h), htag, hcomment⟩
  have hfirst : found ('\x7b' :: '\x7b' :: (c :: l ++ r)) = found ('\x7b' :: (c :: l ++ r)) := by
    refine found_of_scan (l := ['\x7b']) (visible_cons rfl rfl) (scan_cons (reader_eq_none ?_))
    rw [visible_of_anyOpening hin]
    rfl
  rw [hfirst, found_cons hin, found_append hl]

/-- **Nothing is found in a tag of another kind.** -/
theorem found_quiet (hl : '\x7b' ∉ l) (hraw : rawTag "raw" ('\x7b' :: '%' :: (l ++ r)) = none)
    (h : ∀ v, reader ('\x7b' :: '%' :: (l ++ v)) = none) :
    found ('\x7b' :: '%' :: (l ++ r)) = found r := by
  have hscan : scan reader ('\x7b' :: '%' :: l ++ visible r) = scan reader (visible r) := by
    rw [List.cons_append, List.cons_append, scan_cons (h _)]
    refine scan_append_of_none (l := '%' :: l) fun c hc s => reader_eq_none ?_
    refine word_cons_eq_none (d := '\x7b') rfl fun heq => hl ?_
    subst heq
    simpa using hc
  exact found_of_scan (l := '\x7b' :: '%' :: l) (visible_tag hl hraw) hscan

/-- **One reference is found in a tag that asks for a page**, if what is behind the tag does not
matter to it. -/
theorem found_asking (hl : '\x7b' ∉ l) (hraw : rawTag "raw" ('\x7b' :: '%' :: (l ++ r)) = none)
    (h : ∀ v, reader ('\x7b' :: '%' :: (l ++ v)) = some (ref, v)) (hne : ref.candidates ≠ []) :
    found ('\x7b' :: '%' :: (l ++ r)) = ref :: found r := by
  have hscan : scan reader ('\x7b' :: '%' :: l ++ visible r) = ref :: scan reader (visible r) :=
    scan_append_of_some (by simp) (h _)
  rw [found, visible_tag hl hraw, ← List.cons_append, ← List.cons_append, hscan,
    List.filter_cons_of_pos (by simpa using hne), found]

end Reference

end QueryPress
