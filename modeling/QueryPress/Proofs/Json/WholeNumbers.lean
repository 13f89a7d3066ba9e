import QueryPress.Json.Reader
import QueryPress.Proofs.Text.Decimal
import QueryPress.Proofs.Text.Reading

/-!
# Proofs/Json/WholeNumbers — a whole number that was written is read back

A reader of a number takes digits as long as there are any, so what stands behind a number must not go on
with it: in a JSON text that is a comma, a closing bracket, or the end (`Ends`).  The digits are read into a
word that has room for all of them (`filled_eq`), and of the ways to write a number in digits the reader
takes the one in which numbers are written, without a zero in front (`wholeDigits_toDigits`).
-/

namespace QueryPress.Json

open Reader

variable {r s ds : List Char} {m w : Nat} {n : Int}

/-- **What may stand behind a value** — nothing, or what separates it from the next one or closes the array
or the object that it is in. -/
def Ends (r : List Char) : Prop := ∀ c, r.head? = some c → c ∈ [',', ']', '\x7d']

theorem ends_nil : Ends [] := nofun

theorem ends_cons {c : Char} (h : c ∈ [',', ']', '\x7d']) (r : List Char) : Ends (c :: r) :=
  fun _ hd => Option.some.inj hd ▸ h

/-- What ends a value is in no class of characters that has none of the three. -/
theorem Ends.head {x : Char → Bool} (h : Ends r) (hx : [',', ']', '\x7d'].any x = false) :
    ∀ c, r.head? = some c → x c = false :=
  fun c hc => Bool.eq_false_iff.2 (List.any_eq_false.1 hx c (h c hc))

/-! ## Words and digits -/

theorem le_ofDigitChars : ∀ (ds : List Char) (w : Nat), w ≤ Nat.ofDigitChars 10 ds w
  | [], _ => Nat.le_refl _
  | d :: ds, w => by
    rw [Nat.ofDigitChars_cons]
    exact Nat.le_trans (by omega) (le_ofDigitChars ds _)

theorem filled_cons (w : Nat) (d : Char) (ds : List Char) : filled w (d :: ds) =
    if w * 10 + digitValue d < 0x10000000000000000 then filled (w * 10 + digitValue d) ds
    else (w, ds.length + 1) := rfl

/-- **Digits that fit a word are all read into it.** -/
theorem filled_eq (h : Nat.ofDigitChars 10 ds w < 0x10000000000000000) :
    filled w ds = (Nat.ofDigitChars 10 ds w, 0) := by
  induction ds generalizing w with
  | nil => rfl
  | cons d ds ih =>
    rw [Nat.ofDigitChars_cons, Nat.mul_comm 10 w] at h ⊢
    have hle := le_ofDigitChars ds (w * 10 + digitValue d)
    rw [filled_cons, if_pos (Nat.lt_of_le_of_lt hle h)]
    exact ih h

/-- **The digits of a number are read** up to what ends it. -/
theorem wholeDigits_toDigits (m : Nat) (hr : Ends r) :
    wholeDigits (Nat.toDigits 10 m ++ r) = some (Nat.toDigits 10 m, r) := by
  have hrun : run1 Char.isDigit (Nat.toDigits 10 m ++ r) = some (Nat.toDigits 10 m, r) :=
    run1_append Nat.toDigits_ne_nil
      (fun _ hc => Nat.isDigit_of_mem_toDigits (by decide) (by decide) hc) (hr.head rfl)
  rw [wholeDigits, bind_of_some hrun, if_neg]
  · rfl
  · intro hzero
    obtain ⟨hlong, hhead⟩ := Bool.and_eq_true_iff.1 hzero
    obtain rfl := Text.eq_zero_of_head_toDigits (of_decide_eq_true hhead)
    exact absurd hlong (by decide)

/-! ## Numbers -/

theorem maybe_of_none {α : Type} {p : Reader α} (h : p s = none) : maybe p s = some (none, s) :=
  maybe_eq_some.2 (.inr ⟨rfl, h, rfl⟩)

theorem charWhere_eq_none {x : Char → Bool} (h : ∀ c, s.head? = some c → x c = false) :
    charWhere x s = none := by
  cases s with
  | nil => rfl
  | cons c s =>
    rw [charWhere, h c rfl]
    rfl

/-- **Digits behind a sign, or behind none, are read** as the number that they were written for. -/
theorem numberLiteral_of_given {negative : Bool} (hm : m < 0x10000000000000000)
    (hs : given (word "-") s = some (negative, Nat.toDigits 10 m ++ r))
    (hzero : (negative && m = 0) = false) (hr : Ends r) :
    numberLiteral s = (Number.ofInt? (if negative then -(m : Int) else m)).map (·, r) := by
  have hfraction : maybe (do word "."; run1 Char.isDigit) r = some (none, r) := by
    refine maybe_of_none (bind_of_none (word_eq_none ?_))
    rintro ⟨rest, rfl⟩
    exact absurd (hr '.' rfl) (by decide)
  have hpower {α : Type} (f : Char → Reader α) :
      maybe (charWhere (fun c => c == 'e' || c == 'E') >>= f) r = some (none, r) :=
    maybe_of_none (bind_of_none (charWhere_eq_none (hr.head rfl)))
  have hfilled : filled 0 (Nat.toDigits 10 m) = (m, 0) := by
    have hdigits := Nat.ofDigitChars_toDigits (b := 10) (n := m) (by decide) (by decide)
    rw [filled_eq (by rwa [hdigits]), hdigits]
  rw [numberLiteral, bind_of_some hs, bind_of_some (wholeDigits_toDigits m hr), bind_of_some hfraction,
    bind_of_some (hpower _), hfilled]
  simp only [Option.isNone_none, Bool.true_and, decide_true, hzero, Bool.not_false, if_true]
  cases Number.ofInt? (if negative then -(m : Int) else m) <;> rfl

theorem toList_literal (n : Int) : (Number.whole n).literal.toList =
    if n < 0 then '-' :: Nat.toDigits 10 n.natAbs else Nat.toDigits 10 n.natAbs := by
  rw [Number.literal]
  cases n with
  | ofNat m =>
    rw [if_neg (by simp)]
    exact Nat.toList_repr
  | negSucc m =>
    have htext : toString (Int.negSucc m) = "-" ++ Nat.repr (m + 1) := rfl
    rw [if_pos (Int.negSucc_lt_zero m), htext, String.toList_append, Nat.toList_repr]
    rfl

/-- **A whole number that fits a word is read back.** -/
theorem numberLiteral_whole (hn : (Number.isSigned n || Number.isUnsigned n) = true) (hr : Ends r) :
    numberLiteral ((Number.whole n).literal.toList ++ r) = some (.whole n, r) := by
  have hsize : n.natAbs < 0x10000000000000000 := by
    simp only [Number.isSigned, Number.isUnsigned, Bool.or_eq_true, Bool.and_eq_true,
      decide_eq_true_eq] at hn
    omega
  rw [toList_literal]
  by_cases hneg : n < 0
  · have hs : given (word "-") ('-' :: (Nat.toDigits 10 n.natAbs ++ r))
        = some (true, Nat.toDigits 10 n.natAbs ++ r) :=
      given_eq_some.2 (.inl ⟨rfl, (), word_append "-" _⟩)
    have hback : -(n.natAbs : Int) = n := by omega
    rw [if_pos hneg, List.cons_append, numberLiteral_of_given hsize hs (by simp; omega) hr, if_pos rfl,
      hback, Number.ofInt?, if_pos hn]
    rfl
  · have hs : given (word "-") (Nat.toDigits 10 n.natAbs ++ r)
        = some (false, Nat.toDigits 10 n.natAbs ++ r) := by
      refine given_eq_some.2 (.inr ⟨rfl, word_eq_none ?_, rfl⟩)
      rintro ⟨rest, hrest⟩
      obtain ⟨d, ds, hds, hd⟩ := Text.exists_toDigits_eq_cons n.natAbs
      rw [hds] at hrest
      obtain rfl : '-' = d := (List.cons.inj hrest).1
      cases hd
    have hback : (n.natAbs : Int) = n := by omega
    rw [if_neg hneg, numberLiteral_of_given hsize hs rfl hr, if_neg Bool.false_ne_true, hback,
      Number.ofInt?, if_pos hn]
    rfl

end QueryPress.Json
