import QueryPress.Text.Utf16

/-!
# Proofs/Text/Units — characters come back from their units

A character is no surrogate, so its units are either one unit that is none, or a pair.  Whatever stands
in front of a character's units or behind them, the character is read back whole.
-/

namespace QueryPress.Text

variable {c : Char} {u : Nat} {r : List Nat}

/-- A character is outside the stretch that is kept for surrogates. -/
theorem toNat_cases (c : Char) : c.toNat < 0xD800 ∨ 0xE000 ≤ c.toNat ∧ c.toNat < 0x110000 := by
  rcases c.valid with h | ⟨hlow, hhigh⟩
  · exact .inl h
  · exact .inr ⟨hlow, hhigh⟩

/-- What one unit stands for without a partner. -/
def single (u : Nat) : Char := if isHigh u || isLow u then replacement else Char.ofNat u

theorem ofUnits_singleton (u : Nat) : ofUnits [u] = [single u] := by
  cases hu : isHigh u <;> cases hlow : isLow u <;> simp [ofUnits, single, hu, hlow]

theorem ofUnits_cons_of_not_high (h : isHigh u = false) :
    ofUnits (u :: r) = single u :: ofUnits r := by
  cases r <;> cases hlow : isLow u <;> simp [ofUnits, single, h, hlow]

theorem ofUnits_cons_of_not_low {v : Nat} (h : isLow v = false) :
    ofUnits (u :: v :: r) = single u :: ofUnits (v :: r) := by
  cases hu : isHigh u <;> cases hlow : isLow u <;> simp [ofUnits, single, h, hu, hlow]

theorem ofUnits_pair {v : Nat} (hu : isHigh u = true) (hv : isLow v = true) :
    ofUnits (u :: v :: r) =
      Char.ofNat (0x10000 + (u - 0xD800) * 0x400 + (v - 0xDC00)) :: ofUnits r := by
  simp [ofUnits, hu, hv]

/-- **The units of a character mean the character**, whatever comes behind them. -/
theorem ofUnits_unitsOf_append (c : Char) (r : List Nat) :
    ofUnits (unitsOf c ++ r) = c :: ofUnits r := by
  have hc := toNat_cases c
  by_cases hsmall : c.toNat < 0x10000
  · -- one unit, and no surrogate
    have hhigh : isHigh c.toNat = false := by simp [isHigh]; omega
    have hlow : isLow c.toNat = false := by simp [isLow]; omega
    rw [unitsOf, if_pos hsmall, List.singleton_append, ofUnits_cons_of_not_high hhigh, single, hhigh,
      hlow, Bool.or_self, if_neg Bool.false_ne_true, Char.ofNat_toNat]
  · have hhigh : isHigh (0xD800 + (c.toNat - 0x10000) / 0x400) = true := by simp [isHigh]; omega
    have hlow : isLow (0xDC00 + (c.toNat - 0x10000) % 0x400) = true := by simp [isLow]; omega
    have hback : 0x10000 + (0xD800 + (c.toNat - 0x10000) / 0x400 - 0xD800) * 0x400
        + (0xDC00 + (c.toNat - 0x10000) % 0x400 - 0xDC00) = c.toNat := by omega
    rw [unitsOf, if_neg hsmall, List.cons_append, List.singleton_append, ofUnits_pair hhigh hlow, hback,
      Char.ofNat_toNat]

/-- **A unit in front of a character stands alone** — no character begins with the closing half of a
pair. -/
theorem ofUnits_cons_unitsOf_append (u : Nat) (c : Char) (r : List Nat) :
    ofUnits (u :: (unitsOf c ++ r)) = single u :: ofUnits (unitsOf c ++ r) := by
  have hc := toNat_cases c
  rw [unitsOf]
  split
  · exact ofUnits_cons_of_not_low (by simp [isLow]; omega)
  · exact ofUnits_cons_of_not_low (by simp [isLow]; omega)

/-- **A text comes back from its units.** -/
theorem ofUnits_units : ∀ s : List Char, ofUnits (units s) = s
  | [] => rfl
  | c :: s => by
    rw [units, List.flatMap_cons, ofUnits_unitsOf_append]
    exact congrArg (c :: ·) (ofUnits_units s)

end QueryPress.Text
