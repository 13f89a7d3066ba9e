/-!
# Proofs/Text/Bytes — the order of strings is the order of their bytes

Strings are in order by their characters.  The bytes of a character are so made that the order of two
characters can be told from the first byte in which they differ (`utf8EncodeChar_lt`), so to go by the
bytes comes to the same (`lt_iff_bytes_lt`).
-/

namespace QueryPress.Text

/-- The bytes of a string, from the first. -/
def bytes (s : String) : List UInt8 := s.toUTF8.data.toList

theorem bytes_ofList (l : List Char) : bytes (String.ofList l) = l.flatMap String.utf8EncodeChar := by
  rw [bytes, String.toUTF8, ← String.utf8Encode_toList, String.toList_ofList, List.utf8Encode,
    List.data_toByteArray]

/-! ## Characters -/

theorem byte_cons_lt {m n : Nat} {u v : List UInt8} (hm : m < 256) (hn : n < 256) :
    UInt8.ofNat m :: u < UInt8.ofNat n :: v ↔ m < n ∨ m = n ∧ u < v := by
  rw [List.cons_lt_cons_iff, UInt8.lt_iff_toNat_lt, ← UInt8.toNat_inj,
    UInt8.toNat_ofNat_of_lt' hm, UInt8.toNat_ofNat_of_lt' hn]

theorem charVal_lt (c : Char) : c.val.toNat < 0x110000 := by
  rcases c.valid with h | h <;> omega

/-- **The bytes of a smaller character come first**, whatever stands behind them. -/
theorem utf8EncodeChar_lt {c d : Char} (h : c < d) (u v : List UInt8) :
    String.utf8EncodeChar c ++ u < String.utf8EncodeChar d ++ v := by
  have hcd : c.val.toNat < d.val.toNat := h
  have hc := charVal_lt c
  have hd := charVal_lt d
  -- each byte holds six bits more, so its division is one more by 64
  have hthird (k : Nat) : k / 4096 = k / 64 / 64 := (Nat.div_div_eq_div_mul k 64 64).symm
  have hfourth (k : Nat) : k / 262144 = k / 64 / 64 / 64 := by
    rw [Nat.div_div_eq_div_mul, Nat.div_div_eq_div_mul]
  simp only [String.utf8EncodeChar, hthird, hfourth]
  generalize c.val.toNat = m at *
  generalize d.val.toNat = n at *
  (repeat' split) <;>
    simp (disch := omega) only [List.cons_append, List.nil_append, byte_cons_lt] <;> omega

/-! ## Strings -/

theorem flatMap_utf8EncodeChar_lt {l m : List Char} (h : l < m) :
    l.flatMap String.utf8EncodeChar < m.flatMap String.utf8EncodeChar := by
  induction h with
  | @nil d m =>
    obtain ⟨b, bs, hd⟩ := List.exists_cons_of_ne_nil (String.utf8EncodeChar_ne_nil (c := d))
    rw [List.flatMap_cons, hd]
    exact List.nil_lt_cons _ _
  | rel hcd =>
    rw [List.flatMap_cons, List.flatMap_cons]
    exact utf8EncodeChar_lt hcd _ _
  | cons _ ih =>
    rw [List.flatMap_cons, List.flatMap_cons]
    exact List.append_left_lt ih

/-- **Strings are in the order of their bytes.** -/
theorem lt_iff_bytes_lt {s t : String} : s < t ↔ bytes s < bytes t := by
  have hlt {s t : String} (h : s < t) : bytes s < bytes t := by
    rw [← s.ofList_toList, ← t.ofList_toList, bytes_ofList, bytes_ofList]
    exact flatMap_utf8EncodeChar_lt (String.lt_iff.1 h)
  refine ⟨hlt, fun h => ?_⟩
  by_cases heq : s = t
  · exact absurd h (heq ▸ List.lt_irrefl _)
  · exact Std.lt_of_le_of_ne (fun hts => List.lt_asymm h (hlt hts)) heq

end QueryPress.Text
