import QueryPress.Json.Literal
import QueryPress.Json.Reader
import QueryPress.Proofs.Text.Reading
import QueryPress.Proofs.Text.Units

/-!
# Proofs/Json/Escaping — a string that was escaped is read back, and nothing breaks out of it

Every character of a string is escaped to a piece of a literal that stands for that character alone
(`stringUnit_escapeChar`), so a literal with an escaped string in it is read back as that string, whatever
stands behind it (`stringLiteral_escape`).

Where a literal ends can be told without reading it: at the first quote that no backslash escapes
(`closing`).  No escaped string holds such a quote, nor a backslash that would escape the quote behind it
(`closing_escape`), nor a control character (`not_isControl_of_mem_escape`).
-/

namespace QueryPress.Json

open Reader

variable {c d : Char} {s l r : List Char} {n : Nat}

/-! ## Hexadecimal digits -/

theorem hexValue?_hexDigit : ∀ n < 16, hexValue? (QueryPress.hexDigit n) = some n := by
  decide

/-- **Four digits are read back** as the number that they were written for. -/
theorem hex4_hexDigits (h : n < 0x10000) (r : List Char) :
    hex4 (hexDigits 4 n ++ r) = some (n, r) := by
  have hdigit (m : Nat) (s : List Char) :
      hexDigit (QueryPress.hexDigit (m % 16) :: s) = some (m % 16, s) := by
    rw [hexDigit, hexValue?_hexDigit _ (Nat.mod_lt m (by decide)), Option.map_some]
  have hvalue : ((n / 16 / 16 / 16 % 16 * 16 + n / 16 / 16 % 16) * 16 + n / 16 % 16) * 16 + n % 16 = n := by
    omega
  rw [hex4]
  simp only [hexDigits, List.nil_append, List.cons_append]
  rw [bind_of_some (hdigit _ _), bind_of_some (hdigit _ _), bind_of_some (hdigit _ _),
    bind_of_some (hdigit _ _), hvalue]
  rfl

theorem exists_hexDigit_of_mem : ∀ {width n : Nat}, c ∈ hexDigits width n →
    ∃ m < 16, c = QueryPress.hexDigit m
  | 0, _, h => by cases h
  | width + 1, n, h => by
    rw [hexDigits, List.mem_append, List.mem_singleton] at h
    rcases h with h | rfl
    · exact exists_hexDigit_of_mem h
    · exact ⟨n % 16, Nat.mod_lt n (by decide), rfl⟩

/-! ## One character -/

/-- The characters that a string literal cannot hold. -/
def isControl (c : Char) : Bool := c.toNat < 0x20

/-- A character that stands for itself in a string literal. -/
def isPlain (c : Char) : Bool := c != '"' && c != '\\' && ! isControl c

theorem isPlain_of_mem_hexDigits {width : Nat} (h : c ∈ hexDigits width n) : isPlain c = true := by
  obtain ⟨m, hm, rfl⟩ := exists_hexDigit_of_mem h
  exact (by decide : ∀ m < 16, isPlain (QueryPress.hexDigit m) = true) m hm

/-- **How a character is escaped**: by a letter behind a backslash, by four digits, or not at all. -/
theorem escapeChar_cases (c : Char) :
    (∃ d, escapeChar c = ['\\', d] ∧ isControl d = false ∧
        ∀ r, stringUnit ('\\' :: d :: r) = some (Text.unitsOf c, r)) ∨
      (isControl c = true ∧ escapeChar c = '\\' :: 'u' :: hexDigits 4 c.toNat) ∨
      (isPlain c = true ∧ escapeChar c = [c]) := by
  rw [escapeChar]
  split
  · subst c
    exact .inl ⟨'"', rfl, rfl, fun _ => rfl⟩
  split
  · subst c
    exact .inl ⟨'\\', rfl, rfl, fun _ => rfl⟩
  split
  · subst c
    exact .inl ⟨'b', rfl, rfl, fun _ => rfl⟩
  split
  · subst c
    exact .inl ⟨'f', rfl, rfl, fun _ => rfl⟩
  split
  · subst c
    exact .inl ⟨'n', rfl, rfl, fun _ => rfl⟩
  split
  · subst c
    exact .inl ⟨'r', rfl, rfl, fun _ => rfl⟩
  split
  · subst c
    exact .inl ⟨'t', rfl, rfl, fun _ => rfl⟩
  · rename_i hquote hbackslash _ _ _ _ _
    cases hcontrol : isControl c with
    | true => exact .inr (.inl ⟨rfl, if_pos (of_decide_eq_true hcontrol)⟩)
    | false =>
      exact .inr (.inr ⟨by simp [isPlain, hquote, hbackslash, hcontrol],
        if_neg (of_decide_eq_false hcontrol)⟩)

theorem escapeChar_ne_nil (c : Char) : escapeChar c ≠ [] := by
  obtain ⟨d, hc, -⟩ | ⟨-, hc⟩ | ⟨-, hc⟩ := escapeChar_cases c <;> rw [hc] <;> exact List.cons_ne_nil _ _

/-- **An escaped character is read back**, whatever stands behind it. -/
theorem stringUnit_escapeChar (c : Char) (r : List Char) :
    stringUnit (escapeChar c ++ r) = some (Text.unitsOf c, r) := by
  obtain ⟨d, hc, -, hd⟩ | ⟨hcontrol, hc⟩ | ⟨hplain, hc⟩ := escapeChar_cases c <;> rw [hc]
  · exact hd r
  · have hsmall : c.toNat < 0x20 := of_decide_eq_true hcontrol
    have hunits : Text.unitsOf c = [c.toNat] := by rw [Text.unitsOf, if_pos (by omega)]
    rw [List.cons_append, List.cons_append, stringUnit, hex4_hexDigits (by omega) r, hunits]
    rfl
  · simp only [isPlain, isControl, Bool.and_eq_true, bne_iff_ne, ne_eq, Bool.not_eq_true',
      decide_eq_false_iff_not] at hplain
    obtain ⟨⟨hquote, hbackslash⟩, hcontrol⟩ := hplain
    rw [List.singleton_append, stringUnit.eq_11]
    · simp [hquote, hbackslash, hcontrol]
    · exact fun _ hc => absurd hc hbackslash
    · exact fun _ _ hc => absurd hc hbackslash

/-! ## String literals -/

theorem word_quote (r : List Char) : word "\"" ('"' :: r) = some ((), r) := word_append "\"" r

/-- **A string that was escaped is read back**, whatever stands behind the literal. -/
theorem stringLiteral_escape (s r : List Char) :
    stringLiteral ('"' :: (escape s ++ '"' :: r)) = some (String.ofList s, r) := by
  have hmany : many stringUnit (escape s ++ '"' :: r) = some (s.map Text.unitsOf, '"' :: r) :=
    many_flatMap (Q := fun _ => True) (fun c _ r' _ => stringUnit_escapeChar c r') (fun _ _ _ => trivial)
      (fun c _ => escapeChar_ne_nil c) trivial rfl
  have hunits : Text.ofUnits (s.map Text.unitsOf).flatten = s := by
    rw [← List.flatMap_def]
    exact Text.ofUnits_units s
  rw [stringLiteral, bind_of_some (word_quote _), bind_of_some hmany, bind_of_some (word_quote r), hunits]
  rfl

/-! ## Where a literal ends -/

/-- **What stands before the first quote that no backslash escapes**, and what stands behind it. -/
def closing : List Char → Option (List Char × List Char)
  | [] => none
  | '"' :: r => some ([], r)
  | '\\' :: d :: r => (closing r).map fun (l, r) => ('\\' :: d :: l, r)
  | c :: r => (closing r).map fun (l, r) => (c :: l, r)

theorem closing_cons_of_isPlain (h : isPlain c = true) (r : List Char) :
    closing (c :: r) = (closing r).map fun (l, r) => (c :: l, r) := by
  have hquote : c ≠ '"' := by
    rintro rfl
    cases h
  have hbackslash : c ≠ '\\' := by
    rintro rfl
    cases h
  rw [closing]
  · exact hquote
  · exact fun _ _ hc => absurd hc hbackslash

theorem closing_append_of_isPlain (h : ∀ c ∈ l, isPlain c = true) (r : List Char) :
    closing (l ++ r) = (closing r).map fun (m, r) => (l ++ m, r) := by
  induction l with
  | nil => simp
  | cons c l ih =>
    obtain ⟨hc, hl⟩ := List.forall_mem_cons.1 h
    rw [List.cons_append, closing_cons_of_isPlain hc, ih hl, Option.map_map]
    rfl

/-- **An escaped character closes no literal**, and lets a quote behind it close one. -/
theorem closing_escapeChar (c : Char) (r : List Char) :
    closing (escapeChar c ++ r) = (closing r).map fun (l, r) => (escapeChar c ++ l, r) := by
  obtain ⟨d, hc, -⟩ | ⟨-, hc⟩ | ⟨hplain, hc⟩ := escapeChar_cases c <;> rw [hc]
  · rfl
  · have hdigits := closing_append_of_isPlain (fun _ hd => isPlain_of_mem_hexDigits hd) r
      (l := hexDigits 4 c.toNat)
    rw [List.cons_append, List.cons_append, closing, hdigits, Option.map_map]
    rfl
  · exact closing_append_of_isPlain (by simpa using hplain) r

/-- **A literal with an escaped string in it ends behind that string**, whatever comes then. -/
theorem closing_escape (s r : List Char) : closing (escape s ++ '"' :: r) = some (escape s, r) := by
  induction s with
  | nil => rfl
  | cons c s ih =>
    have hcons : escape (c :: s) = escapeChar c ++ escape s := List.flatMap_cons
    rw [hcons, List.append_assoc, closing_escapeChar, ih, Option.map_some]

/-- **No control character is left in a string that was escaped.** -/
theorem not_isControl_of_mem_escape (h : d ∈ escape s) : isControl d = false := by
  obtain ⟨c, -, hd⟩ := List.mem_flatMap.1 h
  have hplain {c : Char} (h : isPlain c = true) : isControl c = false := by
    simp only [isPlain, Bool.and_eq_true, Bool.not_eq_true'] at h
    exact h.2
  obtain ⟨e, hc, he, -⟩ | ⟨-, hc⟩ | ⟨hc', hc⟩ := escapeChar_cases c <;> rw [hc] at hd
  · rcases List.mem_cons.1 hd with rfl | hd
    · rfl
    · rwa [List.mem_singleton.1 hd]
  · rcases List.mem_cons.1 hd with rfl | hd
    · rfl
    rcases List.mem_cons.1 hd with rfl | hd
    · rfl
    · exact hplain (isPlain_of_mem_hexDigits hd)
  · exact List.mem_singleton.1 hd ▸ hplain hc'

end QueryPress.Json
