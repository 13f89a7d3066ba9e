import QueryPress.Properties.Reader
import QueryPress.Proofs.Table
import QueryPress.Proofs.Text.Units

/-!
# Proofs/Properties/OnePass — reading properties in passes reads what one pass reads

The reader of properties cuts a text into lines, joins lines by counting the backslashes they end in,
splits what it has joined, and decodes the halves.  Here is a reader that goes over the text once: for
each character it knows what was settled before it, so whether a character is escaped is settled once.  It
shares nothing with the other, down to which characters are blanks and what escapes stand for.
`read_eq_onePass` says that the two read the same from every text.

The lemma behind it is `scan_line`: a line brings the one-pass reader from an entry to the same entry
with the line's marks, and the number of backslashes at its end tells whether the entry goes on.
-/

namespace QueryPress.Properties

namespace OnePass

/-! ## The reader -/

/-- What a reader meets: a character of a line, or the end of a natural line. -/
inductive Sign where
  | char (c : Char)
  | lineEnd
  deriving DecidableEq, Repr

/-- The signs of a text: a line feed ends a line, as does a carriage return with a line feed. -/
def signs : List Char → List Sign
  | '\r' :: '\n' :: r => .lineEnd :: signs r
  | '\n' :: r => .lineEnd :: signs r
  | c :: r => .char c :: signs r
  | [] => []

/-- A character of an entry: as it stands, or behind a backslash. -/
inductive Mark where
  | plain (c : Char)
  | escaped (c : Char)
  deriving DecidableEq, Repr

/-- The characters that count for nothing around keys and values: space, tab and form feed. -/
def isSkipped : Char → Bool
  | ' ' | '\t' | '\x0c' => true
  | _ => false

/-- The characters that part a key from its value. -/
def isParting : Char → Bool
  | '=' | ':' => true
  | _ => false

namespace Mark

/-- An unescaped blank. -/
def isBlank : Mark → Bool
  | plain c => isSkipped c
  | escaped _ => false

/-- An unescaped separator. -/
def isSeparator : Mark → Bool
  | plain c => isParting c
  | escaped _ => false

/-- Whether a mark ends a key. -/
def endsKey (m : Mark) : Bool := m.isSeparator || m.isBlank

end Mark

/-- Where an entry is read on: in its key, in the gap behind the key, in which one separator may stand,
in the blanks behind the separator, or in its value. -/
inductive Part where
  | key
  | gap
  | lead
  | value
  deriving DecidableEq, Repr

/-- An entry that is being read. -/
structure Entry where
  part : Part := .key
  key : List Mark := []
  value : List Mark := []
  deriving DecidableEq, Repr

/-- The entry with one more mark. -/
def Entry.push (e : Entry) (m : Mark) : Entry :=
  match e.part with
  | .key =>
    if m.isSeparator then { e with part := .lead }
    else if m.isBlank then { e with part := .gap }
    else { e with key := e.key ++ [m] }
  | .gap =>
    if m.isBlank then e
    else if m.isSeparator then { e with part := .lead }
    else { e with part := .value, value := e.value ++ [m] }
  | .lead => if m.isBlank then e else { e with part := .value, value := e.value ++ [m] }
  | .value => { e with value := e.value ++ [m] }

/-- All that is settled before a sign. -/
inductive Mode where
  /-- No entry has begun in the line. -/
  | fresh
  /-- The line is dropped. -/
  | dropped
  /-- An entry is read. -/
  | inside (e : Entry)
  /-- An entry is read, and the last character was a backslash that escapes. -/
  | behind (e : Entry)
  /-- An entry is read on, in the blanks that begin a joined line. -/
  | margin (e : Entry)

/-- The mode behind a character of an entry. -/
def Entry.take (e : Entry) (c : Char) : Mode :=
  if c = '\\' then .behind e else .inside (e.push (.plain c))

/-- **One step of the reader.** -/
def Mode.next : Mode → Sign → Mode
  | .fresh, .lineEnd => .fresh
  | .fresh, .char c =>
    if isSkipped c then .fresh else if c = '#' ∨ c = '!' then .dropped else Entry.take {} c
  | .dropped, .lineEnd => .fresh
  | .dropped, .char _ => .dropped
  | .inside _, .lineEnd => .fresh
  | .inside e, .char c => e.take c
  | .behind e, .lineEnd => .margin e
  | .behind e, .char c => .inside (e.push (.escaped c))
  | .margin _, .lineEnd => .fresh
  | .margin e, .char c => if isSkipped c then .margin e else e.take c

/-- The entry that a line end brings to its end. -/
def Mode.ended : Mode → List Entry
  | .inside e => [e]
  | .margin e => [e]
  | _ => []

/-- The entry that the end of the text brings to its end; a backslash in front of it is dropped. -/
def Mode.last : Mode → List Entry
  | .inside e => [e]
  | .behind e => [e]
  | .margin e => [e]
  | _ => []

/-- **The pass over a text**, and the entries it yields. -/
def scan : Mode → List Sign → List Entry
  | m, [] => m.last
  | m, .lineEnd :: r => m.ended ++ scan (m.next .lineEnd) r
  | m, .char c :: r => scan (m.next (.char c)) r

/-- What a stretch of marks says: a character, or a 16-bit unit by its number. -/
inductive Piece where
  | char (c : Char)
  | unit (u : Nat)

/-- What a character stands for behind a backslash: tab, line feed, carriage return or form feed for `t`,
`n`, `r` and `f`, and any other for itself. -/
def behindBackslash : Char → Char
  | 't' => '\t'
  | 'n' => '\n'
  | 'r' => '\r'
  | 'f' => '\x0c'
  | c => c

/-- The value of a digit to the base sixteen, whose letters count from ten. -/
def digit? (c : Char) : Option Nat :=
  if '0' ≤ c ∧ c ≤ '9' then some (c.toNat - '0'.toNat)
  else if 'a' ≤ c ∧ c ≤ 'f' then some (10 + (c.toNat - 'a'.toNat))
  else if 'A' ≤ c ∧ c ≤ 'F' then some (10 + (c.toNat - 'A'.toNat))
  else none

/-- The number that four digits make. -/
def fourDigits? (a b c d : Char) : Option Nat :=
  match digit? a, digit? b, digit? c, digit? d with
  | some a, some b, some c, some d => some (((a * 16 + b) * 16 + c) * 16 + d)
  | _, _, _, _ => none

/-- The pieces of marks: `u` with four digits is a unit behind a backslash, and every other character there
a character. -/
def pieces : List Mark → List Piece
  | .escaped 'u' :: .plain a :: .plain b :: .plain c :: .plain d :: r =>
    match fourDigits? a b c d with
    | some u => .unit u :: pieces r
    | none => .char 'u' :: pieces (.plain a :: .plain b :: .plain c :: .plain d :: r)
  | .escaped c :: r => .char (behindBackslash c) :: pieces r
  | .plain c :: r => .char c :: pieces r
  | [] => []

/-- Whether two units make a pair. -/
def isPair (u v : Nat) : Bool := 0xD800 ≤ u && u ≤ 0xDBFF && 0xDC00 ≤ v && v ≤ 0xDFFF

/-- The character of a pair: ten bits of each unit, on top of the first 65536 characters. -/
def ofPair (u v : Nat) : Char := Char.ofNat (0x10000 + (u - 0xD800) * 0x400 + (v - 0xDC00))

/-- The character of a unit on its own; half of a pair is none and stands for U+FFFD. -/
def ofUnit (u : Nat) : Char := if 0xD800 ≤ u ∧ u ≤ 0xDFFF then '\uFFFD' else Char.ofNat u

/-- The characters of pieces: two units that stand side by side and make a pair are one character. -/
def chars : List Piece → List Char
  | .unit u :: .unit v :: r =>
    if isPair u v then ofPair u v :: chars r else ofUnit u :: chars (.unit v :: r)
  | .unit u :: r => ofUnit u :: chars r
  | .char c :: r => c :: chars r
  | [] => []

/-- What a key or a value means. -/
def meaning (ms : List Mark) : String := String.ofList (chars (pieces ms))

/-- The entries of a text, in order. -/
def entries (text : List Char) : List (String × String) :=
  (scan .fresh (signs text)).map fun e => (meaning e.key, meaning e.value)

/-! ## The characters of both readers -/

@[simp] theorem isSkipped_eq (c : Char) : isSkipped c = isBlank c := by
  unfold isSkipped
  split
  · rfl
  · rfl
  · rfl
  · simp_all [isBlank]

@[simp] theorem isParting_eq (c : Char) : isParting c = isSeparator c := by
  unfold isParting
  split
  · rfl
  · rfl
  · simp_all [isSeparator]

@[simp] theorem behindBackslash_eq (c : Char) : behindBackslash c = escaped c := by
  unfold behindBackslash
  split <;> first | rfl | simp_all [escaped]

theorem digit?_eq (c : Char) : digit? c = Json.hexValue? c := by
  have hlower : 'a' ≤ c → 10 + (c.toNat - 'a'.toNat) = c.toNat - 87 := by
    intro h
    have hle : 'a'.toNat ≤ c.toNat := h
    have ha : 'a'.toNat = 97 := rfl
    omega
  have hupper : 'A' ≤ c → 10 + (c.toNat - 'A'.toNat) = c.toNat - 55 := by
    intro h
    have hle : 'A'.toNat ≤ c.toNat := h
    have ha : 'A'.toNat = 65 := rfl
    omega
  simp only [digit?, Json.hexValue?, Bool.and_eq_true, decide_eq_true_eq]
  split
  · rfl
  · split
    · rw [hlower (by simp_all)]
    · split
      · rw [hupper (by simp_all)]
      · rfl

theorem fourDigits?_eq (a b c d : Char) : fourDigits? a b c d = unit? a b c d := by
  simp only [fourDigits?, unit?, digit?_eq]
  cases Json.hexValue? a <;> cases Json.hexValue? b <;> cases Json.hexValue? c <;>
    cases Json.hexValue? d <;> simp

theorem isPair_eq (u v : Nat) : isPair u v = (Text.isHigh u && Text.isLow v) := by
  rw [Bool.eq_iff_iff]
  simp [isPair, Text.isHigh, Text.isLow]
  omega

theorem ofUnit_eq (u : Nat) : ofUnit u = Text.single u := by
  have hsurrogate : (0xD800 ≤ u ∧ u ≤ 0xDFFF) ↔ (Text.isHigh u || Text.isLow u) = true := by
    simp [Text.isHigh, Text.isLow]
    omega
  simp only [ofUnit, Text.single, hsurrogate]
  rfl

namespace Mark

@[simp] theorem isBlank_plain (c : Char) : (plain c).isBlank = Properties.isBlank c := isSkipped_eq c

@[simp] theorem isBlank_escaped (c : Char) : (escaped c).isBlank = false := rfl

@[simp] theorem isSeparator_plain (c : Char) :
    (plain c).isSeparator = Properties.isSeparator c := isParting_eq c

@[simp] theorem isSeparator_escaped (c : Char) : (escaped c).isSeparator = false := rfl

@[simp] theorem endsKey_plain (c : Char) :
    (plain c).endsKey = (Properties.isSeparator c || Properties.isBlank c) := by
  rw [endsKey, isSeparator_plain, isBlank_plain]

@[simp] theorem endsKey_escaped (c : Char) : (escaped c).endsKey = false := rfl

theorem not_isBlank_of_isSeparator (m : Mark) (h : m.isSeparator = true) : m.isBlank = false := by
  cases m with
  | plain c =>
    simp only [isSeparator_plain, Properties.isSeparator, Bool.or_eq_true, beq_iff_eq] at h
    obtain rfl | rfl := h <;> rfl
  | escaped c => rfl

end Mark

/-! ## The marks of a line

A backslash at the end of a line has no mark: the text ends behind it, or its line end is escaped. -/

/-- The marks of a line. -/
def marks : List Char → List Mark
  | '\\' :: c :: r => .escaped c :: marks r
  | ['\\'] => []
  | c :: r => .plain c :: marks r
  | [] => []

variable {c : Char} {l r : List Char} {ms : List Mark} {e : Entry} {m : Mode} {R : List Sign}

/-- **Induction along the escapes of a line.** -/
@[elab_as_elim]
theorem escapes_induction {motive : List Char → Prop} (l : List Char) (nil : motive [])
    (lone : motive ['\\']) (escape : ∀ c r, motive r → motive ('\\' :: c :: r))
    (plain : ∀ c r, c ≠ '\\' → motive r → motive (c :: r)) : motive l := by
  induction l using marks.induct with
  | case1 c r ih => exact escape c r ih
  | case2 => exact lone
  | case3 c r hescape hlone ih =>
    refine plain c r ?_ ih
    rintro rfl
    cases r with
    | nil => exact hlone rfl rfl
    | cons d r => exact hescape d r rfl rfl
  | case4 => exact nil

@[simp] theorem marks_nil : marks [] = [] := rfl

@[simp] theorem marks_lone : marks ['\\'] = [] := rfl

@[simp] theorem marks_escape (c : Char) (r : List Char) :
    marks ('\\' :: c :: r) = .escaped c :: marks r := rfl

@[simp] theorem marks_plain (h : c ≠ '\\') : marks (c :: r) = .plain c :: marks r := by
  rw [marks.eq_3 _ _ (fun _ _ hc _ => h hc) (fun hc _ => h hc)]

/-- A plain mark at the beginning is the text's first character. -/
theorem marks_eq_plain_cons (h : marks l = .plain c :: ms) : ∃ r, l = c :: r ∧ marks r = ms := by
  cases l using escapes_induction <;> simp_all

theorem ne_backslash_of_isBlank (h : isBlank c = true) : c ≠ '\\' := by
  rintro rfl
  exact absurd h (by decide)

theorem ne_backslash_of_isSeparator (h : isSeparator c = true) : c ≠ '\\' := by
  rintro rfl
  exact absurd h (by decide)

@[simp] theorem isOpen_nil : isOpen [] = false := rfl

@[simp] theorem isOpen_lone : isOpen ['\\'] = true := rfl

@[simp] theorem isOpen_plain (h : c ≠ '\\') : isOpen (c :: r) = isOpen r := by
  simp only [isOpen, List.reverse_cons, List.takeWhile_append]
  split <;> simp_all

/-- **An escaped character says nothing about the line end.** -/
@[simp] theorem isOpen_escape (c : Char) (r : List Char) : isOpen ('\\' :: c :: r) = isOpen r := by
  simp only [isOpen, List.reverse_cons, List.append_assoc, List.singleton_append,
    List.takeWhile_append]
  by_cases hc : c = '\\' <;> split <;> simp_all

/-- **What an open line loses is a backslash**, so what it keeps is closed and has the same marks. -/
theorem dropLast_of_isOpen (h : isOpen l = true) :
    isOpen l.dropLast = false ∧ marks l.dropLast = marks l := by
  have hne {l : List Char} (h : isOpen l = true) : l ≠ [] := by
    rintro rfl
    exact absurd h (by simp)
  induction l using escapes_induction with
  | nil => exact absurd rfl (hne h)
  | lone => exact ⟨rfl, rfl⟩
  | escape c l ih =>
    rw [isOpen_escape] at h
    rw [List.dropLast_cons_of_ne_nil (by simp), List.dropLast_cons_of_ne_nil (hne h)]
    simpa using ih h
  | plain c l hc ih =>
    rw [isOpen_plain hc] at h
    rw [List.dropLast_cons_of_ne_nil (hne h)]
    simpa [hc] using ih h

/-! ## An entry and its marks -/

namespace Entry

/-- The entry with more marks. -/
def pushes (e : Entry) (ms : List Mark) : Entry := ms.foldl push e

@[simp] theorem pushes_nil (e : Entry) : e.pushes [] = e := rfl

@[simp] theorem pushes_cons (e : Entry) (m : Mark) (ms : List Mark) :
    e.pushes (m :: ms) = (e.push m).pushes ms := rfl

/-- The marks of a value, from what stands behind its key. -/
def valueMarks (ms : List Mark) : List Mark :=
  match ms.dropWhile Mark.isBlank with
  | [] => []
  | m :: r => if m.isSeparator then r.dropWhile Mark.isBlank else m :: r

theorem value_pushes_value (k v ms : List Mark) :
    (pushes ⟨.value, k, v⟩ ms).key = k ∧ (pushes ⟨.value, k, v⟩ ms).value = v ++ ms := by
  induction ms generalizing v with
  | nil => simp
  | cons m ms ih => simpa [push] using ih (v ++ [m])

theorem pushes_lead (k v ms : List Mark) :
    (pushes ⟨.lead, k, v⟩ ms).key = k ∧
      (pushes ⟨.lead, k, v⟩ ms).value = v ++ ms.dropWhile Mark.isBlank := by
  induction ms with
  | nil => simp
  | cons m ms ih =>
    cases hm : m.isBlank with
    | true => simpa [push, hm] using ih
    | false => simpa [push, hm] using value_pushes_value k (v ++ [m]) ms

theorem pushes_gap (k v ms : List Mark) :
    (pushes ⟨.gap, k, v⟩ ms).key = k ∧ (pushes ⟨.gap, k, v⟩ ms).value = v ++ valueMarks ms := by
  induction ms with
  | nil => simp [valueMarks]
  | cons m ms ih =>
    cases hm : m.isBlank with
    | true => simpa [push, hm, valueMarks] using ih
    | false =>
      cases hs : m.isSeparator with
      | true => simpa [push, hm, hs, valueMarks] using pushes_lead k v ms
      | false => simpa [push, hm, hs, valueMarks] using value_pushes_value k (v ++ [m]) ms

/-- **An entry from its marks** — the key up to the first mark that ends it, and the value behind. -/
theorem pushes_key (k v ms : List Mark) :
    (pushes ⟨.key, k, v⟩ ms).key = k ++ ms.takeWhile (!Mark.endsKey ·) ∧
      (pushes ⟨.key, k, v⟩ ms).value = v ++ valueMarks (ms.dropWhile (!Mark.endsKey ·)) := by
  induction ms generalizing k with
  | nil => simp [valueMarks]
  | cons m ms ih =>
    cases hs : m.isSeparator with
    | true =>
      have hm := m.not_isBlank_of_isSeparator hs
      simpa [push, Mark.endsKey, hs, hm, valueMarks] using pushes_lead k v ms
    | false =>
      cases hm : m.isBlank with
      | true => simpa [push, Mark.endsKey, hs, hm, valueMarks] using pushes_gap k v ms
      | false => simpa [push, Mark.endsKey, hs, hm] using ih (k ++ [m])

end Entry

/-! ## A joined line, split and decoded -/

theorem dropBlanks_cons (c : Char) (l : List Char) :
    dropBlanks (c :: l) = if isBlank c then dropBlanks l else c :: l := List.dropWhile_cons

theorem marks_dropBlanks (l : List Char) :
    marks (dropBlanks l) = (marks l).dropWhile Mark.isBlank := by
  induction l with
  | nil => rfl
  | cons c l ih =>
    rw [dropBlanks_cons]
    cases hc : isBlank c with
    | true => simp [hc, ne_backslash_of_isBlank hc, ih]
    | false =>
      rw [if_neg Bool.false_ne_true]
      generalize hl : c :: l = s
      cases s using escapes_induction <;> simp_all

theorem marks_splitKey (l : List Char) :
    marks (splitKey l).1 = (marks l).takeWhile (!Mark.endsKey ·) ∧
      marks (splitKey l).2 = (marks l).dropWhile (!Mark.endsKey ·) := by
  induction l using escapes_induction with
  | nil => exact ⟨rfl, rfl⟩
  | lone => exact ⟨rfl, rfl⟩
  | escape c l ih =>
    simpa [splitKey] using ih
  | plain c l hc ih =>
    cases hend : isSeparator c || isBlank c with
    | true => simp [splitKey, hc, hend]
    | false => simpa [splitKey, hc, hend] using ih

theorem marks_valueOf (l : List Char) : marks (valueOf l) = Entry.valueMarks (marks l) := by
  rw [valueOf, Entry.valueMarks, ← marks_dropBlanks]
  generalize dropBlanks l = s
  cases s with
  | nil => rfl
  | cons c r =>
    cases hc : isSeparator c with
    | true =>
      simp [hc, ne_backslash_of_isSeparator hc, marks_dropBlanks]
    | false =>
      simp only [hc, Bool.false_eq_true, if_false]
      generalize hs : c :: r = s
      cases s using escapes_induction <;> simp_all

/-- The units of a piece. -/
def Piece.units : Piece → List Nat
  | .char c => Text.unitsOf c
  | .unit u => [u]

theorem ofUnits_units (ps : List Piece) : Text.ofUnits (ps.flatMap Piece.units) = chars ps := by
  induction ps using chars.induct with
  | case1 u v ps hpair ih =>
    obtain ⟨hu, hv⟩ := Bool.and_eq_true_iff.1 ((isPair_eq u v).symm.trans hpair)
    simp [Piece.units, Text.ofUnits_pair hu hv, chars, hpair, ofPair, ih]
  | case2 u v ps hpair ih =>
    rw [chars, if_neg hpair, ← ih, ofUnit_eq]
    rw [isPair_eq, Bool.not_eq_true, Bool.and_eq_false_iff] at hpair
    rcases hpair with hu | hv
    · exact Text.ofUnits_cons_of_not_high hu
    · exact Text.ofUnits_cons_of_not_low hv
  | case3 u ps hps ih =>
    match ps, hps with
    | [], _ => exact (Text.ofUnits_singleton u).trans (by rw [← ofUnit_eq]; rfl)
    | .char c :: ps, hps =>
      rw [chars.eq_2 _ _ hps, ← ih, ofUnit_eq]
      exact Text.ofUnits_cons_unitsOf_append u c _
    | .unit v :: ps, hps => exact (hps v ps rfl).elim
  | case4 c ps ih => simpa [Piece.units, chars, Text.ofUnits_unitsOf_append] using ih
  | case5 => rfl

/-- `u` stands for itself unless four digits follow it. -/
theorem pieces_escaped_u
    (h : ∀ a b c d r, ms = .plain a :: .plain b :: .plain c :: .plain d :: r →
      fourDigits? a b c d = none) :
    pieces (.escaped 'u' :: ms) = .char 'u' :: pieces ms := by
  rw [pieces.eq_def]
  split
  · rename_i a b c d r hms
    obtain ⟨-, rfl⟩ := List.cons_eq_cons.1 hms
    rw [h a b c d r rfl]
  · rename_i c r _ hms
    obtain ⟨hc, rfl⟩ := List.cons_eq_cons.1 hms
    cases hc
    rfl
  · simp_all
  · simp_all

theorem pieces_escaped (h : c ≠ 'u') :
    pieces (.escaped c :: ms) = .char (behindBackslash c) :: pieces ms := by
  rw [pieces.eq_2 _ _ (fun _ _ _ _ _ _ hc => h hc)]

theorem ne_backslash_of_hexValue? {n : Nat} (h : Json.hexValue? c = some n) : c ≠ '\\' := by
  rintro rfl
  simp [show Json.hexValue? '\\' = none from rfl] at h

/-- Four plain marks at the beginning are four characters of the line. -/
theorem marks_eq_plain_cons₄ {a b c d : Char}
    (h : marks l = .plain a :: .plain b :: .plain c :: .plain d :: ms) :
    ∃ r, l = a :: b :: c :: d :: r := by
  obtain ⟨l₁, rfl, h₁⟩ := marks_eq_plain_cons h
  obtain ⟨l₂, rfl, h₂⟩ := marks_eq_plain_cons h₁
  obtain ⟨l₃, rfl, h₃⟩ := marks_eq_plain_cons h₂
  obtain ⟨l₄, rfl, -⟩ := marks_eq_plain_cons h₃
  exact ⟨l₄, rfl⟩

theorem units_pieces (l : List Char) :
    unescapedUnits l = (pieces (marks l)).flatMap Piece.units := by
  fun_induction unescapedUnits l with
  | case1 a b c d r u hu ih =>
    have hu' := hu
    simp only [unit?, Option.bind_eq_bind, Option.bind_eq_some_iff] at hu'
    obtain ⟨_, ha, _, hb, _, hc, _, hd, -⟩ := hu'
    simp [ne_backslash_of_hexValue? ha, ne_backslash_of_hexValue? hb, ne_backslash_of_hexValue? hc,
      ne_backslash_of_hexValue? hd, pieces, fourDigits?_eq, hu, Piece.units, ih]
  | case2 a b c d r hu ih =>
    rw [marks_escape, pieces_escaped_u, List.flatMap_cons, ih, Piece.units]
    intro a' b' c' d' ms h
    obtain ⟨r', hr⟩ := marks_eq_plain_cons₄ h
    simp only [List.cons.injEq] at hr
    obtain ⟨rfl, rfl, rfl, rfl, -⟩ := hr
    rw [fourDigits?_eq, hu]
  | case3 c r hr ih =>
    by_cases hc : c = 'u'
    · subst hc
      rw [marks_escape, pieces_escaped_u, List.flatMap_cons, ih, Piece.units]
      · rfl
      · intro a b c d ms h
        obtain ⟨r', rfl⟩ := marks_eq_plain_cons₄ h
        exact (hr a b c d r' rfl rfl).elim
    · rw [marks_escape, pieces_escaped hc, List.flatMap_cons, ih, Piece.units, behindBackslash_eq]
  | case4 => rfl
  | case5 c r _ hescape hlone ih =>
    have hc : c ≠ '\\' := by
      rintro rfl
      cases r with
      | nil => exact hlone rfl rfl
      | cons d r => exact hescape d r rfl rfl
    rw [marks_plain hc, pieces, List.flatMap_cons, ih, Piece.units]
  | case6 => rfl

/-- **Decoding a line decodes its marks.** -/
theorem unescape_eq (l : List Char) : unescape l = meaning (marks l) := by
  rw [unescape, meaning, units_pieces, ofUnits_units]

/-- **A line means what the entry of its marks means.** -/
theorem entry_eq (l : List Char) :
    entry l =
      (meaning (Entry.pushes {} (marks l)).key, meaning (Entry.pushes {} (marks l)).value) := by
  obtain ⟨hkey, hvalue⟩ := Entry.pushes_key [] [] (marks l)
  rw [entry, unescape_eq, unescape_eq, marks_valueOf, (marks_splitKey l).1, (marks_splitKey l).2, hkey,
    hvalue, List.nil_append, List.nil_append]

/-! ## The pass over a line -/

/-- **A line takes the reader from an entry to the entry with the line's marks**, and to a line end that
is escaped if the line is open. -/
theorem scan_line (e : Entry) (l : List Char) (R : List Sign) :
    scan (.inside e) (l.map .char ++ R) =
      scan (if isOpen l then .behind (e.pushes (marks l)) else .inside (e.pushes (marks l))) R := by
  induction l using escapes_induction generalizing e with
  | nil => rfl
  | lone => rfl
  | escape c l ih => simpa [scan, Mode.next, Entry.take] using ih (e.push (.escaped c))
  | plain c l hc ih => simpa [scan, Mode.next, Entry.take, hc] using ih (e.push (.plain c))

/-- The blanks that begin a joined line are passed over. -/
theorem scan_margin (e : Entry) (l : List Char) (R : List Sign) :
    scan (.margin e) (l.map .char ++ .lineEnd :: R) =
      scan (.inside e) ((dropBlanks l).map .char ++ .lineEnd :: R) := by
  induction l with
  | nil => rfl
  | cons c l ih =>
    rw [dropBlanks_cons]
    cases hc : isBlank c with
    | true => simpa [scan, Mode.next, hc] using ih
    | false => simp [scan, Mode.next, hc]

theorem scan_dropped (l : List Char) (R : List Sign) :
    scan .dropped (l.map .char ++ .lineEnd :: R) = scan .fresh R := by
  induction l with
  | nil => rfl
  | cons c l ih => exact ih

/-- The blanks that begin an entry's line are passed over, and so is all of a line that is empty
without them, or a comment. -/
theorem scan_fresh (l : List Char) (R : List Sign) :
    scan .fresh (l.map .char ++ .lineEnd :: R) =
      if isIdle (dropBlanks l) then scan .fresh R
      else scan (.inside {}) ((dropBlanks l).map .char ++ .lineEnd :: R) := by
  induction l with
  | nil => rfl
  | cons c l ih =>
    rw [dropBlanks_cons]
    cases hc : isBlank c with
    | true => simpa [scan, Mode.next, hc] using ih
    | false =>
      by_cases hidle : c = '#' ∨ c = '!'
      · have h := scan_dropped l R
        simpa [scan, Mode.next, hc, hidle, isIdle] using h
      · simp [scan, Mode.next, hc, hidle, isIdle]

/-- The signs of lines that each have their end. -/
def written (ls : List (List Char)) : List Sign := ls.flatMap fun l => l.map .char ++ [.lineEnd]

@[simp] theorem written_nil : written [] = [] := rfl

@[simp] theorem written_cons (l : List Char) (ls : List (List Char)) :
    written (l :: ls) = l.map .char ++ .lineEnd :: written ls := by
  simp [written]

/-- **The lines of an entry are read as the line they are joined to.** -/
theorem scan_joined (rest : List (List Char)) (line : List Char) (e : Entry) :
    scan (.inside e) (line.map .char ++ .lineEnd :: written rest) =
      e.pushes (marks (joined line rest).1) :: scan .fresh (written (joined line rest).2) := by
  induction rest generalizing line with
  | nil =>
    rw [scan_line, joined]
    cases hopen : isOpen line with
    | true => simp [scan, Mode.next, Mode.ended, Mode.last, (dropLast_of_isOpen hopen).2]
    | false => simp [scan, Mode.next, Mode.ended, Mode.last]
  | cons next rest ih =>
    rw [joined]
    cases hopen : isOpen line with
    | true =>
      obtain ⟨hclosed, hmarks⟩ := dropLast_of_isOpen hopen
      -- the blanks of the next line are passed over, as if its rest stood in the line
      calc scan (.inside e) (line.map .char ++ .lineEnd :: written (next :: rest))
          = scan (.margin (e.pushes (marks line))) (written (next :: rest)) := by
            simp [scan_line, hopen, scan, Mode.next, Mode.ended]
        _ = scan (.inside (e.pushes (marks line)))
              ((dropBlanks next).map .char ++ .lineEnd :: written rest) := by
            rw [written_cons, scan_margin]
        _ = scan (.inside e)
              ((line.dropLast ++ dropBlanks next).map .char ++ .lineEnd :: written rest) := by
            rw [List.map_append, List.append_assoc, scan_line e line.dropLast]
            simp [hclosed, hmarks]
        _ = _ := by simpa using ih (line.dropLast ++ dropBlanks next)
    | false => simp [scan_line, hopen, scan, Mode.next, Mode.ended]

theorem scan_written (ls : List (List Char)) :
    scan .fresh (written ls) = (entryLines ls).map fun l => Entry.pushes {} (marks l) := by
  induction ls using entryLines.induct with
  | case1 => simp [entryLines, scan, Mode.last]
  | case2 line rest hidle ih => simpa [entryLines, scan_fresh, hidle] using ih
  | case3 line rest hidle ih => simp [entryLines, scan_fresh, hidle, scan_joined, ih]

/-- A last line needs no end. -/
theorem scan_append_lineEnd (m : Mode) (R : List Sign) : scan m (R ++ [.lineEnd]) = scan m R := by
  induction R generalizing m with
  | nil => cases m <;> rfl
  | cons s R ih => cases s <;> simp [scan, ih]

theorem lines_eq_nil {s : List Char} (h : lines s = []) : s = [] := by
  fun_cases lines s <;> simp_all [lines]

/-- **The lines of a text are its natural lines**, but for the end that the last may lack. -/
theorem written_lines (text : List Char) :
    written (lines text) = signs text ∨ written (lines text) = signs text ++ [.lineEnd] := by
  fun_induction lines text with
  | case1 => exact .inl rfl
  | case2 r ih => exact ih.imp (fun h => by simp [signs, h]) (fun h => by simp [signs, h])
  | case3 r ih => exact ih.imp (fun h => by simp [signs, h]) (fun h => by simp [signs, h])
  | case4 c r hcrlf hlf hlines ih =>
    obtain rfl := lines_eq_nil hlines
    exact .inr (by simp [signs])
  | case5 c r hcrlf hlf l ls hlines ih =>
    rw [hlines] at ih
    exact ih.imp (fun h => by simpa [signs] using h) (fun h => by simpa [signs] using h)

theorem entries_eq (text : List Char) : Properties.entries text = entries text := by
  have hscan : scan .fresh (signs text) = scan .fresh (written (lines text)) := by
    rcases written_lines text with h | h
    · rw [h]
    · rw [h, scan_append_lineEnd]
  rw [Properties.entries, entries, hscan, scan_written, List.map_map]
  exact List.map_congr_left fun l _ => entry_eq l

end OnePass

/-- **Reading in passes is reading in one** — the properties of a text are the entries that a reader
finds that goes over the text once, and of two entries with one key the later one counts. -/
theorem read_eq_onePass (text : String) :
    read text = Table.ofList (OnePass.entries text.toList) ∧
      ∀ key, (read text).get? key =
        ((OnePass.entries text.toList).reverse.find? (·.1 = key)).map (·.2) := by
  have h : read text = Table.ofList (OnePass.entries text.toList) := by
    rw [read, OnePass.entries_eq]
  exact ⟨h, fun key => by rw [h, Table.get?_ofList]⟩

/-- A comment has no next line, and an escape may go on in the next line. -/
example : read "# no \\\na\\:b : x\\\n  \\u00\\\n41" = [("a:b", "xA")] := by decide +kernel

end QueryPress.Properties
