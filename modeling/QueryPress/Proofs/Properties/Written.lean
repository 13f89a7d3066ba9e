import QueryPress.Proofs.Properties.OnePass

/-!
# Proofs/Properties/Written — every key and value can be written and read back

A writer of properties puts a backslash before whatever the reader would take for a blank, a
separator, the sign of a comment or an escape, and a letter for a tab and for what ends a line.
`read_write` says that the reader finds every pair in what is written, whatever the pairs are and
whatever blank lines and comments stand between them.

The proof goes along the one-pass reader (`OnePass.entries_eq`), for which a written line is a line end
that is not escaped behind marks that say what was to be written (`scan_write`).
-/

namespace QueryPress.Properties

/-! ## The writer -/

/-- Whether a character is written behind a backslash so as to stand for itself. -/
def isGuarded (c : Char) : Bool :=
  c == '\\' || c == ' ' || c == '=' || c == ':' || c == '#' || c == '!'

/-- A character as it is written. -/
def escapeChar : Char → List Char
  | '\t' => ['\\', 't']
  | '\n' => ['\\', 'n']
  | '\r' => ['\\', 'r']
  | '\x0c' => ['\\', 'f']
  | c => if isGuarded c then ['\\', c] else [c]

/-- **A key or a value as it is written.** -/
def escape (s : String) : List Char := s.toList.flatMap escapeChar

/-- Blanks, which may begin any line that says nothing. -/
abbrev Blanks := { l : List Char // ∀ c ∈ l, isBlank c = true }

/-- A line of a written text. -/
inductive Line where
  /-- A key with its value. -/
  | pair (key value : String)
  /-- Blanks and nothing else; a carriage return may be part of the line end. -/
  | blank (blanks : Blanks) (carriage : Bool)
  /-- A comment: its sign, and whatever does not end a line. -/
  | comment (blanks : Blanks) (sign : { c : Char // c = '#' ∨ c = '!' })
      (text : { l : List Char // '\n' ∉ l })

namespace Line

/-- The line without the line feed at its end. -/
def chars : Line → List Char
  | pair key value => escape key ++ '=' :: escape value
  | blank blanks carriage => blanks.val ++ if carriage then ['\r'] else []
  | comment blanks sign text => blanks.val ++ sign.val :: text.val

/-- What the line says. -/
def pair? : Line → Option (String × String)
  | pair key value => some (key, value)
  | _ => none

end Line

/-- The characters of a written text: every line has its line feed. -/
def writeChars (ls : List Line) : List Char := ls.flatMap fun l => l.chars ++ ['\n']

/-- **The text of written lines.** -/
def write (ls : List Line) : String := String.ofList (writeChars ls)

/-- What written lines say, in order. -/
def pairs (ls : List Line) : List (String × String) := ls.filterMap Line.pair?

@[simp] theorem writeChars_nil : writeChars [] = [] := rfl

@[simp] theorem writeChars_cons (l : Line) (ls : List Line) :
    writeChars (l :: ls) = l.chars ++ '\n' :: writeChars ls := by
  simp [writeChars]

@[simp] theorem pairs_pair (key value : String) (ls : List Line) :
    pairs (.pair key value :: ls) = (key, value) :: pairs ls := rfl

@[simp] theorem pairs_blank (blanks : Blanks) (carriage : Bool) (ls : List Line) :
    pairs (.blank blanks carriage :: ls) = pairs ls := rfl

@[simp] theorem pairs_comment (blanks : Blanks) (sign : { c : Char // c = '#' ∨ c = '!' })
    (text : { l : List Char // '\n' ∉ l }) (ls : List Line) :
    pairs (.comment blanks sign text :: ls) = pairs ls := rfl

namespace OnePass

variable {c : Char} {r : List Char} {ms : List Mark}

/-! ## The marks of what is written -/

/-- The mark of a written character. -/
def mark : Char → Mark
  | '\t' => .escaped 't'
  | '\n' => .escaped 'n'
  | '\r' => .escaped 'r'
  | '\x0c' => .escaped 'f'
  | c => if isGuarded c then .escaped c else .plain c

/-- **A character is written in one of three ways** — as a letter that stands for it, behind a
backslash, or as it stands, and then it is nothing that the reader looks for. -/
theorem escapeChar_cases (c : Char) :
    (∃ d, d ≠ 'u' ∧ d ≠ '\n' ∧ d ≠ '\r' ∧ Properties.escaped d = c ∧ escapeChar c = ['\\', d] ∧
        mark c = .escaped d) ∨
      c ≠ '\\' ∧ c ≠ '\n' ∧ c ≠ '\r' ∧ isBlank c = false ∧ isSeparator c = false ∧ c ≠ '#' ∧ c ≠ '!' ∧
        escapeChar c = [c] ∧ mark c = .plain c := by
  unfold escapeChar mark
  split
  · exact .inl ⟨'t', by decide⟩
  · exact .inl ⟨'n', by decide⟩
  · exact .inl ⟨'r', by decide⟩
  · exact .inl ⟨'f', by decide⟩
  · rename_i ht hn hr hf
    cases hc : isGuarded c with
    | true =>
      simp only [isGuarded, Bool.or_eq_true, beq_iff_eq, or_assoc] at hc
      refine .inl ⟨c, ?_⟩
      obtain rfl | rfl | rfl | rfl | rfl | rfl := hc <;> decide
    | false => simp_all [isGuarded, isBlank, isSeparator]

theorem marks_escape_append (s : String) : marks (escape s ++ r) = s.toList.map mark ++ marks r := by
  rw [escape]
  induction s.toList with
  | nil => rfl
  | cons c s ih =>
    obtain ⟨d, -, -, -, -, hchar, hmark⟩ | ⟨hc, -, -, -, -, -, -, hchar, hmark⟩ := escapeChar_cases c
    · simp [hchar, hmark, ih]
    · simp [hchar, hmark, hc, ih]

theorem isOpen_escape_append (s : String) : isOpen (escape s ++ r) = isOpen r := by
  rw [escape]
  induction s.toList with
  | nil => rfl
  | cons c s ih =>
    obtain ⟨d, -, -, -, -, hchar, -⟩ | ⟨hc, -, -, -, -, -, -, hchar, -⟩ := escapeChar_cases c
    · simp [hchar, ih]
    · simp [hchar, hc, ih]

theorem not_endsKey_mark (c : Char) : (mark c).endsKey = false := by
  obtain ⟨d, -, -, -, -, -, hmark⟩ | ⟨-, -, -, hblank, hsep, -, -, -, hmark⟩ := escapeChar_cases c
  · simp [hmark]
  · simp [hmark, hblank, hsep]

theorem not_isBlank_mark (c : Char) : (mark c).isBlank = false := by
  have h := not_endsKey_mark c
  simp_all [Mark.endsKey]

/-- **What is written means what was to be written.** -/
theorem meaning_map_mark (s : String) : meaning (s.toList.map mark) = s := by
  have hpieces (cs : List Char) : pieces (cs.map mark) = cs.map .char := by
    induction cs with
    | nil => rfl
    | cons c cs ih =>
      obtain ⟨d, hu, -, -, hd, -, hmark⟩ | ⟨-, -, -, -, -, -, -, -, hmark⟩ := escapeChar_cases c
      · simp [hmark, pieces_escaped hu, hd, ih]
      · simp [hmark, pieces, ih]
  have hchars (cs : List Char) : chars (cs.map .char) = cs := by
    induction cs with
    | nil => rfl
    | cons c cs ih => simp [chars, ih]
  rw [meaning, hpieces, hchars, String.ofList_toList]

/-- The key and the value of a written pair. -/
theorem pushes_pair (key value : String) :
    (Entry.pushes {} (marks (Line.pair key value).chars)).key = key.toList.map mark ∧
      (Entry.pushes {} (marks (Line.pair key value).chars)).value = value.toList.map mark := by
  have hmarks : marks (Line.pair key value).chars =
      key.toList.map mark ++ .plain '=' :: value.toList.map mark := by
    have hvalue := marks_escape_append (r := []) value
    rw [List.append_nil, marks_nil, List.append_nil] at hvalue
    rw [Line.chars, marks_escape_append, marks_plain (by decide), hvalue]
  have hkey : ∀ m ∈ key.toList.map mark, (!m.endsKey) = true := by
    simp [not_endsKey_mark]
  have hvalue : (value.toList.map mark).dropWhile Mark.isBlank = value.toList.map mark := by
    cases value.toList <;> simp [not_isBlank_mark]
  obtain ⟨hk, hv⟩ := Entry.pushes_key [] [] (marks (Line.pair key value).chars)
  rw [hmarks, List.takeWhile_append_of_pos hkey] at hk
  rw [hmarks, List.dropWhile_append_of_pos hkey] at hv
  rw [hmarks]
  constructor
  · simpa [Mark.endsKey, isSeparator] using hk
  · simpa [Mark.endsKey, Entry.valueMarks, isSeparator, isBlank, hvalue] using hv

/-! ## The pass over a written line -/

/-- A character that neither ends a line nor may be part of a line end is a sign of its own. -/
theorem signs_cons (hn : c ≠ '\n') (hr : c ≠ '\r') : signs (c :: r) = .char c :: signs r := by
  rw [signs.eq_3 _ _ (fun _ hc _ => hr hc) hn]

theorem signs_append {l : List Char} (h : ∀ c ∈ l, c ≠ '\n' ∧ c ≠ '\r') :
    signs (l ++ r) = l.map .char ++ signs r := by
  induction l with
  | nil => rfl
  | cons c l ih =>
    have ⟨hn, hr⟩ := h c (by simp)
    simp [signs_cons hn hr, ih fun d hd => h d (by simp [hd])]

/-- Nothing that is written ends a line. -/
theorem mem_escape (s : String) : ∀ c ∈ escape s, c ≠ '\n' ∧ c ≠ '\r' := by
  intro c hc
  obtain ⟨d, -, hc⟩ := List.mem_flatMap.1 hc
  obtain ⟨e, -, hn, hr, -, hchar, -⟩ | ⟨-, hn, hr, -, -, -, -, hchar, -⟩ := escapeChar_cases d
  · rw [hchar] at hc
    simp only [List.mem_cons, List.not_mem_nil, or_false] at hc
    obtain rfl | rfl := hc
    · decide
    · exact ⟨hn, hr⟩
  · rw [hchar, List.mem_singleton] at hc
    exact hc ▸ ⟨hn, hr⟩

/-- A written pair begins with neither a blank nor the sign of a comment. -/
theorem dropBlanks_pair (key value : String) :
    dropBlanks (Line.pair key value).chars = (Line.pair key value).chars ∧
      isIdle (Line.pair key value).chars = false := by
  rw [Line.chars, escape]
  cases key.toList with
  | nil => exact ⟨rfl, rfl⟩
  | cons c s =>
    obtain ⟨d, -, -, -, -, hchar, -⟩ | ⟨-, -, -, hblank, -, hhash, hmark, hchar, -⟩ :=
      escapeChar_cases c
    · simp [hchar, dropBlanks, Text.dropStart, isBlank, isIdle]
    · simp [hchar, dropBlanks, Text.dropStart, hblank, isIdle, hhash, hmark]

theorem scan_pair (key value : String) (r : List Char) :
    scan .fresh (signs ((Line.pair key value).chars ++ '\n' :: r)) =
      Entry.pushes {} (marks (Line.pair key value).chars) :: scan .fresh (signs r) := by
  have hplain : ∀ c ∈ (Line.pair key value).chars, c ≠ '\n' ∧ c ≠ '\r' := by
    intro c hc
    rw [Line.chars, List.mem_append, List.mem_cons] at hc
    obtain hc | rfl | hc := hc
    · exact mem_escape key c hc
    · decide
    · exact mem_escape value c hc
  have hclosed : isOpen (Line.pair key value).chars = false := by
    have hvalue := isOpen_escape_append (r := []) value
    rw [List.append_nil, isOpen_nil] at hvalue
    rw [Line.chars, isOpen_escape_append, isOpen_plain (by decide), hvalue]
  obtain ⟨hblanks, hidle⟩ := dropBlanks_pair key value
  rw [signs_append hplain, signs, scan_fresh, hblanks, hidle, if_neg Bool.false_ne_true, scan_line,
    hclosed, if_neg Bool.false_ne_true]
  rfl

theorem scan_blanks (blanks : Blanks) (r : List Char) :
    scan .fresh (signs (blanks.val ++ r)) = scan .fresh (signs r) := by
  obtain ⟨l, h⟩ := blanks
  have hplain : ∀ c ∈ l, c ≠ '\n' ∧ c ≠ '\r' := by
    rintro c hc
    constructor <;> rintro rfl <;> exact absurd (h _ hc) (by decide)
  rw [signs_append hplain]
  clear hplain
  induction l with
  | nil => rfl
  | cons c l ih =>
    simpa [scan, Mode.next, h c (by simp)] using ih fun d hd => h d (by simp [hd])

/-- A comment is dropped up to its line feed, backslashes and all. -/
theorem scan_comment {l : List Char} (h : '\n' ∉ l) (r : List Char) :
    scan .dropped (signs (l ++ '\n' :: r)) = scan .fresh (signs r) := by
  induction l with
  | nil => rfl
  | cons c l ih =>
    obtain ⟨hc, hl⟩ := not_or.1 (mt List.mem_cons.2 h)
    by_cases hr : c = '\r'
    · -- a carriage return in front of the line feed is part of the line end
      cases l with
      | nil => exact hr ▸ rfl
      | cons d l =>
        have hd : d ≠ '\n' := fun hd => hl (by simp [hd])
        rw [List.cons_append, List.cons_append,
          signs.eq_3 _ _ (fun _ _ h => hd (by simp_all)) (Ne.symm hc)]
        simpa [scan, Mode.next] using ih hl
    · rw [List.cons_append, signs_cons (Ne.symm hc) hr]
      simpa [scan, Mode.next] using ih hl

/-- **The pass over a written text** — a pair is one entry with what was written, and any other line is
passed over. -/
theorem scan_write (ls : List Line) :
    (scan .fresh (signs (writeChars ls))).map (fun e => (meaning e.key, meaning e.value)) =
      pairs ls := by
  induction ls with
  | nil => rfl
  | cons l ls ih =>
    rw [writeChars_cons]
    cases l with
    | pair key value =>
      obtain ⟨hkey, hvalue⟩ := pushes_pair key value
      rw [scan_pair, List.map_cons, hkey, hvalue, meaning_map_mark, meaning_map_mark, ih, pairs_pair]
    | blank blanks carriage =>
      rw [Line.chars, List.append_assoc, scan_blanks]
      cases carriage <;> exact ih
    | comment blanks sign text =>
      obtain ⟨text, htext⟩ := text
      rw [Line.chars, List.append_assoc, scan_blanks]
      obtain ⟨_, rfl | rfl⟩ := sign
      all_goals
        rw [List.cons_append, signs_cons (by decide) (by decide)]
        simpa [scan, Mode.next, isBlank, scan_comment htext] using ih

end OnePass

/-- **Every key and value can be written and read back** — for all strings as keys and values, and with
blank lines and comments anywhere between the pairs: what is read from the written text is the pairs,
of which a later one overrides an earlier one with its key. -/
theorem read_write (ls : List Line) :
    read (write ls) = Table.ofList (pairs ls) ∧
      ∀ key, (read (write ls)).get? key = ((pairs ls).reverse.find? (·.1 = key)).map (·.2) := by
  have h : read (write ls) = Table.ofList (pairs ls) := by
    rw [read, OnePass.entries_eq, write, String.toList_ofList, OnePass.entries, OnePass.scan_write]
  exact ⟨h, fun key => by rw [h, Table.get?_ofList]⟩

/-- A comment that ends in a backslash has no next line, and a value may end in one. -/
example :
    write [.pair "a b" "c:\\", .comment ⟨[' '], by simp [isBlank]⟩ ⟨'#', .inl rfl⟩ ⟨['\\'], by simp⟩,
      .pair "" "\n"] = "a\\ b=c\\:\\\\\n #\\\n=\\n\n" := by
  decide +kernel

end QueryPress.Properties
