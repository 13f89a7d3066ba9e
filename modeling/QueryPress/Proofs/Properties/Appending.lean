import QueryPress.Proofs.Properties.OnePass

/-!
# Proofs/Properties/Appending — a text of properties that is put behind another overrides it

To put one text behind another is to add entries: the first text keeps the entries that it has, whatever
comes behind it, and the second overrides them.  The one thing that can go wrong is an entry that the
first text leaves open, because its last line is escaped at the end; that entry takes up the first line
of the second text.  `read_append_iff` says that nothing else can.

Whether a line is joined to the next one is asked of all that was joined so far, and
`isOpen_append` makes it a question to the last of the lines alone, from which all the rest follows.
-/

namespace QueryPress.Properties

variable {line next : List Char} {ls ms rest : List (List Char)} {before : Bool}

/-- **Whether the last entry of some lines goes on in a next line** — it does if a line that belongs to an
entry ends in an odd number of backslashes.  A blank line and a comment belong to none, unless the line
before them has left its entry open. -/
def leavesOpen (before : Bool) : List (List Char) → Bool
  | [] => before
  | line :: rest => leavesOpen ((before || ! isIdle (dropBlanks line)) && isOpen line) rest

/-! ## Lines -/

/-- **Lines stay lines** whatever comes behind them, if the last one has its line feed. -/
theorem lines_append {a : List Char} (b : List Char) (h : a = [] ∨ a.getLast? = some '\n') :
    lines (a ++ b) = lines a ++ lines b := by
  have hrest {c : Char} {r : List Char} (h : c :: r = [] ∨ (c :: r).getLast? = some '\n') :
      r = [] ∨ r.getLast? = some '\n' := by
    cases r with
    | nil => exact .inl rfl
    | cons d r => simpa using h
  fun_induction lines a with
  | case1 => rfl
  | case2 r ih =>
    simp only [List.cons_append, lines, ih (hrest (hrest h))]
  | case3 r ih =>
    simp only [List.cons_append, lines, ih (hrest h)]
  | case4 c r _ hlf hlines ih =>
    obtain rfl := OnePass.lines_eq_nil hlines
    exact absurd (by simpa using h) hlf
  | case5 c r hcrlf hlf l ls hlines ih =>
    have hr : r ≠ [] := by
      rintro rfl
      cases hlines
    have hcrlf' : ∀ s, c = '\r' → r ++ b = '\n' :: s → False := by
      intro s hc hs
      obtain ⟨d, r, rfl⟩ := List.exists_cons_of_ne_nil hr
      exact hcrlf r hc (by rw [(List.cons.inj hs).1])
    rw [List.cons_append, lines.eq_4 _ _ hcrlf' hlf, ih (hrest h), hlines]
    rfl

/-! ## Whether a line is open -/

/-- **Behind a line that is not open** the line end is escaped or not as it would be on its own. -/
theorem isOpen_append (l : List Char) (h : isOpen line = false) :
    isOpen (line ++ l) = isOpen l := by
  induction line using OnePass.escapes_induction with
  | nil => rfl
  | lone => cases h
  | escape c r ih => simpa using ih (by simpa using h)
  | plain c r hc ih => simpa [hc] using ih (by simpa [hc] using h)

theorem isOpen_dropBlanks (l : List Char) : isOpen (dropBlanks l) = isOpen l := by
  induction l with
  | nil => rfl
  | cons c l ih =>
    rw [OnePass.dropBlanks_cons]
    cases hc : isBlank c with
    | true => simp [OnePass.ne_backslash_of_isBlank hc, ih]
    | false => rfl

/-- **A line that has been joined to an open one** goes on or not as it would on its own. -/
theorem isOpen_joined (next : List Char) (h : isOpen line = true) :
    isOpen (line.dropLast ++ dropBlanks next) = isOpen next := by
  rw [isOpen_append _ (OnePass.dropLast_of_isOpen h).1, isOpen_dropBlanks]

theorem joined_of_not_isOpen (h : isOpen line = false) (rest : List (List Char)) :
    joined line rest = (line, rest) := by
  cases rest <;> simp [joined, h]

theorem joined_cons_of_isOpen (h : isOpen line = true) (next : List Char) (rest : List (List Char)) :
    joined line (next :: rest) = joined (line.dropLast ++ dropBlanks next) rest := by
  simp [joined, h]

/-! ## Entries of lines behind lines -/

/-- **An entry that is not left open** is joined from its own lines, whatever comes behind them. -/
theorem joined_append (ms : List (List Char)) (h : leavesOpen (isOpen line) rest = false) :
    joined line (rest ++ ms) = ((joined line rest).1, (joined line rest).2 ++ ms) ∧
      leavesOpen false (joined line rest).2 = false := by
  induction rest generalizing line with
  | nil =>
    rw [leavesOpen] at h
    simp [joined_of_not_isOpen h, leavesOpen]
  | cons next rest ih =>
    cases hopen : isOpen line with
    | true =>
      rw [leavesOpen, hopen, Bool.true_or, Bool.true_and, ← isOpen_joined next hopen] at h
      rw [List.cons_append, joined_cons_of_isOpen hopen, joined_cons_of_isOpen hopen]
      exact ih h
    | false =>
      rw [hopen] at h
      rw [joined_of_not_isOpen hopen, joined_of_not_isOpen hopen]
      exact ⟨rfl, h⟩

theorem leavesOpen_cons_of_not_isIdle (h : isIdle (dropBlanks line) = false) :
    leavesOpen false (line :: rest) = leavesOpen (isOpen (dropBlanks line)) rest := by
  rw [leavesOpen, h, isOpen_dropBlanks]
  rfl

theorem leavesOpen_cons_of_isIdle (h : isIdle (dropBlanks line) = true) :
    leavesOpen false (line :: rest) = leavesOpen false rest := by
  rw [leavesOpen, h]
  rfl

/-- **Lines keep their entries**, whatever lines come behind them, if they leave none open. -/
theorem entryLines_append (ms : List (List Char)) (h : leavesOpen false ls = false) :
    entryLines (ls ++ ms) = entryLines ls ++ entryLines ms := by
  induction ls using entryLines.induct with
  | case1 => simp [entryLines]
  | case2 line rest hidle ih =>
    rw [leavesOpen_cons_of_isIdle hidle] at h
    simp [entryLines, hidle, ih h]
  | case3 line rest hidle ih =>
    rw [Bool.not_eq_true] at hidle
    rw [leavesOpen_cons_of_not_isIdle hidle] at h
    obtain ⟨hjoined, hrest⟩ := joined_append ms h
    simp [entryLines, hidle, hjoined, ih hrest]

/-- The entries of one text behind another. -/
theorem entries_append {a : List Char} (b : List Char) (hended : a = [] ∨ a.getLast? = some '\n')
    (hclosed : leavesOpen false (lines a) = false) : entries (a ++ b) = entries a ++ entries b := by
  rw [entries, lines_append b hended, entryLines_append _ hclosed, List.map_append]
  rfl

/-! ## An entry that is left open -/

/-- **An open entry takes up the next line**, unless it is a later entry that is open. -/
theorem joined_append_of_leavesOpen (h : leavesOpen (isOpen line) rest = true) :
    (∃ x, isOpen x = false ∧ joined line rest = (x, []) ∧
      ∀ l, isOpen l = false → joined line (rest ++ [l]) = (x ++ dropBlanks l, [])) ∨
    leavesOpen false (joined line rest).2 = true ∧
      ∀ ms, joined line (rest ++ ms) = ((joined line rest).1, (joined line rest).2 ++ ms) := by
  induction rest generalizing line with
  | nil =>
    rw [leavesOpen] at h
    refine .inl ⟨line.dropLast, (OnePass.dropLast_of_isOpen h).1, by simp [joined, h], fun l hl => ?_⟩
    rw [List.nil_append, joined_cons_of_isOpen h,
      joined_of_not_isOpen ((isOpen_joined l h).trans hl)]
  | cons next rest ih =>
    cases hopen : isOpen line with
    | true =>
      rw [leavesOpen, hopen, Bool.true_or, Bool.true_and, ← isOpen_joined next hopen] at h
      simp only [List.cons_append, joined_cons_of_isOpen hopen]
      exact ih h
    | false =>
      rw [hopen] at h
      refine .inr ⟨?_, fun ms => ?_⟩
      · rwa [joined_of_not_isOpen hopen]
      · rw [joined_of_not_isOpen hopen, joined_of_not_isOpen hopen]

/-- **The last entry takes up the next line** if it has been left open. -/
theorem entryLines_append_of_leavesOpen (h : leavesOpen false ls = true) :
    ∃ es x, isOpen x = false ∧ entryLines ls = es ++ [x] ∧
      ∀ l, isOpen l = false → entryLines (ls ++ [l]) = es ++ [x ++ dropBlanks l] := by
  induction ls using entryLines.induct with
  | case1 => cases h
  | case2 line rest hidle ih =>
    rw [leavesOpen_cons_of_isIdle hidle] at h
    obtain ⟨es, x, hx, heq, hnext⟩ := ih h
    exact ⟨es, x, hx, by simp [entryLines, hidle, heq], fun l hl => by
      simp [entryLines, hidle, hnext l hl]⟩
  | case3 line rest hidle ih =>
    rw [Bool.not_eq_true] at hidle
    rw [leavesOpen_cons_of_not_isIdle hidle] at h
    obtain ⟨x, hx, hjoined, hnext⟩ | ⟨hopen, hjoined⟩ := joined_append_of_leavesOpen h
    · exact ⟨[], x, hx, by simp [entryLines, hidle, hjoined], fun l hl => by
        simp [entryLines, hidle, hnext l hl]⟩
    · obtain ⟨es, x, hx, heq, hnext⟩ := ih hopen
      exact ⟨(joined (dropBlanks line) rest).1 :: es, x, hx, by simp [entryLines, hidle, heq],
        fun l hl => by simp [entryLines, hidle, hjoined, hnext l hl]⟩

namespace OnePass

theorem marks_append (l : List Char) (h : isOpen line = false) :
    marks (line ++ l) = marks line ++ marks l := by
  induction line using escapes_induction with
  | nil => rfl
  | lone => cases h
  | escape c r ih => simpa using ih (by simpa using h)
  | plain c r hc ih => simpa [hc] using ih (by simpa [hc] using h)

/-- So many number signs, which are hidden in a comment and stand for themselves in an entry. -/
def hashes (n : Nat) : List Char := List.replicate n '#'

theorem marks_hashes (n : Nat) : marks (hashes n) = List.replicate n (.plain '#') := by
  induction n with
  | zero => rfl
  | succ n ih => rw [hashes, List.replicate_succ, marks_plain (by decide), ← hashes, ih]; rfl

theorem isOpen_hashes (n : Nat) : isOpen (hashes n) = false := by
  induction n with
  | zero => rfl
  | succ n ih => rw [hashes, List.replicate_succ, isOpen_plain (by decide), ← hashes, ih]

/-- Number signs end neither a key nor a value. -/
theorem pushes_hashes (e : Entry) (n : Nat) :
    (e.pushes (List.replicate n (.plain '#'))).key = e.key ++ List.replicate n (.plain '#') ∨
      (e.pushes (List.replicate n (.plain '#'))).value = e.value ++ List.replicate n (.plain '#') := by
  obtain ⟨part, k, v⟩ := e
  cases part with
  | key =>
    refine .inl ((Entry.pushes_key k v _).1.trans (congrArg (k ++ ·) ?_))
    rw [List.takeWhile_replicate]
    rfl
  | gap =>
    refine .inr ((Entry.pushes_gap k v _).2.trans (congrArg (v ++ ·) ?_))
    cases n <;> rfl
  | lead =>
    refine .inr ((Entry.pushes_lead k v _).2.trans (congrArg (v ++ ·) ?_))
    cases n <;> rfl
  | value => exact .inr (Entry.value_pushes_value k v _).2

/-- A number sign is no digit. -/
theorem fourDigits?_eq_none {a b c d : Char} (h : '#' ∈ [a, b, c, d]) : fourDigits? a b c d = none := by
  have hhash : digit? '#' = none := rfl
  simp only [List.mem_cons, List.not_mem_nil, or_false] at h
  unfold fourDigits?
  obtain rfl | rfl | rfl | rfl := h <;> split <;> simp_all

/-- **Number signs behind marks stand for themselves**, also where four digits were to follow. -/
theorem pieces_append_hashes (ms : List Mark) (n : Nat) :
    pieces (ms ++ List.replicate n (.plain '#')) = pieces ms ++ List.replicate n (.char '#') := by
  have hplain (n : Nat) : pieces (List.replicate n (.plain '#')) = List.replicate n (.char '#') := by
    induction n with
    | zero => rfl
    | succ n ih => rw [List.replicate_succ, pieces, ih, List.replicate_succ]
  fun_induction pieces ms with
  | case1 a b c d r u hu ih => simp [pieces, hu, ih]
  | case2 a b c d r hu ih =>
    simp only [List.cons_append] at ih ⊢
    rw [pieces, hu]
    simp only [ih]
  | case3 c r hr ih =>
    rw [List.cons_append, List.cons_append, ← ih]
    by_cases hc : c = 'u'
    · subst hc
      refine pieces_escaped_u fun a b c d s hs => fourDigits?_eq_none ?_
      -- the marks are too few for four digits, so the last of the four is a number sign
      obtain hfew | hmany := Nat.lt_or_ge r.length 4
      · have hlast : (r ++ List.replicate n (.plain '#'))[3]? = some (.plain d) := by
          rw [hs]
          rfl
        rw [List.getElem?_append_right (by omega)] at hlast
        obtain rfl := Mark.plain.inj (List.eq_of_mem_replicate (List.mem_of_getElem? hlast))
        simp
      · have htake : r.take 4 = [.plain a, .plain b, .plain c, .plain d] := by
          rw [← List.take_append_of_le_length hmany, hs]
          rfl
        have hsplit := r.take_append_drop 4
        rw [htake] at hsplit
        exact (hr a b c d _ hsplit.symm rfl).elim
    · exact pieces_escaped hc
  | case4 c r ih => rw [List.cons_append, pieces, ih, List.cons_append]
  | case5 => exact hplain n

theorem chars_append_hashes (ps : List Piece) (n : Nat) :
    chars (ps ++ List.replicate n (.char '#')) = chars ps ++ hashes n := by
  have hchars (n : Nat) : chars (List.replicate n (.char '#')) = hashes n := by
    induction n with
    | zero => rfl
    | succ n ih => rw [List.replicate_succ, chars, ih, hashes, hashes, List.replicate_succ]
  fun_induction chars ps with
  | case1 u v r hpair ih => simp [chars, hpair, ih]
  | case2 u v r hpair ih =>
    simp only [List.cons_append] at ih ⊢
    rw [chars, if_neg hpair, ih]
  | case3 u r hr ih =>
    have hr' : ∀ v s, r ++ List.replicate n (.char '#') = .unit v :: s → False := by
      intro v s hs
      cases r with
      | nil =>
        have hin : Piece.unit v ∈ List.replicate n (.char '#') := by
          rw [← List.nil_append (List.replicate n _), hs]
          exact List.mem_cons_self
        cases List.eq_of_mem_replicate hin
      | cons p r => exact hr v r (by rw [(List.cons.inj hs).1])
    rw [List.cons_append, chars.eq_2 _ _ hr', ih, List.cons_append]
  | case4 c r ih => rw [List.cons_append, chars, ih, List.cons_append]
  | case5 => exact hchars n

/-- **Number signs behind marks stand at the end of what the marks mean.** -/
theorem meaning_append_hashes (ms : List Mark) (n : Nat) :
    n ≤ (meaning (ms ++ List.replicate n (.plain '#'))).length := by
  rw [meaning, pieces_append_hashes, chars_append_hashes]
  simp [hashes]

/-- **An entry that takes up number signs** has as many in its key or in its value. -/
theorem le_length_entry (h : isOpen line = false) (n : Nat) :
    n ≤ (entry (line ++ hashes n)).1.length ∨ n ≤ (entry (line ++ hashes n)).2.length := by
  have hpushes : Entry.pushes {} (marks (line ++ hashes n))
      = (Entry.pushes {} (marks line)).pushes (List.replicate n (.plain '#')) := by
    rw [marks_append _ h, marks_hashes, Entry.pushes, List.foldl_append]
    rfl
  rw [entry_eq, hpushes]
  refine (pushes_hashes (Entry.pushes {} (marks line)) n).imp (fun hkey => ?_) fun hvalue => ?_
  · rw [hkey]
    exact meaning_append_hashes _ n
  · rw [hvalue]
    exact meaning_append_hashes _ n

end OnePass

/-- Number signs are one line, which is a comment. -/
theorem lines_hashes (n : Nat) : lines (OnePass.hashes (n + 1)) = [OnePass.hashes (n + 1)] := by
  induction n with
  | zero => rfl
  | succ n ih =>
    rw [OnePass.hashes, List.replicate_succ, lines.eq_4 _ _ (by simp) (by decide), ← OnePass.hashes, ih]

theorem entries_hashes (n : Nat) : entries (OnePass.hashes (n + 1)) = [] := by
  have hidle : isIdle (dropBlanks (OnePass.hashes (n + 1))) = true := rfl
  rw [entries, lines_hashes, entryLines, if_pos hidle, entryLines]
  rfl

/-- The keys and values of a table are shorter than some length. -/
theorem exists_length_lt (t : Table String) :
    ∃ n, ∀ k v, t.get? k = some v → k.length < n + 1 ∧ v.length < n + 1 := by
  have hall : ∃ n, ∀ p ∈ t, p.1.length < n + 1 ∧ p.2.length < n + 1 := by
    induction t with
    | nil => exact ⟨0, nofun⟩
    | cons p t ih =>
      obtain ⟨n, hn⟩ := ih
      refine ⟨n + p.1.length + p.2.length, List.forall_mem_cons.2 ⟨by omega, fun q hq => ?_⟩⟩
      have hq := hn q hq
      omega
  obtain ⟨n, hn⟩ := hall
  exact ⟨n, fun k v h => hn (k, v) (Table.mem_of_get? h)⟩

/-- **An entry that is left open takes up what comes behind it**: number signs, which say nothing on their
own, make a key or a value longer than any that was there. -/
theorem exists_get?_append_ne {a : String} (hended : a.toList = [] ∨ a.toList.getLast? = some '\n')
    (hopen : leavesOpen false (lines a.toList) = true) :
    ∃ b key, read b = [] ∧ (read (a ++ b)).get? key ≠ (read a).get? key := by
  obtain ⟨es, x, hx, -, hnext⟩ := entryLines_append_of_leavesOpen hopen
  obtain ⟨n, hn⟩ := exists_length_lt (read a)
  have hentries : entries (a.toList ++ OnePass.hashes (n + 1))
      = es.map entry ++ [entry (x ++ OnePass.hashes (n + 1))] := by
    rw [entries, lines_append _ hended, lines_hashes, hnext _ (OnePass.isOpen_hashes _),
      List.map_append]
    rfl
  have hlast : (read (a ++ String.ofList (OnePass.hashes (n + 1)))).get?
      (entry (x ++ OnePass.hashes (n + 1))).1 = some (entry (x ++ OnePass.hashes (n + 1))).2 := by
    rw [read, String.toList_append, String.toList_ofList, hentries, Table.get?_ofList]
    simp
  refine ⟨String.ofList (OnePass.hashes (n + 1)), (entry (x ++ OnePass.hashes (n + 1))).1, ?_,
    fun heq => ?_⟩
  · rw [read, String.toList_ofList, entries_hashes]
    rfl
  · obtain ⟨hkey, hvalue⟩ := hn _ _ (heq.symm.trans hlast)
    have hlong := OnePass.le_length_entry hx (n + 1)
    omega

/-- **To put a text behind another is to override it**, exactly if the first leaves no entry open.

The first text is empty or ends in a line feed.  If its last entry does not go on behind that, then,
whatever the second text is, every key of the second has the value that the second gives it, and every
other key has that of the first.  If it does, this fails for some second text. -/
theorem read_append_iff {a : String} (hended : a = "" ∨ a.toList.getLast? = some '\n') :
    (∀ b : String, read (a ++ b) = Table.override (read a) (read b) ∧
      ∀ key, (read (a ++ b)).get? key = ((read b).get? key).or ((read a).get? key)) ↔
      leavesOpen false (lines a.toList) = false := by
  have hended' : a.toList = [] ∨ a.toList.getLast? = some '\n' :=
    hended.imp (fun h => by rw [h]; rfl) id
  constructor
  · intro h
    cases hopen : leavesOpen false (lines a.toList) with
    | false => rfl
    | true =>
      obtain ⟨b, key, hb, hne⟩ := exists_get?_append_ne hended' hopen
      have hkey := (h b).2 key
      rw [hb, Table.get?_nil, Option.none_or] at hkey
      exact absurd hkey hne
  · intro hclosed b
    have hread : read (a ++ b) = Table.override (read a) (read b) := by
      rw [read, String.toList_append, entries_append _ hended' hclosed, Table.ofList_append]
      rfl
    refine ⟨hread, fun key => ?_⟩
    rw [hread]
    exact Table.get?_override (Table.inOrder_ofList _) _ key

/-- Behind an entry of two lines and a comment that ends in a backslash. -/
theorem read_append_comment :
    "x = 1\\\n  2\ny = \\\\\n# z \\\n".toList.getLast? = some '\n' ∧
      read ("x = 1\\\n  2\ny = \\\\\n# z \\\n" ++ "x = 3") = [("x", "3"), ("y", "\\")] := by
  refine ⟨by decide, ?_⟩
  have hread := (read_append_iff (a := "x = 1\\\n  2\ny = \\\\\n# z \\\n") (.inr (by decide))).2
    (by decide +kernel) "x = 3"
  rw [hread.1]
  decide +kernel

end QueryPress.Properties
