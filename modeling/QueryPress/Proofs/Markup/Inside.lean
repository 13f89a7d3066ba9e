import QueryPress.Markup.Page.Reader
import QueryPress.Proofs.Text.Reading

/-!
# Proofs/Markup/Inside — expressions stay inside the tag they are written in

`tagEnd?` finds the end of a tag without reading what it says: behind the first closing brace outside
of quotes, if no opening brace and no back quote comes before it.  Whatever the grammar reads as an
expression keeps that end where it is (`keeps_expression`), for only quotes can hide a brace.
-/

namespace QueryPress

open Reader

/-! ## The end of a tag -/

/-- **Where a tag ends** whose text continues like this, with the quote of the name that it is in. -/
def tagEnd? : (quote : Option Char) → List Char → Option (List Char)
  | _, [] => none
  | none, c :: r =>
    if c = '\x7d' then some r
    else if c = '\x7b' || c = '\x60' then none
    else if c = '"' || c = '\'' then tagEnd? (some c) r
    else tagEnd? none r
  | some q, c :: r =>
    if c = '\x7b' then none else if c = q then tagEnd? none r else tagEnd? (some q) r

/-- A character that is neither a brace nor a quote. -/
def isOrdinary (c : Char) : Bool := ! ['\x7b', '\x7d', '"', '\'', '\x60'].contains c

/-- A text stands in a tag that ends with what is left of the text. -/
def InTag (rest : List Char) (s : List Char) : Prop := tagEnd? none s = some rest

variable {α : Type} {s r rest l : List Char} {c q : Char} {x : Char → Bool} {t : String}
  {o : Option Char}

/-- What a tag says is free of opening braces. -/
theorem exists_of_tagEnd? : ∀ {s : List Char} {o : Option Char}, tagEnd? o s = some rest →
    ∃ u, s = u ++ rest ∧ '\x7b' ∉ u ∧ u ≠ []
  | [], o, h => by cases o <;> cases h
  | c :: s, none, h => by
    rw [tagEnd?] at h
    split at h
    · obtain rfl := Option.some.inj h
      exact ⟨[c], rfl, by simp [*], by simp⟩
    · split at h
      · cases h
      · rename_i hbrace
        obtain ⟨hc, -⟩ : c ≠ '\x7b' ∧ c ≠ '\x60' := by simpa using hbrace
        have htail : ∃ u, s = u ++ rest ∧ '\x7b' ∉ u := by
          split at h <;> exact (exists_of_tagEnd? h).imp fun u hu => ⟨hu.1, hu.2.1⟩
        obtain ⟨u, rfl, hu⟩ := htail
        exact ⟨c :: u, rfl, by simp [hu, Ne.symm hc], by simp⟩
  | c :: s, some q, h => by
    rw [tagEnd?] at h
    split at h
    · cases h
    · have htail : ∃ u, s = u ++ rest ∧ '\x7b' ∉ u := by
        split at h <;> exact (exists_of_tagEnd? h).imp fun u hu => ⟨hu.1, hu.2.1⟩
      obtain ⟨u, rfl, hu⟩ := htail
      exact ⟨c :: u, rfl, by simp [eq_comm, *], by simp⟩

/-! ## What ordinary characters and names in quotes do to it -/

theorem tagEnd?_ordinary (hl : l.all isOrdinary = true) :
    tagEnd? none (l ++ r) = tagEnd? none r := by
  induction l with
  | nil => rfl
  | cons c l ih =>
    rw [List.all_cons, Bool.and_eq_true] at hl
    obtain ⟨hc, hl⟩ := hl
    simp only [isOrdinary, List.contains_cons, List.contains_nil, Bool.or_false, Bool.not_eq_true',
      Bool.or_eq_false_iff, beq_eq_false_iff_ne, ne_eq] at hc
    simp [tagEnd?, hc, ih hl]

/-- A name in quotes is passed over, unless the tag has no end. -/
theorem tagEnd?_quoted (hl : ∀ c ∈ l, c ≠ q) (h : tagEnd? (some q) (l ++ q :: r) = some rest) :
    tagEnd? none r = some rest := by
  induction l with
  | nil =>
    rw [List.nil_append, tagEnd?] at h
    split at h
    · cases h
    · simpa using h
  | cons c l ih =>
    obtain ⟨hc, hl⟩ := List.forall_mem_cons.1 hl
    rw [List.cons_append, tagEnd?, if_neg hc] at h
    split at h
    · cases h
    · exact ih hl h

/-! ## What is read inside a tag -/

theorem keeps_word (ht : t.toList.all isOrdinary = true) : Keeps (InTag rest) (word t) := by
  intro s u r h hs
  rw [word_eq_some.1 h, InTag, tagEnd?_ordinary ht] at hs
  exact hs

theorem keeps_charWhere (hx : ∀ c, x c = true → isOrdinary c = true) :
    Keeps (InTag rest) (charWhere x) := by
  intro s c r h hs
  obtain ⟨hc, rfl⟩ := charWhere_eq_some.1 h
  rw [InTag, ← List.singleton_append, tagEnd?_ordinary (by simpa using hx c hc)] at hs
  exact hs

theorem keeps_run (hx : ∀ c, x c = true → isOrdinary c = true) : Keeps (InTag rest) (run x) := by
  intro s l r h hs
  obtain ⟨rfl, hl, -⟩ := run_eq_some.1 h
  rw [InTag, tagEnd?_ordinary (List.all_eq_true.2 fun c hc => hx c (hl c hc))] at hs
  exact hs

theorem keeps_run1 (hx : ∀ c, x c = true → isOrdinary c = true) : Keeps (InTag rest) (run1 x) := by
  intro s l r h
  obtain ⟨-, hrun⟩ := run1_eq_some.1 h
  exact keeps_run hx s l r (run_eq_some.2 hrun)

theorem isOrdinary_of_not (hx : ['\x7b', '\x7d', '"', '\'', '\x60'].any x = false) (c : Char)
    (hc : x c = true) : isOrdinary c = true := by
  rw [isOrdinary, Bool.not_eq_true', ← Bool.not_eq_true, List.contains_iff_mem]
  intro hmem
  rw [List.any_eq_true.2 ⟨c, hmem, hc⟩] at hx
  cases hx

theorem keeps_gap : Keeps (InTag rest) gap := by
  intro s u r h
  obtain ⟨g, hg⟩ := gap_eq_some.1 h
  exact keeps_run (isOrdinary_of_not (by decide)) s g r (run_eq_some.2 hg)

theorem keeps_gap1 : Keeps (InTag rest) gap1 :=
  (keeps_run1 (isOrdinary_of_not (by decide))).bind fun _ => .pure _

theorem keeps_token {p : Reader α} (hp : Keeps (InTag rest) p) : Keeps (InTag rest) (token p) :=
  hp.bind fun _ => keeps_gap.bind fun _ => .pure _

theorem keeps_symbol (ht : t.toList.all isOrdinary = true) :
    Keeps (InTag rest) (symbol t) := keeps_token (keeps_word ht)

namespace Grammar

/-! ## The grammar of expressions -/

theorem keeps_name : Keeps (InTag rest) name :=
  (keeps_charWhere (isOrdinary_of_not (by decide))).bind fun _ =>
    (keeps_run (isOrdinary_of_not (by decide))).map

theorem quotedBy_eq_some {n : String} :
    quotedBy q s = some (n, r) ↔ s = q :: (n.toList ++ q :: r) ∧ q ∉ n.toList := by
  constructor
  · intro h
    obtain ⟨c, s₁, hc, h₁⟩ := bind_eq_some.1 h
    obtain ⟨l, s₂, hl, h₂⟩ := bind_eq_some.1 h₁
    obtain ⟨d, s₃, hd, h₃⟩ := bind_eq_some.1 h₂
    obtain ⟨hcq, rfl⟩ := charWhere_eq_some.1 hc
    obtain ⟨rfl, hne, -⟩ := run_eq_some.1 hl
    obtain ⟨hdq, rfl⟩ := charWhere_eq_some.1 hd
    obtain ⟨rfl, rfl⟩ := pure_eq_some.1 h₃
    rw [eq_of_beq hcq, eq_of_beq hdq, String.toList_ofList]
    exact ⟨rfl, fun hq => by simpa using hne q hq⟩
  · rintro ⟨rfl, hout⟩
    have hrun : run (· != q) (n.toList ++ q :: r) = some (n.toList, q :: r) :=
      run_append (fun c hc => by simpa using fun heq : c = q => hout (heq ▸ hc)) (by simp)
    refine bind_eq_some.2 ⟨q, _, charWhere_eq_some.2 ⟨beq_self_eq_true q, rfl⟩, ?_⟩
    refine bind_eq_some.2 ⟨_, _, hrun, ?_⟩
    refine bind_eq_some.2 ⟨q, r, charWhere_eq_some.2 ⟨beq_self_eq_true q, rfl⟩, ?_⟩
    rw [String.ofList_toList]
    rfl

theorem keeps_dottedName : Keeps (InTag rest) dottedName :=
  keeps_name.bind fun _ => (Keeps.many ((keeps_word (by decide)).bind fun _ =>
    (keeps_run1 (isOrdinary_of_not (by decide))).map)).map

/-- **A name in quotes keeps the end of the tag**, since a back quote would hide it. -/
theorem keeps_quotedBy (hq : q = '"' ∨ q = '\'' ∨ q = '\x60') :
    Keeps (InTag rest) (quotedBy q) := by
  intro s n r h hs
  obtain ⟨rfl, hout⟩ := quotedBy_eq_some.1 h
  have hne : ∀ c ∈ n.toList, c ≠ q := fun c hc heq => hout (heq ▸ hc)
  rcases hq with rfl | rfl | rfl
  · exact tagEnd?_quoted hne (by simpa [InTag, tagEnd?] using hs)
  · exact tagEnd?_quoted hne (by simpa [InTag, tagEnd?] using hs)
  · simp [InTag, tagEnd?] at hs

theorem keeps_quoted : Keeps (InTag rest) quoted :=
  (keeps_quotedBy (.inl rfl)).orElse
    ((keeps_quotedBy (.inr (.inl rfl))).orElse (keeps_quotedBy (.inr (.inr rfl))))

theorem keeps_text : Keeps (InTag rest) text := keeps_quoted.map

theorem keeps_wholeDigits : Keeps (InTag rest) wholeDigits :=
  ((keeps_word (by decide)).bind fun _ => .pure _).orElse
    ((keeps_charWhere (isOrdinary_of_not (by decide))).bind fun _ =>
      (keeps_run (isOrdinary_of_not (by decide))).map)

theorem keeps_double : Keeps (InTag rest) double :=
  (Keeps.given (keeps_word (by decide))).bind fun _ => keeps_wholeDigits.bind fun _ =>
    (keeps_word (by decide)).bind fun _ => (keeps_run1 (isOrdinary_of_not (by decide))).bind fun _ =>
      .lift _

theorem keeps_integer : Keeps (InTag rest) integer :=
  (Keeps.given (keeps_word (by decide))).bind fun _ => keeps_wholeDigits.bind fun _ =>
    .ite (.pure _) .failure

theorem keeps_number : Keeps (InTag rest) number := (keeps_double.orElse keeps_integer).map

theorem keeps_boolean : Keeps (InTag rest) boolean := by
  have htrue : Keeps (InTag rest) (word "true" <|> word "True") :=
    (keeps_word (by decide)).orElse (keeps_word (by decide))
  have hfalse : Keeps (InTag rest) (word "false" <|> word "False") :=
    (keeps_word (by decide)).orElse (keeps_word (by decide))
  exact ((htrue.bind fun _ => .pure true).orElse (hfalse.bind fun _ => .pure false)).map

theorem keeps_literally {p : Reader Json} (hp : Keeps (InTag rest) p) :
    Keeps (InTag rest) (literally p) := (keeps_token hp).map

theorem keeps_connective (ht : t.toList.all isOrdinary = true) :
    Keeps (InTag rest) (connective t) :=
  keeps_token ((keeps_word ht).bind fun _ =>
    (keeps_charWhere (isOrdinary_of_not (by decide))).bind fun _ => .pure _)

theorem keeps_separated {p : Reader α} (hp : Keeps (InTag rest) p) :
    Keeps (InTag rest) (separated p) :=
  (Keeps.maybe ((hp.sepBy1 (keeps_symbol (by decide))).bind fun _ =>
    (Keeps.given (keeps_symbol (by decide))).bind fun _ => .pure _)).map

theorem keeps_operation : Keeps (InTag rest) operation :=
  ((keeps_symbol (by decide)).bind fun _ => .pure _).orElse
    (((keeps_symbol (by decide)).bind fun _ => .pure _).orElse
      ((keeps_symbol (by decide)).bind fun _ => .pure _))

theorem keeps_comparison : Keeps (InTag rest) comparison := by
  have hsign : ∀ (t : String) (op : Comparison), t.toList.all isOrdinary = true →
      Keeps (InTag rest) (do symbol t; return op) := fun t op ht =>
    (keeps_symbol ht).bind fun _ => .pure op
  exact (hsign "<=" _ (by decide)).orElse ((hsign ">=" _ (by decide)).orElse
    ((hsign ">" _ (by decide)).orElse ((hsign "<" _ (by decide)).orElse
      ((hsign "==" _ (by decide)).orElse (hsign "!=" _ (by decide))))))

section

/-! Each level keeps what the readers do that it is given. -/

variable {basic argument logic : Reader Expr} (hb : Keeps (InTag rest) basic)
  (ha : Keeps (InTag rest) argument) (hl : Keeps (InTag rest) logic)

include ha

theorem keeps_arguments : Keeps (InTag rest) (arguments argument) :=
  (keeps_symbol (by decide)).bind fun _ =>
    (keeps_separated ((keeps_token keeps_name).bind fun _ => (keeps_symbol (by decide)).bind fun _ =>
      ha.map)).bind fun _ => (keeps_symbol (by decide)).bind fun _ => .pure _

theorem keeps_functionCall : Keeps (InTag rest) (functionCall argument) :=
  (keeps_token keeps_name).bind fun _ => (keeps_arguments ha).map

theorem keeps_macroCall : Keeps (InTag rest) (macroCall argument) :=
  (keeps_token keeps_name).bind fun _ => (keeps_symbol (by decide)).bind fun _ =>
    (keeps_token keeps_name).bind fun _ => (keeps_arguments ha).map

theorem keeps_filtersOf (e : Expr) : Keeps (InTag rest) (filtersOf argument e) :=
  (Keeps.many ((keeps_symbol (by decide)).bind fun _ => (keeps_token keeps_name).bind fun _ =>
    (Keeps.maybe (keeps_arguments ha)).map)).map

theorem keeps_textPart : Keeps (InTag rest) (textPart argument) :=
  (keeps_functionCall ha).orElse ((keeps_literally keeps_number).orElse
    ((keeps_literally keeps_text).orElse (keeps_token keeps_dottedName)))

theorem keeps_filteredText : Keeps (InTag rest) (filteredText argument) := by
  have hjoined : Keeps (InTag rest) (many1 (do symbol "~"; textPart argument)) :=
    Keeps.many1 ((keeps_symbol (by decide)).bind fun _ => keeps_textPart ha)
  exact (((keeps_textPart ha).bind fun _ => hjoined.map).orElse (keeps_literally keeps_text)).bind
    fun e => keeps_filtersOf ha e

include hb

theorem keeps_operand : Keeps (InTag rest) (operand basic argument) :=
  ((keeps_symbol (by decide)).bind fun _ => hb.bind fun _ => (keeps_symbol (by decide)).bind
    fun _ => .pure _).orElse
  ((keeps_literally keeps_boolean).orElse ((keeps_macroCall ha).orElse
    ((keeps_functionCall ha).orElse ((keeps_token keeps_dottedName).orElse
      (keeps_literally keeps_number)))))

omit hb ha in
theorem keeps_sum {p : Reader Expr} (hp : Keeps (InTag rest) p) : Keeps (InTag rest) (sum p) :=
  hp.bind fun _ => (Keeps.many (keeps_operation.bind fun _ => hp.map)).map

theorem keeps_filteredSum : Keeps (InTag rest) (filteredSum basic argument) :=
  (keeps_sum (keeps_operand hb ha)).bind fun e => keeps_filtersOf ha e

theorem keeps_side : Keeps (InTag rest) (side basic argument) :=
  (keeps_filteredText ha).orElse (keeps_sum (keeps_filteredSum hb ha))

theorem keeps_compared : Keeps (InTag rest) (compared basic argument) := by
  refine (keeps_side hb ha).bind fun l => (Keeps.maybe (keeps_comparison.bind fun _ =>
    (keeps_side hb ha).map)).bind fun r => ?_
  split
  · exact .pure _
  · exact .pure _

include hl

theorem keeps_judgement : Keeps (InTag rest) (judgement basic argument logic) :=
  ((Keeps.given (keeps_connective (by decide))).bind fun _ => (keeps_compared hb ha).map).orElse
    ((keeps_symbol (by decide)).bind fun _ => hl.bind fun _ => (keeps_symbol (by decide)).bind
      fun _ => .pure _)

theorem keeps_judgements : Keeps (InTag rest) (judgements basic argument logic) := by
  have hword : Keeps (InTag rest) ((do connective "or"; return false)
      <|> (do connective "and"; return true) : Reader Bool) :=
    ((keeps_connective (by decide)).bind fun _ => .pure _).orElse
      ((keeps_connective (by decide)).bind fun _ => .pure _)
  exact (keeps_judgement hb ha hl).bind fun _ =>
    (Keeps.many (hword.bind fun _ => (keeps_judgement hb ha hl).map)).map

theorem keeps_filteredArray : Keeps (InTag rest) (filteredArray basic argument logic) :=
  (keeps_symbol (by decide)).bind fun _ => (keeps_separated (keeps_judgement hb ha hl)).bind fun _ =>
    (keeps_symbol (by decide)).bind fun _ => keeps_filtersOf ha _

end

/-- Expressions of every kind keep the end of the tag, however deep they are nested. -/
theorem keeps_levels : ∀ n : Nat, Keeps (InTag rest) (basicTo n) ∧
    Keeps (InTag rest) (argumentTo n) ∧ Keeps (InTag rest) (logicTo n)
  | 0 => ⟨.failure, .failure, .failure⟩
  | n + 1 => by
    obtain ⟨hb, ha, hl⟩ := keeps_levels n
    exact ⟨keeps_sum (keeps_operand hb ha),
      (keeps_judgements hb ha hl).orElse (keeps_filteredArray hb ha hl), keeps_judgements hb ha hl⟩

/-- **An expression keeps the end of the tag.** -/
theorem keeps_expression : Keeps (InTag rest) expression := fun s =>
  (keeps_levels (s.length + 1)).2.1 s

theorem keeps_condition : Keeps (InTag rest) condition := fun s =>
  (keeps_levels (s.length + 1)).2.2 s

theorem keeps_container : Keeps (InTag rest) container := fun s =>
  have ⟨hb, ha, hl⟩ := keeps_levels (s.length + 1)
  ((keeps_filteredSum hb ha).orElse (keeps_filteredArray hb ha hl)) s

theorem keeps_literal : Keeps (InTag rest) literal :=
  keeps_boolean.orElse (keeps_text.orElse keeps_number)

end Grammar

end QueryPress
