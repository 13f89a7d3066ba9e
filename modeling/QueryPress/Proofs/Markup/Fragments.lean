import Mathlib.Data.List.Infix
import QueryPress.Proofs.Markup.Beginning
import QueryPress.Proofs.Markup.Naming

/-!
# Proofs/Markup/Fragments — the references of a text that is put together from fragments

A text may be put together from plain texts, comments, raw stretches, values and tags (`Fragment`), of
which some ask for pages (`Asking`).  The reader of references finds in it what these ask for, in order,
and nothing else (`ofText_fragments`).

What is found in a fragment does not depend on what stands behind it (`Fragment.found_append`).  A comment
and a raw stretch end with their own ends, since those do not begin in what stands before; and any other
fragment has no opening brace but its own.  So no fragment begins in one and ends in another, also where
the reader has taken out what stood between them.
-/

namespace QueryPress

open Reader

/-- White space, or none. -/
def Spaces : Type := { s : List Char // ∀ c ∈ s, Text.isSpace c = true }

namespace Reference

variable {keyword : String} {s r l v : List Char} {b : Bool} {u : Unit}

theorem brace_not_mem_spaces (g : Spaces) : '\x7b' ∉ g.1 := fun h =>
  absurd (g.2 _ h) (by decide)

theorem brace_not_mem_dashOf : '\x7b' ∉ dashOf b := by
  cases b <;> decide

/-! ## Tags that say nothing but their word -/

/-- **A tag that says nothing but its word**, with any dashes and white space. -/
structure Bare (keyword : String) where
  before : Bool
  leading : Spaces
  trailing : Spaces
  after : Bool

/-- What stands behind the opening brace of a tag. -/
def Bare.inner (t : Bare keyword) : List Char :=
  '%' :: (dashOf t.before ++ (t.leading.1 ++ (keyword.toList ++
    (t.trailing.1 ++ (dashOf t.after ++ ['%', '\x7d'])))))

/-- A tag as it is written. -/
def Bare.chars (t : Bare keyword) : List Char := '\x7b' :: t.inner

theorem Bare.chars_append (t : Bare keyword) (r : List Char) : t.chars ++ r =
    '\x7b' :: '%' :: (dashOf t.before ++ (t.leading.1 ++ (keyword.toList ++
      (t.trailing.1 ++ (dashOf t.after ++ '%' :: '\x7d' :: r))))) := by
  simp [Bare.chars, Bare.inner]

theorem Bare.brace_not_mem (t : Bare keyword) (hk : '\x7b' ∉ keyword.toList) : '\x7b' ∉ t.inner := by
  simp [Bare.inner, brace_not_mem_dashOf, brace_not_mem_spaces, hk]

theorem dash_eq_some (h : dash s = some (u, r)) : ∃ b, s = dashOf b ++ r := by
  obtain ⟨b, s₁, hgiven, h₁⟩ := bind_eq_some.1 h
  obtain ⟨-, rfl⟩ := pure_eq_some.1 h₁
  exact ⟨b, given_dash hgiven⟩

theorem spaces_eq_some (h : spaces s = some (u, r)) : ∃ g : Spaces, s = g.1 ++ r := by
  obtain ⟨g, s₁, hrun, h₁⟩ := bind_eq_some.1 h
  obtain ⟨-, rfl⟩ := pure_eq_some.1 h₁
  obtain ⟨rfl, hg, -⟩ := run_eq_some.1 hrun
  exact ⟨⟨g, hg⟩, rfl⟩

/-- **What is read as a tag of a word** is one. -/
theorem exists_of_rawTag (h : rawTag keyword s = some (u, r)) :
    ∃ t : Bare keyword, s = t.chars ++ r := by
  obtain ⟨_, s₁, hopen, h₁⟩ := bind_eq_some.1 h
  obtain ⟨_, s₂, hdash, h₂⟩ := bind_eq_some.1 h₁
  obtain ⟨_, s₃, hspaces, h₃⟩ := bind_eq_some.1 h₂
  obtain ⟨_, s₄, hword, h₄⟩ := bind_eq_some.1 h₃
  obtain ⟨_, s₅, hspaces', h₅⟩ := bind_eq_some.1 h₄
  obtain ⟨_, s₆, hdash', hclose⟩ := bind_eq_some.1 h₅
  obtain ⟨before, rfl⟩ := dash_eq_some hdash
  obtain ⟨leading, rfl⟩ := spaces_eq_some hspaces
  obtain ⟨trailing, rfl⟩ := spaces_eq_some hspaces'
  obtain ⟨after, rfl⟩ := dash_eq_some hdash'
  refine ⟨⟨before, leading, trailing, after⟩, ?_⟩
  rw [Bare.chars_append, word_eq_some.1 hopen, word_eq_some.1 hword, word_eq_some.1 hclose]
  rfl

theorem rawTag_append (hk : isWord keyword = true) (t : Bare keyword) (r : List Char) :
    rawTag keyword (t.chars ++ r) = some ((), r) := by
  rw [Bare.chars_append, rawTag, behind_opening hk t.leading.2, bind_of_some (word_append _ _)]
  exact behind_closing t.trailing.2

/-- **The first tag that ends a raw stretch** is the one behind a text in which there is none. -/
theorem before_endraw (hbody : ∀ t : Bare "endraw", ¬ t.chars <:+: l) (last : Bare "endraw") :
    before (rawTag "endraw") (l ++ (last.chars ++ r)) = some (l, last.chars ++ r) := by
  refine before_eq_some.2 ⟨rfl, ⟨_, rawTag_append (by decide) last r⟩, fun x v hl hv => ?_⟩
  cases h : rawTag "endraw" (v ++ (last.chars ++ r)) with
  | none => rfl
  | some found =>
    exfalso
    obtain ⟨t, ht⟩ := exists_of_rawTag h
    obtain ⟨w, hvt, -⟩ | ⟨w, htv, hlast⟩ := List.append_eq_append_iff.1 ht.symm
    · -- the tag lies in the text
      exact hbody t ⟨x, w, by rw [hl, hvt, List.append_assoc]⟩
    · cases w with
      | nil => exact hbody t ⟨x, [], by rw [hl, htv, List.append_nil, List.append_nil]⟩
      | cons d w =>
        -- the tag goes on into the one behind the text, whose opening brace it would have in it
        obtain ⟨c, v, rfl⟩ := List.exists_cons_of_ne_nil hv
        obtain rfl : '\x7b' = d := (List.cons.inj hlast).1
        have hinner : t.inner = v ++ '\x7b' :: w := (List.cons.inj htv).2
        exact t.brace_not_mem (by decide) (by simp [hinner])

/-- Where no tag is read there is none. -/
theorem not_infix_of_before (hk : isWord keyword = true) (h : before (rawTag keyword) l = none)
    (t : Bare keyword) : ¬ t.chars <:+: l := by
  rintro ⟨x, y, rfl⟩
  have hsome : (before (rawTag keyword) (x ++ (t.chars ++ y))).isSome = true :=
    before_isSome (by rw [rawTag_append hk]; rfl)
  rw [← List.append_assoc, h] at hsome
  cases hsome

/-! ## Tags that ask for pages -/

/-- The quotes that count. -/
inductive Quote
  | double
  | single

/-- The character of a quote. -/
def Quote.char : Quote → Char
  | double => '"'
  | single => '\''

theorem Quote.char_eq : ∀ q : Quote, q.char = '"' ∨ q.char = '\''
  | double => .inl rfl
  | single => .inr rfl

/-- **A name in quotes**, not empty and without its quote. -/
structure Quoted where
  quote : Quote
  name : String
  nonempty : name ≠ ""
  own : quote.char ∉ name.toList
  brace : '\x7b' ∉ name.toList

/-- A name as it is written. -/
def Quoted.chars (n : Quoted) : List Char := n.quote.char :: (n.name.toList ++ [n.quote.char])

theorem Quoted.brace_not_mem (n : Quoted) : '\x7b' ∉ n.chars := by
  have hquote : '\x7b' ≠ n.quote.char := by
    rcases n.quote.char_eq with h | h <;> rw [h] <;> decide
  simp [chars, hquote, n.brace]

/-- Commas and white space. -/
def Separator : Type := { s : List Char // ∀ c ∈ s, c = ',' ∨ Text.isSpace c = true }

theorem Separator.ne_of_mem (g : Separator) {c d : Char} (hc : c ∈ g.1)
    (hd : d ≠ ',' ∧ Text.isSpace d = false) : c ≠ d := by
  rintro rfl
  rcases g.2 c hc with rfl | h
  · exact hd.1 rfl
  · exact absurd (h.symm.trans hd.2) (by decide)

/-- **A name in a list**, with what separates it from the next. -/
structure Item extends Quoted where
  double : '"' ∉ name.toList
  single : '\'' ∉ name.toList
  bracket : ']' ∉ name.toList
  behind : Separator

/-- A name and what is behind it as they are written. -/
def Item.chars (n : Item) : List Char := n.toQuoted.chars ++ n.behind.1

/-- **What a tag asks for** — one page, or the first that there is of several. -/
inductive Asked
  | one (n : Quoted)
  | several (front : Separator) (first : Item) (further : List Item)

namespace Asked

/-- The names, in order. -/
def names : Asked → List String
  | one n => [n.name]
  | several _ first further => (first :: further).map (·.name)

/-- The names as they are written. -/
def chars : Asked → List Char
  | one n => n.chars
  | several front first further =>
    '[' :: (front.1 ++ (first :: further).flatMap Item.chars ++ [']'])

theorem names_ne_nil : ∀ a : Asked, a.names ≠ []
  | one _ | several _ _ _ => List.cons_ne_nil _ _

end Asked

/-- Between the names there is none. -/
theorem scan_separator (g : Separator) (v : List Char) : scan quoted (g.1 ++ v) = scan quoted v :=
  scan_append_of_none fun _ hc _ =>
    quoted_eq_none (g.ne_of_mem hc (by decide)) (g.ne_of_mem hc (by decide))

/-- **A list of names is read name by name.** -/
theorem scan_items : ∀ items : List Item,
    scan quoted (items.flatMap Item.chars) = items.map (·.name)
  | [] => rfl
  | n :: items => by
    have hname : ∀ v, quoted (n.toQuoted.chars ++ v) = some (n.name, v) := fun v => by
      rw [Quoted.chars, List.cons_append, List.append_assoc]
      exact quoted_append n.quote.char_eq n.nonempty n.own
    have hne : n.toQuoted.chars ≠ [] := List.cons_ne_nil _ _
    rw [List.flatMap_cons, Item.chars, List.append_assoc, scan_append_of_some hne (hname _),
      scan_separator, scan_items items, List.map_cons]

theorem Item.not_mem_chars (n : Item) {c : Char} (hc : c ≠ ',' ∧ Text.isSpace c = false)
    (hquote : c ≠ n.quote.char) (hname : c ∉ n.name.toList) : c ∉ n.chars := by
  intro h
  rcases List.mem_append.1 h with h | h
  · simp [Quoted.chars, hquote, hname] at h
  · exact n.behind.ne_of_mem h hc rfl

theorem Quote.ne_char (q : Quote) {c : Char} (hc : c ≠ '"' ∧ c ≠ '\'') : c ≠ q.char := by
  rcases q.char_eq with h | h <;> rw [h]
  · exact hc.1
  · exact hc.2

namespace Asked

theorem isNames : ∀ a : Asked, Names a.chars a.names
  | one n => names_quoted n.quote.char_eq n.nonempty n.own
  | several front first further => by
    refine names_bracketed ?_ ?_
    · rw [scan_separator, scan_items]
      rfl
    · intro h
      rcases List.mem_append.1 h with h | h
      · exact front.ne_of_mem h (d := ']') (by decide) rfl
      · obtain ⟨n, -, hn⟩ := List.mem_flatMap.1 h
        exact n.not_mem_chars (by decide) (n.quote.ne_char (by decide)) n.bracket hn

theorem brace_not_mem : ∀ a : Asked, '\x7b' ∉ a.chars
  | one n => n.brace_not_mem
  | several front first further => by
    intro h
    rcases List.mem_cons.1 h with h | h
    · exact absurd h (by decide)
    · rcases List.mem_append.1 h with h | h
      · rcases List.mem_append.1 h with h | h
        · exact front.ne_of_mem h (d := '\x7b') (by decide) rfl
        · obtain ⟨n, -, hn⟩ := List.mem_flatMap.1 h
          exact n.not_mem_chars (by decide) (n.quote.ne_char (by decide)) n.brace hn
      · exact absurd (List.mem_singleton.1 h) (by decide)

end Asked

/-- **A tag that asks for pages** — it includes, imports or extends what it names, and may say more. -/
structure Asking where
  before : Bool
  leading : Spaces
  keyword : String
  known : keyword ∈ ["include", "import", "extends"]
  between : Spaces
  apart : between.1 ≠ []
  asked : Asked
  rest : List Char
  percent : '%' ∉ rest
  brace : '\x7b' ∉ rest
  after : Bool

namespace Asking

variable (a : Asking)

/-- What stands behind the delimiter that opens the tag. -/
def inner : List Char :=
  dashOf a.before ++ (a.leading.1 ++ (a.keyword.toList ++ (a.between.1 ++ (a.asked.chars ++
    (a.rest ++ dashOf a.after ++ ['%', '\x7d'])))))

/-- The reference that the tag makes: it is optional if what else the tag says has the words for it. -/
def reference : Reference where
  candidates := a.asked.names
  optional := decide (optionalWords.toList <:+: a.rest)

/-- The words that ask for pages have no brace in them, and none is read as another word. -/
theorem keyword_spec : isWord a.keyword = true ∧ '\x7b' ∉ a.keyword.toList ∧
    ∀ t, word "raw" (a.keyword.toList ++ t) = none := by
  have hknown := a.known
  simp only [List.mem_cons, List.not_mem_nil, or_false] at hknown
  rcases hknown with h | h | h <;> rw [h] <;> exact ⟨by decide, by decide, fun t => rfl⟩

theorem brace_not_mem : '\x7b' ∉ a.inner := by
  simp [inner, brace_not_mem_dashOf, brace_not_mem_spaces, a.keyword_spec.2.1,
    a.asked.brace_not_mem, a.brace]

theorem inner_append (v : List Char) : '\x7b' :: '%' :: (a.inner ++ v) =
    '\x7b' :: '%' :: (dashOf a.before ++ (a.leading.1 ++ (a.keyword.toList ++ (a.between.1 ++
      (a.asked.chars ++ (a.rest ++ dashOf a.after ++ '%' :: '\x7d' :: v)))))) := by
  simp [inner]

end Asking

/-- The words by which a reference is optional are there exactly if they are read. -/
theorem isSome_before_word {t : String} :
    (before (word t) s).isSome = decide (t.toList <:+: s) := by
  rw [Bool.eq_iff_iff, decide_eq_true_eq]
  constructor
  · intro h
    obtain ⟨⟨l, r⟩, hsome⟩ := Option.isSome_iff_exists.1 h
    obtain ⟨rfl, ⟨⟨_, r'⟩, hword⟩, -⟩ := before_eq_some.1 hsome
    exact ⟨l, r', by rw [word_eq_some.1 hword, List.append_assoc]⟩
  · rintro ⟨l, r, rfl⟩
    rw [List.append_assoc]
    exact before_isSome (by rw [word_append]; rfl)

/-- The dash in front of the close of a tag is no part of the words. -/
theorem optionalWords_infix_append_dash (m : List Char) :
    optionalWords.toList <:+: m ++ dashOf b ↔ optionalWords.toList <:+: m := by
  cases b with
  | false => rw [dashOf, if_neg (by decide), List.append_nil]
  | true =>
    refine ⟨fun h => ?_, fun h => h.trans (List.prefix_append _ _).isInfix⟩
    rcases List.infix_concat_iff.1 h with ⟨x, hx⟩ | h
    · have hlast := congrArg List.getLast? hx
      rw [List.getLast?_append_of_ne_nil _ (by decide), List.getLast?_concat] at hlast
      exact absurd hlast (by decide)
    · exact h

/-- **What a tag asks for is found in it**, whatever stands behind it. -/
theorem Asking.found_append (a : Asking) (r : List Char) :
    found ('\x7b' :: '%' :: (a.inner ++ r)) = a.reference :: found r := by
  obtain ⟨hword, -, hnotraw⟩ := a.keyword_spec
  have hpercent : '%' ∉ a.rest ++ dashOf a.after := by
    have hdash : '%' ∉ dashOf a.after := by cases a.after <;> decide
    simp [a.percent, hdash]
  have hread : ∀ v, reader ('\x7b' :: '%' :: (a.inner ++ v)) = some (a.reference, v) := by
    intro v
    rw [a.inner_append, reader_named a.known a.leading.2 a.apart a.between.2 a.asked.isNames hpercent,
      isSome_before_word]
    simp only [optionalWords_infix_append_dash]
    rfl
  have hraw : rawTag "raw" ('\x7b' :: '%' :: (a.inner ++ r)) = none := by
    rw [a.inner_append, rawTag, behind_opening hword a.leading.2]
    exact bind_of_none (hnotraw _)
  exact found_asking a.brace_not_mem hraw hread a.asked.names_ne_nil

/-! ## Tags that ask for nothing -/

/-- **A tag of another kind** — its word is not one of the four that the reader of references knows, and
what else the tag says does not go on with the word. -/
structure OtherTag where
  before : Bool
  leading : Spaces
  keyword : String
  nonempty : keyword ≠ ""
  isName : ∀ c ∈ keyword.toList, Grammar.isNameChar c = true
  other : keyword ∉ ["include", "import", "extends", "raw"]
  rest : List Char
  ends : ∀ c, rest.head? = some c → Grammar.isNameChar c = false
  brace : '\x7b' ∉ rest

/-- No character of a name is white space, or one that a tag has at its ends. -/
theorem not_space_of_isNameChar {c : Char} (h : Grammar.isNameChar c = true) :
    Text.isSpace c = false ∧ c ≠ '-' ∧ c ≠ '%' := by
  have hcode : 0x30 ≤ c.toNat ∧ c.toNat ≤ 0x7A := by
    have h : (decide ('A'.val ≤ c.val ∧ c.val ≤ 'Z'.val) ||
        decide ('a'.val ≤ c.val) && decide (c.val ≤ 'z'.val) ||
        decide ('0'.val ≤ c.val) && decide (c.val ≤ '9'.val) || c == '_') = true := h
    simp only [Bool.or_eq_true, Bool.and_eq_true, decide_eq_true_eq, beq_iff_eq,
      UInt32.le_iff_toNat_le] at h
    rcases h with ((⟨hleast, hmost⟩ | ⟨hleast, hmost⟩) | ⟨hleast, hmost⟩) | rfl
    · exact ⟨Nat.le_trans (by decide) hleast, Nat.le_trans hmost (by decide)⟩
    · exact ⟨Nat.le_trans (by decide) hleast, Nat.le_trans hmost (by decide)⟩
    · exact ⟨Nat.le_trans (by decide) hleast, Nat.le_trans hmost (by decide)⟩
    · decide
  refine ⟨?_, ?_, ?_⟩
  · simp only [Text.isSpace, Bool.or_eq_false_iff, Bool.and_eq_false_iff, decide_eq_false_iff_not,
      beq_eq_false_iff_ne]
    omega
  · rintro rfl
    exact absurd hcode.1 (by decide)
  · rintro rfl
    exact absurd hcode.1 (by decide)

theorem spaces1_eq_none {c : Char} (hc : Grammar.isNameChar c = true) : spaces1 (c :: s) = none :=
  bind_of_none (by simp [run1, (not_space_of_isNameChar hc).1])

theorem closing_eq_none {c : Char} (hc : Grammar.isNameChar c = true) :
    (do spaces; dash; word "%\x7d") (c :: s) = none := by
  obtain ⟨hspace, hdash, hpercent⟩ := not_space_of_isNameChar hc
  have hspaces : spaces (c :: s) = some ((), c :: s) :=
    spaces_append (g := []) (by simp) fun d hd => by
      obtain rfl := Option.some.inj hd
      exact hspace
  rw [bind_of_some hspaces, bind_of_some (dash_of_ne hdash)]
  exact word_cons_eq_none rfl hpercent

namespace OtherTag

variable (t : OtherTag)

/-- What stands behind the delimiter that opens the tag. -/
def inner : List Char :=
  dashOf t.before ++ (t.leading.1 ++ (t.keyword.toList ++ (t.rest ++ ['%', '\x7d'])))

theorem inner_append (v : List Char) : '\x7b' :: '%' :: (t.inner ++ v) = '\x7b' :: '%' ::
    (dashOf t.before ++ (t.leading.1 ++ (t.keyword.toList ++ (t.rest ++ '%' :: '\x7d' :: v)))) := by
  simp [inner]

theorem isWord_keyword : isWord t.keyword = true := by
  cases h : t.keyword.toList with
  | nil => exact absurd (String.toList_eq_nil_iff.1 h) t.nonempty
  | cons c cs =>
    obtain ⟨hspace, hdash, -⟩ := not_space_of_isNameChar (t.isName c (by simp [h]))
    simp [isWord, h, hspace, hdash]

theorem brace_not_mem : '\x7b' ∉ t.inner := by
  have hkeyword : '\x7b' ∉ t.keyword.toList := fun h => absurd (t.isName _ h) (by decide)
  simp [inner, brace_not_mem_dashOf, brace_not_mem_spaces, hkeyword, t.brace]

/-- Behind the word something else begins. -/
theorem head?_behind {c : Char} (h : (t.rest ++ '%' :: '\x7d' :: v).head? = some c) :
    Grammar.isNameChar c = false := by
  cases hrest : t.rest with
  | nil =>
    rw [hrest] at h
    obtain rfl := Option.some.inj h
    decide
  | cons d l =>
    rw [hrest] at h
    exact t.ends c (by rw [hrest]; exact h)

/-- **The word goes on** where one of the four has been read of it. -/
theorem exists_of_word {k : String} (hk : k ∈ ["include", "import", "extends", "raw"])
    (h : word k (t.keyword.toList ++ (t.rest ++ '%' :: '\x7d' :: v)) = some (u, s)) :
    ∃ c r, s = c :: r ∧ Grammar.isNameChar c = true := by
  have hne : t.keyword.toList ≠ k.toList := fun heq => t.other (String.toList_inj.1 heq ▸ hk)
  have hname : ∀ c ∈ k.toList, Grammar.isNameChar c = true := by
    simp only [List.mem_cons, List.not_mem_nil, or_false] at hk
    rcases hk with rfl | rfl | rfl | rfl <;> exact List.all_eq_true.1 rfl
  obtain ⟨w, hlong, hw⟩ | ⟨w, hshort, hs⟩ := List.append_eq_append_iff.1 (word_eq_some.1 h)
  · cases w with
    | nil => exact absurd (hlong.trans (List.append_nil _)).symm hne
    | cons d w =>
      have hd := t.head?_behind (v := v) (c := d) (by rw [hw]; rfl)
      exact absurd (hname d (by simp [hlong])) (by simp [hd])
  · cases w with
    | nil => exact absurd (hshort.trans (List.append_nil _)) hne
    | cons d w => exact ⟨d, _, hs, t.isName d (by simp [hshort])⟩

theorem rawTag_inner (v : List Char) : rawTag "raw" ('\x7b' :: '%' :: (t.inner ++ v)) = none := by
  rw [inner_append, rawTag, behind_opening t.isWord_keyword t.leading.2]
  cases h : word "raw" (t.keyword.toList ++ (t.rest ++ '%' :: '\x7d' :: v)) with
  | none => exact bind_of_none h
  | some found =>
    obtain ⟨c, r, hr, hc⟩ := t.exists_of_word (by simp) h
    rw [bind_of_some h, hr]
    exact closing_eq_none hc

theorem reader_inner (v : List Char) : reader ('\x7b' :: '%' :: (t.inner ++ v)) = none := by
  rw [inner_append, reader, behind_opening t.isWord_keyword t.leading.2]
  cases h : askingWord (t.keyword.toList ++ (t.rest ++ '%' :: '\x7d' :: v)) with
  | none => exact bind_of_none h
  | some found =>
    have hgoes : ∃ c r, found.2 = c :: r ∧ Grammar.isNameChar c = true := by
      rcases orElse_eq_some.1 h with h | ⟨-, h⟩
      · exact t.exists_of_word (k := "include") (by simp) h
      · rcases orElse_eq_some.1 h with h | ⟨-, h⟩
        · exact t.exists_of_word (k := "import") (by simp) h
        · exact t.exists_of_word (k := "extends") (by simp) h
    obtain ⟨c, r, hr, hc⟩ := hgoes
    rw [bind_of_some h, hr]
    exact bind_of_none (spaces1_eq_none hc)

end OtherTag

/-! ## Fragments -/

/-- **A fragment of a text** — a plain text, a comment up to its first end, a raw stretch up to its first
end, a value, or a tag.  What would make a tag or a comment of a value behind its second brace does not
begin one (`Fragment.exists_of_value`). -/
inductive Fragment
  | plain (text : List Char) (brace : '\x7b' ∉ text)
  | comment (body : List Char) (closing : ¬ "#\x7d".toList <:+: body)
  | raw (first : Bare "raw") (body : List Char) (last : Bare "endraw")
      (closing : ∀ t : Bare "endraw", ¬ t.chars <:+: body)
  | value (body : List Char) (brace : '\x7b' ∉ body) (percent : body.head? ≠ some '%')
      (hash : body.head? ≠ some '#')
  | other (t : OtherTag)
  | asking (a : Asking)

namespace Fragment

/-- A fragment as it is written. -/
def chars : Fragment → List Char
  | plain text _ => text
  | comment body _ => '\x7b' :: '#' :: (body ++ ['#', '\x7d'])
  | raw first body last _ => first.chars ++ (body ++ last.chars)
  | value body _ _ _ => '\x7b' :: '\x7b' :: (body ++ ['\x7d', '\x7d'])
  | other t => '\x7b' :: '%' :: t.inner
  | asking a => '\x7b' :: '%' :: a.inner

/-- The reference that a fragment makes. -/
def reference? : Fragment → Option Reference
  | asking a => some a.reference
  | plain .. | comment .. | raw .. | value .. | other _ => none

/-- **Every value of a page** that has no opening brace in it is a fragment: none begins with a sign that
would open a tag or a comment behind its second brace. -/
theorem exists_of_value {p : Piece} (hl : '\x7b' ∉ l)
    (h : Page.value ('\x7b' :: '\x7b' :: (l ++ '\x7d' :: '\x7d' :: r)) = some (p, r)) :
    ∃ f : Fragment, f.chars = '\x7b' :: '\x7b' :: (l ++ ['\x7d', '\x7d']) ∧ f.reference? = none := by
  have hhead : ∀ c, Grammar.isSign c = true → l.head? ≠ some c := by
    intro c hc heq
    cases l with
    | nil => cases heq
    | cons d l =>
      obtain rfl := Option.some.inj heq
      rw [List.cons_append, Page.value_eq_none hc] at h
      cases h
  exact ⟨value l hl (hhead '%' rfl) (hhead '#' rfl), rfl, rfl⟩

end Fragment

/-- A comment is read up to its first end. -/
theorem comment_append (hbody : ¬ "#\x7d".toList <:+: l) (r : List Char) :
    comment ('\x7b' :: '#' :: (l ++ '#' :: '\x7d' :: r)) = some ((), r) := by
  have hopen : word "\x7b#" ('\x7b' :: '#' :: (l ++ '#' :: '\x7d' :: r)) =
      some ((), l ++ '#' :: '\x7d' :: r) := word_append "\x7b#" _
  have hbefore : before (word "#\x7d") (l ++ '#' :: '\x7d' :: r) = some (l, '#' :: '\x7d' :: r) := by
    refine before_eq_some.2 ⟨rfl, ⟨_, word_append "#\x7d" r⟩, fun x v hl hv => word_eq_none ?_⟩
    rintro ⟨w, hw⟩
    obtain ⟨c, v, rfl⟩ := List.exists_cons_of_ne_nil hv
    obtain ⟨hfirst, htail⟩ : '#' = c ∧ '\x7d' :: w = v ++ '#' :: '\x7d' :: r := List.cons.inj hw
    cases v with
    | nil => exact absurd (List.cons.inj htail).1 (by decide)
    | cons d v =>
      obtain rfl : '\x7d' = d := (List.cons.inj htail).1
      subst hfirst
      exact hbody ⟨x, v, by rw [hl, List.append_assoc]; rfl⟩
  rw [comment, bind_of_some hopen, bind_of_some hbefore]
  exact word_append "#\x7d" r

/-- A raw stretch is read up to its first end. -/
theorem rawStretch_append (first : Bare "raw") (last : Bare "endraw")
    (hbody : ∀ t : Bare "endraw", ¬ t.chars <:+: l) (r : List Char) :
    rawStretch (first.chars ++ (l ++ (last.chars ++ r))) = some ((), r) := by
  rw [rawStretch, bind_of_some (rawTag_append (by decide) first _),
    bind_of_some (before_endraw hbody last)]
  exact rawTag_append (by decide) last r

/-- **What is found in a fragment** does not depend on what stands behind it. -/
theorem Fragment.found_append (f : Fragment) (r : List Char) :
    found (f.chars ++ r) = f.reference?.toList ++ found r := by
  cases f with
  | plain text brace => exact Reference.found_append brace
  | comment body closing =>
    refine found_comment (Eq.trans (congrArg Reference.comment ?_) (comment_append closing r))
    simp [chars]
  | raw first body last closing =>
    have hread : rawStretch ((first.chars ++ (body ++ last.chars)) ++ r) = some ((), r) := by
      rw [List.append_assoc, List.append_assoc]
      exact rawStretch_append first last closing r
    exact found_rawStretch (List.cons_ne_nil _ _) hread
  | value body brace percent hash =>
    have hhead : ∀ c, c ≠ '\x7d' → body.head? ≠ some c → (body ++ ['\x7d', '\x7d']).head? ≠ some c := by
      intro c hc hne
      cases body with
      | nil => simpa [eq_comm] using hc
      | cons d body => exact hne
    have hbrace : '\x7b' ∉ body ++ ['\x7d', '\x7d'] := by simp [brace]
    exact found_value hbrace (by simp) (hhead '%' (by decide) percent) (hhead '#' (by decide) hash)
  | other t => exact found_quiet t.brace_not_mem (t.rawTag_inner r) t.reader_inner
  | asking a => exact a.found_append r

/-- **The references of a text are those of its fragments**, in order.

Put a text together, in any order, from plain texts, comments, raw stretches, values and tags: comments and
raw stretches may have tags in them, and raw stretches comments, but not their own end; all else has no
opening brace in it.  The reader of references finds what is asked for by the tags that include, import or
extend a page or one of several, with the names in order, and takes a reference for optional exactly if
the tag has the words for it behind the names. -/
theorem ofText_fragments (fragments : List Fragment) :
    ofText (String.ofList (fragments.flatMap Fragment.chars)) = fragments.filterMap Fragment.reference? := by
  rw [ofText_eq, String.toList_ofList]
  induction fragments with
  | nil => rfl
  | cons f fragments ih =>
    rw [List.flatMap_cons, f.found_append, ih]
    cases f <;> rfl

/-! ## A text with a fragment of each kind -/

/-- One blank. -/
def blank : Spaces := ⟨[' '], List.all_eq_true.1 rfl⟩

/-- A list of two names, which need not be there. -/
def optionalList : Asking where
  before := true
  leading := blank
  keyword := "include"
  known := by decide
  between := blank
  apart := by decide
  asked := .several ⟨[], by simp⟩
    { quote := .double, name := "a", nonempty := by decide, own := by decide, brace := by decide,
      double := by decide, single := by decide, bracket := by decide, behind := ⟨[','], by simp⟩ }
    [{ quote := .single, name := "b", nonempty := by decide, own := by decide, brace := by decide,
       double := by decide, single := by decide, bracket := by decide, behind := ⟨[], by simp⟩ }]
  rest := " ignore missing ".toList
  percent := by decide
  brace := by decide
  after := true

/-- A tag that extends a page. -/
def parentTag : Asking where
  before := false
  leading := blank
  keyword := "extends"
  known := by decide
  between := blank
  apart := by decide
  asked := .one
    { quote := .double, name := "it's", nonempty := by decide, own := by decide, brace := by decide }
  rest := [' ']
  percent := by decide
  brace := by decide
  after := false

/-- The opening of a condition. -/
def conditionTag : OtherTag where
  before := false
  leading := blank
  keyword := "if"
  nonempty := by decide
  isName := List.all_eq_true.1 rfl
  other := by decide
  rest := " include ".toList
  ends := fun c hc => by obtain rfl := Option.some.inj hc; decide
  brace := by decide

/-- A tag in a comment, in a raw stretch and on its own. -/
def sample : List Fragment := [
  .comment "\x7b% include 'c' %\x7d".toList (by decide),
  .asking parentTag,
  .plain " \x7d%\x7d ".toList (by decide),
  .raw ⟨false, blank, blank, true⟩ "\x7b# \x7b% include 'd' %\x7d".toList ⟨true, blank, blank, false⟩
    (not_infix_of_before (by decide) (by decide)),
  .other conditionTag,
  .asking optionalList,
  .value " include ".toList (by decide) (by decide) (by decide)]

/-- Two of the tags are found. -/
theorem ofText_sample : ofText (String.ofList (sample.flatMap Fragment.chars)) =
    [{ candidates := ["it's"], optional := false }, { candidates := ["a", "b"], optional := true }] :=
  (ofText_fragments sample).trans (by decide)

end Reference

end QueryPress
