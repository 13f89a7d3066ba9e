import QueryPress.Markup.Page.Reader
import QueryPress.Proofs.Text.Reading
import QueryPress.Reference

/-!
# Proofs/Markup/Tag — a tag for a reader of pages and for a reader of references

A tag that was read as one of a page is laid out in one way (`tagOf_eq_some`).  The reader of references
takes its opening and its close in the same way (`behind_opening`, `behind_closing`), and between them
it looks for four words only; so it passes over every tag that begins with another (`isQuiet`).
-/

namespace QueryPress

open Reader

variable {α : Type} {p : Reader α} {f : Reader α} {s s₁ r g : List Char} {a : α} {b : Bool} {d : Dashes}
  {keyword : String} {u : Unit}

/-! ## How a tag is laid out -/

/-- A dash, if there is one. -/
def dashOf (b : Bool) : List Char := if b then ['-'] else []

theorem given_dash (h : given (word "-") s = some (b, r)) : s = dashOf b ++ r := by
  rcases given_eq_some.1 h with ⟨rfl, _, h⟩ | ⟨rfl, -, rfl⟩
  · exact word_eq_some.1 h
  · rfl

theorem openTag_eq_some (h : Page.openTag s = some (b, r)) :
    s = '\x7b' :: '%' :: (dashOf b ++ r) := by
  obtain ⟨_, s₁, hword, hdash⟩ := bind_eq_some.1 h
  rw [word_eq_some.1 hword, given_dash hdash]
  rfl

/-- A closing delimiter has a dash in front, or none. -/
theorem closing_eq_some {dashed plain : String} (hdashed : dashed.toList = '-' :: plain.toList)
    (h : ((do word dashed; return true) <|> (do word plain; return false) : Reader Bool) s = some (b, r)) :
    s = dashOf b ++ (plain.toList ++ r) := by
  rcases orElse_eq_some.1 h with h | ⟨-, h⟩
  all_goals
    obtain ⟨_, s₁, hword, hpure⟩ := bind_eq_some.1 h
    obtain ⟨rfl, rfl⟩ := pure_eq_some.1 hpure
    rw [word_eq_some.1 hword]
  · rw [hdashed]
    rfl
  · rfl

theorem closeTag_eq_some (h : Page.closeTag s = some (b, r)) :
    s = dashOf b ++ '%' :: '\x7d' :: r := closing_eq_some (by decide) h

/-- **How a tag is laid out.** -/
theorem tagOf_eq_some (h : Page.tagOf keyword p s = some ((d, a), r)) : ∃ g s₁ g',
    s = '\x7b' :: '%' :: (dashOf d.before ++ (g ++ (keyword.toList ++ s₁))) ∧
      (∀ c ∈ g, isGap c = true) ∧
      p s₁ = some (a, g' ++ (dashOf d.after ++ '%' :: '\x7d' :: r)) ∧ ∀ c ∈ g', isGap c = true := by
  obtain ⟨before, t₁, hopen, h₁⟩ := bind_eq_some.1 h
  obtain ⟨_, t₂, hgap, h₂⟩ := bind_eq_some.1 h₁
  obtain ⟨_, t₃, hword, h₃⟩ := bind_eq_some.1 h₂
  obtain ⟨a', t₄, hp, h₄⟩ := bind_eq_some.1 h₃
  obtain ⟨_, t₅, hgap', h₅⟩ := bind_eq_some.1 h₄
  obtain ⟨after, t₆, hclose, h₆⟩ := bind_eq_some.1 h₅
  obtain ⟨heq, rfl⟩ := pure_eq_some.1 h₆
  obtain ⟨rfl, rfl⟩ := Prod.mk.inj heq
  obtain ⟨g, rfl, hg, -⟩ := gap_eq_some.1 hgap
  obtain ⟨g', rfl, hg', -⟩ := gap_eq_some.1 hgap'
  refine ⟨g, t₃, g', ?_, hg, ?_, hg'⟩
  · rw [openTag_eq_some hopen, word_eq_some.1 hword]
  · rw [hp, closeTag_eq_some hclose]

/-- A tag that says nothing but its word is laid out like this. -/
theorem bareTag_eq_some (h : Page.bareTag keyword s = some (d, r)) : ∃ g g',
    s = '\x7b' :: '%' :: (dashOf d.before ++ (g ++ (keyword.toList ++
      (g' ++ (dashOf d.after ++ '%' :: '\x7d' :: r))))) ∧
      (∀ c ∈ g, isGap c = true) ∧ ∀ c ∈ g', isGap c = true := by
  obtain ⟨⟨d', _⟩, t, htag, hpure⟩ := bind_eq_some.1 h
  obtain ⟨rfl, rfl⟩ := pure_eq_some.1 hpure
  obtain ⟨g, s₁, g', rfl, hg, hp, hg'⟩ := tagOf_eq_some htag
  obtain ⟨-, rfl⟩ := pure_eq_some.1 hp
  exact ⟨g, g', rfl, hg, hg'⟩

theorem exists_of_bareTag (h : Page.bareTag keyword s = some (d, r)) :
    ∃ l, s = '\x7b' :: '%' :: (l ++ r) := by
  obtain ⟨g, g', rfl, -⟩ := bareTag_eq_some h
  exact ⟨dashOf d.before ++ (g ++ (keyword.toList ++ (g' ++ (dashOf d.after ++ ['%', '\x7d'])))),
    by simp⟩

/-! ## The reader of references at a tag -/

theorem isSpace_of_isGap {c : Char} (h : isGap c = true) : Text.isSpace c = true := by
  simp only [isGap, Bool.or_eq_true, beq_iff_eq] at h
  rcases h with ((rfl | rfl) | rfl) | rfl <;> decide

/-- A word that neither white space nor a dash begins. -/
def isWord (keyword : String) : Bool :=
  match keyword.toList with
  | [] => false
  | c :: _ => c != '-' && ! Text.isSpace c

theorem exists_of_isWord (h : isWord keyword = true) :
    ∃ c t, keyword.toList = c :: t ∧ c ≠ '-' ∧ Text.isSpace c = false := by
  rw [isWord] at h
  split at h
  · cases h
  · rename_i c t heq
    exact ⟨c, t, heq, by simpa using h⟩

theorem dash_of_ne {c : Char} (hc : c ≠ '-') : Reference.dash (c :: s) = some ((), c :: s) := by
  have hword : word "-" (c :: s) = none := word_eq_none fun h =>
    hc (List.cons_prefix_cons.1 h).1.symm
  exact bind_of_some (given_eq_some.2 (.inr ⟨rfl, hword, rfl⟩))

theorem dash_dashOf (hs : ∀ c, s.head? = some c → c ≠ '-') :
    Reference.dash (dashOf b ++ s) = some ((), s) := by
  cases b with
  | true => exact bind_of_some (given_eq_some.2 (.inl ⟨rfl, (), word_append "-" s⟩))
  | false =>
    cases s with
    | nil => rfl
    | cons c s => exact dash_of_ne (hs c rfl)

theorem isSpace_of_gap (hg : ∀ c ∈ g, isGap c = true) : ∀ c ∈ g, Text.isSpace c = true :=
  fun c hc => isSpace_of_isGap (hg c hc)

theorem spaces_append (hg : ∀ c ∈ g, Text.isSpace c = true)
    (hs : ∀ c, s.head? = some c → Text.isSpace c = false) :
    Reference.spaces (g ++ s) = some ((), s) :=
  bind_of_some (run_append hg hs)

theorem spaces1_append (hne : g ≠ []) (hg : ∀ c ∈ g, Text.isSpace c = true)
    (hs : ∀ c, s.head? = some c → Text.isSpace c = false) :
    Reference.spaces1 (g ++ s) = some ((), s) :=
  bind_of_some (run1_append hne hg hs)

/-- Where white space and then something else stands, there is no dash. -/
theorem ne_dash_of_spaces (hg : ∀ c ∈ g, Text.isSpace c = true) (hs : ∀ c, s.head? = some c → c ≠ '-') :
    ∀ c, (g ++ s).head? = some c → c ≠ '-' := by
  cases g with
  | nil => exact hs
  | cons d g =>
    rintro c hc rfl
    obtain rfl := Option.some.inj hc
    exact absurd (hg _ List.mem_cons_self) (by decide)

/-- **Behind the opening of a tag** the reader of references comes to its word. -/
theorem behind_opening (hk : isWord keyword = true) (hg : ∀ c ∈ g, Text.isSpace c = true) :
    (do word "\x7b%"; Reference.dash; Reference.spaces; f)
      ('\x7b' :: '%' :: (dashOf b ++ (g ++ (keyword.toList ++ s)))) = f (keyword.toList ++ s) := by
  obtain ⟨c, t, heq, hdash, hspace⟩ := exists_of_isWord hk
  have hhead : ∀ x, (keyword.toList ++ s).head? = some x → x = c := by
    rw [heq]
    exact fun x hx => (Option.some.inj hx).symm
  have hword : word "\x7b%" ('\x7b' :: '%' :: (dashOf b ++ (g ++ (keyword.toList ++ s)))) =
      some ((), dashOf b ++ (g ++ (keyword.toList ++ s))) := word_append _ _
  have hnodash := ne_dash_of_spaces (s := keyword.toList ++ s) hg fun x hx => hhead x hx ▸ hdash
  rw [bind_of_some hword, bind_of_some (dash_dashOf hnodash),
    bind_of_some (spaces_append hg fun x hx => hhead x hx ▸ hspace)]

/-- **At the close of a tag** the reader of references ends. -/
theorem behind_closing (hg : ∀ c ∈ g, Text.isSpace c = true) :
    (do Reference.spaces; Reference.dash; word "%\x7d") (g ++ (dashOf b ++ '%' :: '\x7d' :: r)) =
      some ((), r) := by
  have hspaces : Reference.spaces (g ++ (dashOf b ++ '%' :: '\x7d' :: r)) =
      some ((), dashOf b ++ '%' :: '\x7d' :: r) :=
    spaces_append hg fun c hc => by cases b <;> obtain rfl := Option.some.inj hc <;> decide
  have hdash : Reference.dash (dashOf b ++ '%' :: '\x7d' :: r) = some ((), '%' :: '\x7d' :: r) :=
    dash_dashOf fun c hc => by obtain rfl := Option.some.inj hc; decide
  rw [bind_of_some hspaces, bind_of_some hdash]
  exact word_append _ _

/-! ## The words that the reader of references looks for -/

/-- **A tag that begins with this word** is nothing to the reader of references. -/
def isQuiet (keyword : String) : Bool :=
  isWord keyword && ["raw", "include", "import", "extends"].all fun t =>
    ! t.toList.isPrefixOf keyword.toList && ! keyword.toList.isPrefixOf t.toList

theorem word_of_isQuiet (hk : isQuiet keyword = true) {t : String}
    (ht : t ∈ ["raw", "include", "import", "extends"]) : word t (keyword.toList ++ s) = none := by
  simp only [isQuiet, Bool.and_eq_true, List.all_eq_true, Bool.not_eq_true',
    ← Bool.not_eq_true, List.isPrefixOf_iff_prefix] at hk
  obtain ⟨hshort, hlong⟩ := hk.2 t ht
  refine word_eq_none fun h => ?_
  exact (List.prefix_or_prefix_of_prefix h (List.prefix_append _ _)).elim hshort hlong

theorem rawTag_of_isQuiet (hk : isQuiet keyword = true) (hg : ∀ c ∈ g, isGap c = true) :
    Reference.rawTag "raw" ('\x7b' :: '%' :: (dashOf b ++ (g ++ (keyword.toList ++ s)))) = none := by
  rw [Reference.rawTag, behind_opening (Bool.and_eq_true_iff.1 hk).1 (isSpace_of_gap hg)]
  exact bind_of_none (word_of_isQuiet hk (by simp))

theorem reader_of_isQuiet (hk : isQuiet keyword = true) (hg : ∀ c ∈ g, isGap c = true) :
    Reference.reader ('\x7b' :: '%' :: (dashOf b ++ (g ++ (keyword.toList ++ s)))) = none := by
  rw [Reference.reader, behind_opening (Bool.and_eq_true_iff.1 hk).1 (isSpace_of_gap hg)]
  refine bind_of_none ?_
  rw [Reference.askingWord, orElse_eq, orElse_eq, word_of_isQuiet hk (by simp),
    word_of_isQuiet hk (by simp), word_of_isQuiet hk (by simp)]
  rfl

/-! ## Raw stretches -/

/-- **A tag that says nothing but its word** is one for both readers. -/
theorem rawTag_of_bareTag (hk : isWord keyword = true)
    (h : Page.bareTag keyword s = some (d, r)) : Reference.rawTag keyword s = some ((), r) := by
  obtain ⟨g, g', rfl, hg, hg'⟩ := bareTag_eq_some h
  rw [Reference.rawTag, behind_opening hk (isSpace_of_gap hg), bind_of_some (word_append _ _)]
  exact behind_closing (isSpace_of_gap hg')

end QueryPress
