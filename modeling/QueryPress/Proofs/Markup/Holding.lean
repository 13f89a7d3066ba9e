import QueryPress.Markup.Book

/-!
# Proofs/Markup/Holding — which texts a book holds

A book that texts are added to holds what it held and the texts, of which the last of a name wins
(`source?_add?`).  The pages themselves are read from nothing but those texts.
-/

namespace QueryPress

/-- A page keeps the text it was read from. -/
theorem Page.source_of_read? {source : String} {p : Page} (h : Page.read? source = some p) :
    p.source = source := by
  simp only [Page.read?, Option.bind_eq_bind, Option.bind_eq_some_iff] at h
  obtain ⟨⟨parent, imports, parts⟩, -, hp⟩ := h
  exact (Page.body_of_ofParts? hp).2

namespace Book

variable {b b' : Book} {texts : List (String × String)} {pages : List (String × Page)} {n : String}

/-- The text of the page of a name. -/
def source? (b : Book) (n : String) : Option String := (Table.get? b n).map Page.source

theorem read?_cons {name source : String} :
    read? ((name, source) :: texts) = some pages ↔ ∃ p rest, Page.read? source = some p ∧
      read? texts = some rest ∧ pages = (name, p) :: rest := by
  simp only [read?, List.mapM_cons, Option.bind_eq_bind, Option.bind_eq_some_iff,
    Option.map_eq_some_iff, Option.pure_def, Option.some.injEq]
  constructor
  · rintro ⟨_, ⟨p, hp, rfl⟩, rest, hrest, rfl⟩
    exact ⟨p, rest, hp, hrest, rfl⟩
  · rintro ⟨p, rest, hp, hrest, rfl⟩
    exact ⟨_, ⟨p, hp, rfl⟩, rest, hrest, rfl⟩

/-- **To add to a book** is to file the pages of some texts, and the book is whole afterwards. -/
theorem add?_eq_some :
    b.add? texts = some b' ↔ ∃ pages, read? texts = some pages ∧
      b' = pages.foldl (fun b p => Table.insert b p.1 p.2) b ∧ b'.isWhole = true := by
  simp only [add?, Option.bind_eq_bind, Option.bind_eq_some_iff, Option.ite_none_right_eq_some,
    Option.some.injEq]
  constructor
  · rintro ⟨pages, hread, hwhole, rfl⟩
    exact ⟨pages, hread, rfl, hwhole⟩
  · rintro ⟨pages, hread, rfl, hwhole⟩
    exact ⟨pages, hread, hwhole, rfl⟩

theorem source?_foldl : ∀ (texts : List (String × String)) (pages : List (String × Page)) (b : Book),
    read? texts = some pages →
      source? (pages.foldl (fun b p => Table.insert b p.1 p.2) b) n
        = (texts.reverse.lookup n).or (b.source? n)
  | [], pages, b, h => by
    obtain rfl : pages = [] := by simpa [read?] using h.symm
    rfl
  | (name, source) :: texts, pages, b, h => by
    obtain ⟨p, rest, hp, hrest, rfl⟩ := read?_cons.1 h
    have hinsert : source? (Table.insert b name p) n
        = ([(name, source)].lookup n).or (b.source? n) := by
      by_cases hn : n = name
      · subst hn
        simp [source?, Table.get?_insert, Page.source_of_read? hp]
      · simp [source?, Table.get?_insert, hn, List.lookup_cons, beq_false_of_ne hn]
    rw [List.foldl_cons, source?_foldl texts rest _ hrest, hinsert, List.reverse_cons,
      List.lookup_append, Option.or_assoc]

/-- **What a book holds that texts were added to** — the last text of a name, and without one what
the book held before. -/
theorem source?_add? (h : b.add? texts = some b') :
    b'.source? n = (texts.reverse.lookup n).or (b.source? n) := by
  obtain ⟨pages, hread, rfl, -⟩ := add?_eq_some.1 h
  exact source?_foldl texts pages b hread

/-- Every page of a book is the page of its text. -/
def IsRead (b : Book) : Prop := ∀ n p, Table.get? b n = some p → Page.read? p.source = some p

theorem isRead_foldl : ∀ (texts : List (String × String)) (pages : List (String × Page)) (b : Book),
    read? texts = some pages → b.IsRead →
      IsRead (pages.foldl (fun b p => Table.insert b p.1 p.2) b)
  | [], pages, b, h, hb => by
    obtain rfl : pages = [] := by simpa [read?] using h.symm
    exact hb
  | (name, source) :: texts, pages, b, h, hb => by
    obtain ⟨p, rest, hp, hrest, rfl⟩ := read?_cons.1 h
    refine isRead_foldl texts rest _ hrest fun m q hq => ?_
    rw [Table.get?_insert] at hq
    split at hq
    · obtain rfl := Option.some.inj hq
      rw [Page.source_of_read? hp, hp]
    · exact hb m q hq

/-- **Adding keeps every page the page of its text.** -/
theorem IsRead.add? (hb : b.IsRead) (h : b.add? texts = some b') : b'.IsRead := by
  obtain ⟨pages, hread, rfl, -⟩ := add?_eq_some.1 h
  exact isRead_foldl texts pages b hread hb

end Book

end QueryPress
