import QueryPress.Markup.Page.Reader

/-!
# Markup/Book — pages that know each other by name

A book is whole if every page's parents lead to a page without one and every imported page is there.
What an inclusion names may be missing: that is found out when it is written. Pages are added to a
book all together or not at all.
-/

namespace QueryPress

/-- Pages by name. -/
abbrev Book := Table Page

namespace Book

/-- The parents of a page, the nearest first, if they end after at most `n` steps. -/
def ancestorsTo? (b : Book) : Nat → String → Option (List String)
  | 0, _ => none
  | n + 1, name => do
    let p ← Table.get? b name
    match p.parent with
    | none => return []
    | some parent => return parent :: (← b.ancestorsTo? n parent)

/-- **The parents of a page**, the nearest first, if none is missing and they do not go in a circle:
a chain that is longer than the book has met a page twice. -/
def ancestors? (b : Book) (name : String) : Option (List String) := b.ancestorsTo? b.length name

/-- Whether a page's parents and imports are there. -/
def isWholeAt (b : Book) (name : String) (p : Page) : Bool :=
  (b.ancestors? name).isSome && p.imports.all fun (page, _) => Table.has b page

/-- Whether every page's parents and imports are there. -/
def isWhole (b : Book) : Bool := b.all fun (name, p) => b.isWholeAt name p

/-- The pages of some texts by name. -/
def read? (texts : List (String × String)) : Option (List (String × Page)) :=
  texts.mapM fun (name, source) => (Page.read? source).map (name, ·)

/-- **A book with further pages**, in place of those of the same names; nothing if a text is no page
or the book would not be whole. -/
def add? (b : Book) (texts : List (String × String)) : Option Book := do
  let pages ← read? texts
  let book := pages.foldl (fun b (name, p) => Table.insert b name p) b
  if book.isWhole then some book else none

/-- The macros that a page can call: by namespace, with the name of the page that has them. -/
abbrev Namespaces := Table (String × Table Macro)

/-- The namespaces of `t` and those of `u` that `t` does not have. -/
def beside (t u : Namespaces) : Namespaces := Table.override u t

/-- The name of a page's own namespace. -/
def ownNamespace : String := "self"

/-- **The namespaces of a page** — its own macros, those it imports, and behind them what those pages
and its parents can call; imports are followed at most `n` deep. -/
def namespaces (b : Book) : Nat → String → Namespaces
  | 0, _ => []
  | n + 1, name =>
    match Table.get? b name with
    | none => []
    | some p =>
      let own : Namespaces := if p.macros.isEmpty then [] else [(ownNamespace, name, p.macros)]
      let imported := p.imports.foldl (fun t (page, space) =>
        match Table.get? b page with
        | none => t
        | some q => beside (Table.insert t space (page, q.macros)) (b.namespaces n page)) own
      match p.parent with
      | none => imported
      | some parent => beside imported (b.namespaces n parent)

/-- A macro that a page can call, with the name of the page that has it. -/
def macro? (b : Book) (caller space name : String) : Option (String × Macro) := do
  let (page, macros) ← Table.get? (b.namespaces (b.length + 1) caller) space
  return (page, ← Table.get? macros name)

/-- A book that was added to is whole. -/
theorem isWhole_of_add? {b c : Book} {texts : List (String × String)} (h : b.add? texts = some c) :
    c.isWhole = true := by
  simp only [add?, Option.bind_eq_bind, Option.bind_eq_some_iff, Option.ite_none_right_eq_some,
    Option.some.injEq] at h
  obtain ⟨_, _, hw, rfl⟩ := h
  exact hw

end Book

end QueryPress
