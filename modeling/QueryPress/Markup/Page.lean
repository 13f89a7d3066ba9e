import QueryPress.Markup.Node

/-!
# Markup/Page — a template on its own

A page keeps the text it was read from. Its body is what it writes; beside it stand the blocks and
macros that other pages can override and call, the pages whose macros it calls by a name of its own,
and the page whose body it takes over with its own blocks, if it has such a parent.
-/

namespace QueryPress

/-- A template that has been read. -/
structure Page where
  source : String
  parent : Option String
  body : List Node
  blocks : Table (List Node)
  macros : Table Macro
  /-- Other pages, each with the name that their macros are called under. -/
  imports : List (String × String)

/-- What may stand in a page. -/
inductive Part
  | node (n : Node)
  | definition (name : String) (m : Macro)
  /-- A comment. -/
  | silent

namespace Part

/-- The nodes of a list of parts. -/
def nodes (ps : List Part) : List Node :=
  ps.filterMap fun p => match p with
    | node n => some n
    | _ => none

/-- The macros of a list of parts. -/
def macros (ps : List Part) : List (String × Macro) :=
  ps.filterMap fun p => match p with
    | definition name m => some (name, m)
    | _ => none

end Part

namespace Page

/-- Whether no two pairs have one name. -/
def areDistinct {α : Type} (l : List (String × α)) : Bool := (Table.ofList l).length == l.length

/-- **The page of some parts** — no two blocks and no two macros may have one name. -/
def ofParts? (source : String) (parent : Option String) (imports : List (String × String))
    (ps : List Part) : Option Page :=
  let body := Part.nodes ps
  let blocks := Node.blocks body
  let macros := Part.macros ps
  if areDistinct blocks && areDistinct macros then
    some { source, parent, body, blocks := Table.ofList blocks, macros := Table.ofList macros,
           imports }
  else none

/-- The blocks, the macros and the body of a page come from one list of parts. -/
theorem body_of_ofParts? {source : String} {parent : Option String}
    {imports : List (String × String)} {ps : List Part} {p : Page}
    (h : ofParts? source parent imports ps = some p) :
    p.body = Part.nodes ps ∧ p.source = source := by
  simp only [ofParts?, Option.ite_none_right_eq_some, Option.some.injEq] at h
  obtain ⟨-, rfl⟩ := h
  exact ⟨rfl, rfl⟩

end Page

end QueryPress
