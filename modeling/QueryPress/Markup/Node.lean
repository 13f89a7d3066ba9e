import QueryPress.Markup.Expr

/-!
# Markup/Node — what a template writes

White space that the dashes of tags take away is gone from the texts, and an `elif` is a branch
inside the other side of the branch before it. A block stands where it is written and may be
overridden by name, for which `Node.blocks` finds those that can be.
-/

namespace QueryPress

/-- A piece of a template. -/
inductive Node
  | text (s : String)
  | value (e : Expr)
  | assign (name : String) (e : Expr)
  /-- The first of some pages that there is; an optional one may be missing. -/
  | inclusion (pages : List String) (optional : Bool)
  | branch (condition : Expr) (yes no : List Node)
  /-- A walk through the elements of an array or, with names for both, the members of an object;
  `empty` is written where there are none. -/
  | loop (key : Option String) (item : String) (container : Expr) (body empty : List Node)
  | block (name : String) (body : List Node)
  /-- What the block around it overrides. -/
  | inherited
  deriving Inhabited

namespace Node

mutual

/-- A block and the blocks directly inside it. -/
def blocksOf : Node → List (String × List Node)
  | block name body => (name, body) :: blocks body
  | _ => []

/-- The blocks of a list of nodes that can be overridden: those directly in it and those directly
inside one of them. -/
def blocks : List Node → List (String × List Node)
  | [] => []
  | n :: ns => blocksOf n ++ blocks ns

end

end Node

/-- A named piece that is written where it is called. -/
structure Macro where
  /-- The names of its arguments, with what stands in for one that is not given. -/
  parameters : List (String × Option Json)
  body : List Node

end QueryPress
