import QueryPress.Decimal.Arithmetic
import QueryPress.Json

/-!
# Markup/Expr — the expressions of a template

An expression is read for its value, or, after `if`, for a judgement. Filters are applied one at a
time, so `x | f | g` is `apply g (apply f x)`; `base` is what stands in front of all of them.
-/

namespace QueryPress

/-- The comparisons. -/
inductive Comparison
  | less
  | lessOrEqual
  | greater
  | greaterOrEqual
  | equal
  | unequal
  deriving DecidableEq, Repr

/-- An expression. -/
inductive Expr
  /-- A string, a number or a truth value. -/
  | literal (v : Json)
  /-- A name, with the members and positions behind its dots. -/
  | path (root : String) (members : List String)
  /-- A function with named arguments. -/
  | call (function : String) (arguments : List (String × Expr))
  /-- A macro of a namespace with named arguments. -/
  | expand (space name : String) (arguments : List (String × Expr))
  /-- A list in brackets. -/
  | array (items : List Expr)
  /-- Texts joined by `~`. -/
  | concat (parts : List Expr)
  | math (op : Operation) (left right : Expr)
  | compare (op : Comparison) (left right : Expr)
  | both (left right : Expr)
  | either (left right : Expr)
  | negated (e : Expr)
  /-- A filter with named arguments. -/
  | apply (e : Expr) (filter : String) (arguments : List (String × Expr))
  deriving Inhabited

namespace Expr

/-- What stands in front of all filters. -/
def base : Expr → Expr
  | apply e _ _ => base e
  | e => e

/-- The filter whose `value` argument stands in for what is missing, if it comes first. -/
def defaultFilter : String := "default"

/-- The first filter, if there is one. -/
def firstFilter? : Expr → Option String
  | apply (apply e f a) _ _ => firstFilter? (apply e f a)
  | apply _ f _ => some f
  | _ => none

/-- The path in front of all filters, where what it leads to must not be missing. -/
def needed? (e : Expr) : Option (String × List String) :=
  match e.base with
  | path root members => if e.firstFilter? = some defaultFilter then none else some (root, members)
  | _ => none

/-- Whether a name stands in front of all filters. -/
def isNamed (e : Expr) : Bool :=
  match e.base with
  | path _ _ => true
  | _ => false

/-- Whether an expression can be walked through: a name, a function or a list, with any filters. -/
def isContainer (e : Expr) : Bool :=
  match e.base with
  | path _ _ | call _ _ | array _ => true
  | _ => false

/-- Whether the expression is a judgement: a comparison or two expressions joined by a word. -/
def isJudgement : Expr → Bool
  | compare _ _ _ | both _ _ | either _ _ => true
  | _ => false

end Expr

end QueryPress
