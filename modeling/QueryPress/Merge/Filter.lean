import QueryPress.Json.Literal
import QueryPress.Merge.Error

/-!
# Merge/Filter — what filters make of a value
-/

namespace QueryPress

/-- The filters. -/
inductive Filter
  | join
  | jsonEscape
  | jsonLiteral
  deriving DecidableEq, Repr

namespace Filter

/-- The name of a filter in a template. -/
def name : Filter → String
  | join => "join"
  | jsonEscape => "json_escape"
  | jsonLiteral => "json_literal"

/-- The filter of a name. -/
def ofName? (n : String) : Option Filter := [join, jsonEscape, jsonLiteral].find? (·.name == n)

/-- A separator as it is meant: a backslash with `n` or `t` behind it is one character. -/
def separator : List Char → List Char
  | '\\' :: 'n' :: r => '\n' :: separator r
  | '\\' :: 't' :: r => '\t' :: separator r
  | c :: r => c :: separator r
  | [] => []

/-- The separator that the arguments of `join` ask for. -/
def separatorOf (arguments : Table Json) : Except MergeError String :=
  match Table.get? arguments "sep" with
  | none => .ok ""
  | some (.string s) => .ok (String.ofList (separator s.toList))
  | some _ => .error (.wrongKind join.name)

/-- **What a filter makes of a value.** -/
def run (f : Filter) (v : Json) (arguments : Table Json) : Except MergeError Json :=
  match f, v with
  | join, .array items => do
    let sep ← separatorOf arguments
    .ok (.string (sep.intercalate (items.map Json.plain)))
  | join, _ => .error (.wrongKind join.name)
  | jsonEscape, .string s => .ok (.string (String.ofList (Json.escape s.toList)))
  | jsonEscape, _ => .error (.unescapable jsonEscape.name)
  | jsonLiteral, v => .ok (.string v.literal)

@[simp] theorem ofName?_name (f : Filter) : ofName? f.name = some f := by cases f <;> rfl

end Filter

end QueryPress
