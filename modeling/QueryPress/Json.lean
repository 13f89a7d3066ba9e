import QueryPress.Table
import QueryPress.Decimal.Number

/-!
# Json — the values that templates are merged with

An object lists its members in ascending order of their names, as a `Table` does. Besides its JSON
text (`Json/Literal`) a value has a plain text, which is what a template writes for it: a string
without quotes, nothing for `null`, the elements of an array in brackets, and `[object]`.
-/

namespace QueryPress

/-- A JSON value. -/
inductive Json
  | null
  | bool (b : Bool)
  | number (n : Number)
  | string (s : String)
  | array (items : List Json)
  | object (members : List (String × Json))
  deriving Inhabited, Repr

namespace Json

/-- The text of a string value. -/
def string? : Json → Option String
  | .string s => some s
  | _ => none

/-- The number of a value that is a whole number. -/
def integer? : Json → Option Int
  | .number (.whole n) => some n
  | _ => none

/-- A whole number as a value. -/
def ofInt (n : Int) : Json := .number (.whole n)

/-- Whether a value counts as true: not `null`, not `false`, not zero and not empty. -/
def isTruthy : Json → Bool
  | .null => false
  | .bool b => b
  | .number n => n.isNonzero
  | .string s => s != ""
  | .array items => ! items.isEmpty
  | .object members => ! members.isEmpty

mutual

/-- **The plain text of a value**, in the pieces it is written in. -/
def pieces : Json → List String
  | .null => []
  | .bool b => [toString b]
  | .number n => n.pieces
  | .string s => [s]
  | .array items => "[" :: piecesOfItems items
  | .object _ => ["[object]"]

/-- The pieces of the elements of an array, with its closing bracket. -/
def piecesOfItems : List Json → List String
  | [] => ["]"]
  | [v] => pieces v ++ ["]"]
  | v :: w :: vs => pieces v ++ ", " :: piecesOfItems (w :: vs)

end

/-- The plain text of a value. -/
def plain (v : Json) : String := String.join v.pieces

/-- A segment of a dotted path as a position in an array: decimal, without a sign and without
leading zeros. -/
def position? (segment : String) : Option Nat :=
  if segment != "0" && segment.startsWith "0" then none
  else if segment != "" && segment.all Char.isDigit then segment.toNat? else none

/-- What a dotted path leads to: members of objects by name, elements of arrays by position. -/
def follow : Json → List String → Option Json
  | v, [] => some v
  | .object members, s :: path => (Table.get? members s).bind fun v => follow v path
  | .array items, s :: path => ((position? s).bind fun i => items[i]?).bind fun v => follow v path
  | _, _ :: _ => none

mutual

/-- Equality of values; numbers of one kind are compared by value, numbers of two kinds differ. -/
def same : Json → Json → Bool
  | .null, .null => true
  | .bool a, .bool b => a == b
  | .number (.whole a), .number (.whole b) => a == b
  | .number (.double a), .number (.double b) => Float.ofBits a == Float.ofBits b
  | .string a, .string b => a == b
  | .array as, .array bs => sameItems as bs
  | .object as, .object bs => sameMembers as bs
  | _, _ => false

/-- Equality of lists of values. -/
def sameItems : List Json → List Json → Bool
  | [], [] => true
  | a :: as, b :: bs => same a b && sameItems as bs
  | _, _ => false

/-- Equality of lists of members. -/
def sameMembers : List (String × Json) → List (String × Json) → Bool
  | [], [] => true
  | (k, a) :: as, (l, b) :: bs => k == l && same a b && sameMembers as bs
  | _, _ => false

end

end Json

end QueryPress
