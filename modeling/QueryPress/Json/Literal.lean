import QueryPress.Json
import QueryPress.TraceId

/-!
# Json/Literal — the JSON text of a value

`escape` is the inside of a string literal: a quote and a backslash are escaped, so are the
characters below U+0020, and every other character stands for itself. `literal` writes a value
without any white space.
-/

namespace QueryPress.Json

/-- One character inside a string literal. -/
def escapeChar (c : Char) : List Char :=
  if c = '"' then ['\\', '"']
  else if c = '\\' then ['\\', '\\']
  else if c = '\x08' then ['\\', 'b']
  else if c = '\x0c' then ['\\', 'f']
  else if c = '\n' then ['\\', 'n']
  else if c = '\r' then ['\\', 'r']
  else if c = '\t' then ['\\', 't']
  else if c.toNat < 0x20 then '\\' :: 'u' :: hexDigits 4 c.toNat
  else [c]

/-- The inside of a string literal. -/
def escape (s : List Char) : List Char := s.flatMap escapeChar

/-- A string literal. -/
def quote (s : String) : List Char := '"' :: escape s.toList ++ ['"']

mutual

/-- The JSON text of a value. -/
def write : Json → List Char
  | .null => "null".toList
  | .bool true => "true".toList
  | .bool false => "false".toList
  | .number n => n.literal.toList
  | .string s => quote s
  | .array items => '[' :: writeItems items
  | .object members => '\x7b' :: writeMembers members

/-- The elements of an array, with the closing bracket. -/
def writeItems : List Json → List Char
  | [] => [']']
  | [v] => write v ++ [']']
  | v :: w :: vs => write v ++ ',' :: writeItems (w :: vs)

/-- The members of an object, with the closing brace. -/
def writeMembers : List (String × Json) → List Char
  | [] => ['\x7d']
  | [(k, v)] => quote k ++ ':' :: write v ++ ['\x7d']
  | (k, v) :: m :: ms => quote k ++ ':' :: write v ++ ',' :: writeMembers (m :: ms)

end

/-- **The JSON text of a value.** -/
def literal (v : Json) : String := String.ofList (write v)

end QueryPress.Json
