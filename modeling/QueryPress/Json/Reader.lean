import QueryPress.Json
import QueryPress.Text.Utf16
import QueryPress.Text.Reader

/-!
# Json/Reader — the value of a JSON text

`read?` takes a whole text. Of two members with one name the later one counts, and the members of an
object come out in order. A number without a point and without a power is whole where it fits a
64-bit word; `-0` and everything else is a double, rounded once as a word and once more as it is
scaled.
-/

namespace QueryPress.Json

open Reader

/-- The value of a hexadecimal digit. -/
def hexValue? (c : Char) : Option Nat :=
  if '0' ≤ c && c ≤ '9' then some (c.toNat - 48)
  else if 'a' ≤ c && c ≤ 'f' then some (c.toNat - 87)
  else if 'A' ≤ c && c ≤ 'F' then some (c.toNat - 55)
  else none

/-- One hexadecimal digit. -/
def hexDigit : Reader Nat
  | c :: r => (hexValue? c).map (·, r)
  | [] => none

/-- Four hexadecimal digits. -/
def hex4 : Reader Nat := do
  let a ← hexDigit
  let b ← hexDigit
  let c ← hexDigit
  let d ← hexDigit
  return ((a * 16 + b) * 16 + c) * 16 + d

/-- One character of a string literal, as 16-bit units. -/
def stringUnit : Reader (List Nat)
  | '\\' :: 'u' :: r => (hex4 r).map fun (u, r) => ([u], r)
  | '\\' :: c :: r =>
    match c with
    | '"' => some ([34], r)
    | '\\' => some ([92], r)
    | '/' => some ([47], r)
    | 'b' => some ([8], r)
    | 'f' => some ([12], r)
    | 'n' => some ([10], r)
    | 'r' => some ([13], r)
    | 't' => some ([9], r)
    | _ => none
  | c :: r => if c = '"' || c = '\\' || c.toNat < 0x20 then none else some (Text.unitsOf c, r)
  | [] => none

/-- A string literal. -/
def stringLiteral : Reader String := do
  word "\""
  let units ← many stringUnit
  word "\""
  return String.ofList (Text.ofUnits units.flatten)

/-- The value of a decimal digit. -/
def digitValue (c : Char) : Nat := c.toNat - 48

/-- The value of decimal digits. -/
def decimal (ds : List Char) : Nat := ds.foldl (fun n d => n * 10 + digitValue d) 0

/-- A word with as many further digits as it has room for in 64 bits, and how many it has not. -/
def filled (word : Nat) : List Char → Nat × Nat
  | [] => (word, 0)
  | d :: ds =>
    if word * 10 + digitValue d < 2 ^ 64 then filled (word * 10 + digitValue d) ds
    else (word, ds.length + 1)

/-- Digits without a zero in front of others. -/
def wholeDigits : Reader (List Char) := do
  let ds ← run1 Char.isDigit
  if 1 < ds.length && ds.head? = some '0' then failure else return ds

/-- A number. One with a point or a power is the double that its first digits, as many as fit a
word, make when they are scaled, and so is one that has more digits before the point. -/
def numberLiteral : Reader Number := do
  let negative ← given (word "-")
  let whole ← wholeDigits
  let fraction ← maybe (do word "."; run1 Char.isDigit)
  let power ← maybe (do
    let _ ← charWhere (fun c => c == 'e' || c == 'E')
    let down ← maybe (charWhere (fun c => c == '-' || c == '+'))
    let ds ← run1 Char.isDigit
    return (if down = some '-' then -(decimal ds : Int) else (decimal ds : Int)))
  let (w, unread) := filled 0 whole
  if fraction.isNone && power.isNone && unread = 0 && ! (negative && w = 0) then
    StateT.lift (Number.ofInt? (if negative then -(w : Int) else w))
  else
    let ds := fraction.getD []
    let (w, unreadBehind) := filled w ds
    let exponent := (unread : Int) - (ds.length - unreadBehind : Nat) + power.getD 0
    StateT.lift ((Number.scaled? (Float.ofNat w) exponent).bind fun x =>
      Number.ofFloat? (if negative then -x else x))

/-- A value of at most the given depth. -/
def value : Nat → Reader Json
  | 0 => failure
  | depth + 1 =>
    token <|
      (do word "null"; return .null)
      <|> (do word "true"; return .bool true)
      <|> (do word "false"; return .bool false)
      <|> (do return .string (← stringLiteral))
      <|> (do return .number (← numberLiteral))
      <|> (do
        symbol "["
        let items ← maybe (sepBy1 (value depth) (symbol ","))
        word "]"
        return .array (items.getD []))
      <|> (do
        symbol "\x7b"
        let members ← maybe (sepBy1 (do
          let k ← token stringLiteral
          symbol ":"
          let v ← value depth
          return (k, v)) (symbol ","))
        word "\x7d"
        return .object (Table.ofList (members.getD [])))

/-- **The value of a JSON text.** -/
def read? (s : String) : Option Json :=
  let text := s.toList
  whole? (do gap; value (text.length + 1)) text

end QueryPress.Json
