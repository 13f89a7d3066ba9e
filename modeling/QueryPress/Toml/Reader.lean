import QueryPress.Json.Reader
import QueryPress.Toml.Basic

/-!
# Toml/Reader — the grammar of TOML documents

Version 1.1 of the format. A whole number has to fit 128 bits and a float has to be finite unless it
is written as `inf` or `nan`; the line ends in a string are kept as they are. Brackets and braces
open at most `depthLimit` deep inside each other, and a key has at most as many parts.
-/

namespace QueryPress.Toml.Grammar

open Reader

/-! ## White space and lines -/

/-- A blank within a line. -/
def isBlank (c : Char) : Bool := c == ' ' || c == '\t'

/-- Blanks within a line. -/
def blanks : Reader Unit := do let _ ← run isBlank

/-- A control character, which may not stand in comments and strings. -/
def isControl (c : Char) : Bool := (c.toNat < 0x20 && c != '\t') || c.toNat == 0x7F

/-- The end of a line. -/
def newline : Reader Unit := word "\n" <|> word "\r\n"

/-- A comment, up to the end of its line. -/
def comment : Reader Unit := do
  word "#"
  let _ ← run (! isControl ·)

/-- What may stand behind a line's content. -/
def lineEnd : Reader Unit := do
  blanks
  let _ ← maybe comment
  newline <|> finish

/-- How deep arrays and tables may stand inside each other in one value, and names in one key. -/
def depthLimit : Nat := 80

/-- Blanks, line ends and comments. -/
def spread : Reader Unit := do
  let _ ← many ((do let _ ← run1 isBlank) <|> newline <|> (do comment; newline))

/-! ## Strings and keys -/

/-- A character by its number in hexadecimal digits. -/
def scalar (digits : List Nat) : Reader (List Char) :=
  let n := digits.foldl (fun n d => n * 16 + d) 0
  if n.isValidChar then return [Char.ofNat n] else failure

/-- The character of an escape letter. -/
def escapeLetter? (c : Char) : Option Char :=
  match c with
  | 'b' => some '\x08'
  | 't' => some '\t'
  | 'n' => some '\n'
  | 'f' => some '\x0c'
  | 'r' => some '\r'
  | 'e' => some '\x1b'
  | '"' => some '"'
  | '\\' => some '\\'
  | _ => none

/-- `n` hexadecimal digits. -/
def hexDigits : Nat → Reader (List Nat)
  | 0 => return []
  | n + 1 => do
    let d ← Json.hexDigit
    return d :: (← hexDigits n)

/-- An escape. -/
def escape : Reader (List Char) := do
  word "\\"
  (do word "x"; scalar (← hexDigits 2))
    <|> (do word "u"; scalar (← hexDigits 4))
    <|> (do word "U"; scalar (← hexDigits 8))
    <|> (do
      let c ← charWhere fun _ => true
      match escapeLetter? c with
      | some d => return [d]
      | none => failure)

/-- A character that stands for itself, other than the given quote and, in a basic string, a
backslash. -/
def plain (quote : Char) : Reader (List Char) := do
  let c ← charWhere fun c => c != quote && ! isControl c && (quote == '\'' || c != '\\')
  return [c]

/-- A string on one line with escapes. -/
def basicString : Reader String := do
  word "\""
  let cs ← many (escape <|> plain '"')
  word "\""
  return String.ofList cs.flatten

/-- A string on one line without escapes. -/
def literalString : Reader String := do
  word "'"
  let cs ← many (plain '\'')
  word "'"
  return String.ofList cs.flatten

/-- A line end that an escape takes away, with all white space behind it. -/
def foldedLine : Reader (List Char) := do
  word "\\"
  blanks
  newline
  let _ ← many ((do let _ ← run1 isBlank) <|> newline)
  return []

/-- A line end that stands for itself. -/
def keptLine : Reader (List Char) :=
  (do word "\n"; return ['\n']) <|> (do word "\r\n"; return ['\r', '\n'])

/-- The quotes that close a string over several lines; up to two more quotes in front belong to the
string. -/
def closing (quote : Char) : Reader (List Char) := do
  let qs ← run (· == quote)
  if 3 ≤ qs.length && qs.length ≤ 5 then return List.replicate (qs.length - 3) quote else failure

/-- One or two quotes inside a string over several lines. -/
def quotesInside (quote : Char) : Reader (List Char) := do
  let qs ← run1 (· == quote)
  if qs.length ≤ 2 then return qs else failure

/-- A string over several lines. -/
def longString (quote : Char) (piece : Reader (List Char)) : Reader String := do
  word (String.ofList [quote, quote, quote])
  let _ ← maybe newline
  let cs ← many (piece <|> keptLine <|> quotesInside quote)
  let last ← closing quote
  return String.ofList (cs.flatten ++ last)

/-- A string. -/
def string : Reader String :=
  longString '"' (foldedLine <|> escape <|> plain '"')
  <|> longString '\'' (plain '\'')
  <|> basicString
  <|> literalString

/-- The characters of a key without quotes. -/
def isBare (c : Char) : Bool := c.isAlphanum || c == '-' || c == '_'

/-- A part of a key. -/
def simpleKey : Reader String :=
  (do return String.ofList (← run1 isBare)) <|> basicString <|> literalString

/-- A key, with the parts between its dots. -/
def key : Reader (List String) := do
  let ks ← sepBy1 simpleKey (do blanks; word "."; blanks)
  if depthLimit < ks.length then failure else return ks

/-! ## Numbers and dates -/

/-- Digits of a class, with single underscores between them. -/
def digits (p : Char → Bool) : Reader (List Char) := do
  let first ← charWhere p
  let rest ← many (charWhere p <|> (do word "_"; charWhere p))
  return first :: rest

/-- The value of digits in a base. -/
def valueOf (base : Nat) (ds : List Char) : Nat :=
  ds.foldl (fun n d => n * base + (Json.hexValue? d).getD 0) 0

/-- A sign, and whether it is a minus. -/
def sign : Reader Bool := (do word "-"; return true) <|> (do word "+"; return false) <|> pure false

/-- Decimal digits without a zero in front of others. -/
def wholeDigits : Reader (List Char) := do
  let ds ← digits Char.isDigit
  if 1 < ds.length && ds.head? = some '0' then failure else return ds

/-- What has to stand behind a number, a date or a truth value. -/
def stop : Reader Unit :=
  ahead ((do let _ ← charWhere fun c => isBlank c || c == ',' || c == ']' || c == '\x7d' || c == '#')
    <|> newline <|> finish)

/-- A whole number that fits 128 bits. -/
def fitted (n : Int) : Reader Toml :=
  if -0x80000000000000000000000000000000 ≤ n && n < 0x100000000000000000000000000000000 then
    return .integer n
  else failure

/-- A whole number with the mark of its base in front. -/
def based (mark : String) (base : Nat) (p : Char → Bool) : Reader Toml := do
  word mark
  let ds ← digits p
  stop
  fitted (valueOf base ds)

/-- A whole number. -/
def integer : Reader Toml :=
  based "0x" 16 (fun c => (Json.hexValue? c).isSome)
  <|> based "0o" 8 (fun c => '0' ≤ c && c ≤ '7')
  <|> based "0b" 2 (fun c => c == '0' || c == '1')
  <|> (do
    let negative ← sign
    let ds ← wholeDigits
    stop
    fitted (if negative then -(valueOf 10 ds : Int) else valueOf 10 ds))

/-- The power of ten behind a float. -/
def power : Reader Int := do
  let _ ← charWhere fun c => c == 'e' || c == 'E'
  let negative ← sign
  let ds ← digits Char.isDigit
  return if negative then -(valueOf 10 ds : Int) else valueOf 10 ds

/-- A float. -/
def float : Reader Toml :=
  (do
    let _ ← sign
    word "inf" <|> word "nan"
    stop
    return .float)
  <|> (do
    let _ ← sign
    let whole ← wholeDigits
    let fraction ← maybe (do word "."; digits Char.isDigit)
    let exponent ← maybe power
    stop
    if fraction.isNone && exponent.isNone then failure
    let ds := whole ++ fraction.getD []
    match Number.ofScientific? false (valueOf 10 ds)
        (exponent.getD 0 - ((fraction.getD []).length : Int)) with
    | some _ => return .float
    | none => failure)

/-- Decimal digits, as many as given, with a value between bounds. -/
def field (width low high : Nat) : Reader Nat := do
  let ds ← (List.replicate width ()).mapM fun _ => charWhere Char.isDigit
  let n := valueOf 10 ds
  if low ≤ n && n ≤ high then return n else failure

/-- The number of days in a month. -/
def daysIn (year month : Nat) : Nat :=
  if month = 2 then if year % 4 = 0 && (year % 100 != 0 || year % 400 = 0) then 29 else 28
  else if month = 4 || month = 6 || month = 9 || month = 11 then 30
  else 31

/-- A day. -/
def day : Reader Unit := do
  let year ← field 4 0 9999
  word "-"
  let month ← field 2 1 12
  word "-"
  let _ ← field 2 1 (daysIn year month)

/-- A time of day, perhaps with seconds and a part of a second. -/
def time : Reader Unit := do
  let _ ← field 2 0 23
  word ":"
  let _ ← field 2 0 59
  let _ ← maybe (do
    word ":"
    let _ ← field 2 0 60
    maybe (do word "."; run1 Char.isDigit))

/-- The distance of a time from universal time. -/
def offset : Reader Unit :=
  word "Z" <|> word "z"
  <|> (do
    word "+" <|> word "-"
    let _ ← field 2 0 23
    word ":"
    let _ ← field 2 0 59)

/-- A date, a time, or both. -/
def date : Reader Toml := do
  (do
      day
      let _ ← maybe (do
        word "T" <|> word "t" <|> word " "
        time
        let _ ← maybe offset))
    <|> time
  stop
  return .date

/-- A truth value. -/
def boolean : Reader Toml := do
  let b ← (do word "true"; return true) <|> (do word "false"; return false)
  stop
  return .boolean b

/-! ## Values and documents -/

/-- An array of such items. -/
def array (item : Reader Toml) : Reader Toml := do
  word "["
  let items ← maybe (do
    let all ← sepBy1 (do spread; let v ← item; spread; return v) (word ",")
    let _ ← maybe (word ",")
    return all)
  spread
  word "]"
  return .array false (items.getD [])

/-- A table in braces of such values. -/
def inlineTable (item : Reader Toml) : Reader Toml := do
  word "\x7b"
  let assignments ← maybe (do
    let all ← sepBy1 (do
      spread
      let k ← key
      spread
      word "="
      spread
      let v ← item
      spread
      return (k, v)) (word ",")
    let _ ← maybe (word ",")
    return all)
  spread
  word "\x7d"
  StateT.lift (inlineTable? (assignments.getD []))

/-- A value without brackets and braces. -/
def scalarValue : Reader Toml :=
  (do return .string (← string)) <|> date <|> float <|> integer <|> boolean

/-- A value in which brackets and braces open at most `n` deep. -/
def valueTo : Nat → Reader Toml
  | 0 => scalarValue
  | n + 1 => scalarValue <|> array (valueTo n) <|> inlineTable (valueTo n)

/-- An assignment. -/
def assignment : Reader Line := do
  let k ← key
  blanks
  word "="
  blanks
  let v ← valueTo depthLimit
  return .assignment k v

/-- A header between two delimiters. -/
def headerBetween (opening closing : String) : Reader (List String) := do
  word opening
  blanks
  let k ← key
  blanks
  word closing
  return k

/-- A line without its end. -/
def content : Reader Line :=
  (do return .element (← headerBetween "[[" "]]"))
  <|> (do return .header (← headerBetween "[" "]"))
  <|> assignment
  <|> pure .blank

/-- A line. At the end of the text there is no further one. -/
def line : Reader Line := do
  notAhead finish
  blanks
  let l ← content
  lineEnd
  return l

end QueryPress.Toml.Grammar

namespace QueryPress.Toml

open Reader (whole? many)

/-- **The table of a document**, if it is one. -/
def read? (s : String) : Option (Table Toml) := do
  let text := match s.toList with
    | c :: r => if c = Char.ofNat 0xFEFF then r else c :: r
    | [] => []
  ofLines? [] [] (← whole? (many Grammar.line) text)

end QueryPress.Toml
