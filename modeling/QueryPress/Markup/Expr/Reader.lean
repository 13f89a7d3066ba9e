import QueryPress.Json.Reader
import QueryPress.Markup.Expr

/-!
# Markup/Expr/Reader — the grammar of expressions

From the tightest to the loosest: a value or a number in parentheses, the operations on numbers,
filters, one comparison, `not`, `and`, `or`. A text in quotes takes no part in operations but can be
joined to others by `~`. Every reader takes the white space behind what it reads. A text of `n`
characters nests less than `n` deep, so a bound on the depth stops no reader.
-/

namespace QueryPress.Grammar

open Reader

/-! ## Names and literals -/

/-- The characters that a name starts with. -/
def isNameStart (c : Char) : Bool := c.isAlpha || c == '_'

/-- The characters of a name. -/
def isNameChar (c : Char) : Bool := c.isAlphanum || c == '_'

/-- A name. -/
def name : Reader String := do
  let c ← charWhere isNameStart
  let cs ← run isNameChar
  return String.ofList (c :: cs)

/-- A name with members and positions behind dots. -/
def dottedName : Reader Expr := do
  let root ← name
  let members ← many (do
    word "."
    return String.ofList (← run1 isNameChar))
  return .path root members

/-- A text between two of the given quotes. -/
def quotedBy (q : Char) : Reader String := do
  let _ ← charWhere (· == q)
  let cs ← run (· != q)
  let _ ← charWhere (· == q)
  return String.ofList cs

/-- A text in double, single or back quotes; nothing is escaped in it. -/
def quoted : Reader String := quotedBy '"' <|> quotedBy '\'' <|> quotedBy '\x60'

/-- A text in quotes as a value. -/
def text : Reader Json := do return .string (← quoted)

/-- Decimal digits without a zero in front. -/
def wholeDigits : Reader (List Char) :=
  (do word "0"; return ['0'])
  <|> (do
    let c ← charWhere (fun c => c.isDigit && c != '0')
    let cs ← run Char.isDigit
    return c :: cs)

/-- A number with a point. -/
def double : Reader Number := do
  let negative ← given (word "-")
  let whole ← wholeDigits
  word "."
  let ds ← run1 Char.isDigit
  StateT.lift (Number.ofScientific? negative (Json.decimal (whole ++ ds)) (-(ds.length : Int)))

/-- A number without a point, which has to fit a signed word. -/
def integer : Reader Number := do
  let negative ← given (word "-")
  let whole ← wholeDigits
  let n : Int := if negative then -(Json.decimal whole : Int) else Json.decimal whole
  if Number.isSigned n then return .whole n else failure

/-- A number. -/
def number : Reader Json := do
  let n ← double <|> integer
  return .number n

/-- One of the words for a truth value, which no name may begin with. -/
def boolean : Reader Json := do
  let b ← (do word "true" <|> word "True"; return true)
    <|> (do word "false" <|> word "False"; return false)
  return .bool b

/-- A reader of values as one of expressions, with the white space behind it. -/
def literally (p : Reader Json) : Reader Expr := do return .literal (← token p)

/-- A word that joins or turns judgements. -/
def connective (t : String) : Reader Unit := token (do word t; let _ ← charWhere isGap)

/-- Any number of items with commas in between, and perhaps one behind the last. -/
def separated {α : Type} (item : Reader α) : Reader (List α) := do
  let items? ← maybe (do
    let all ← sepBy1 item (symbol ",")
    let _ ← given (symbol ",")
    return all)
  return items?.getD []

/-! ## Operators -/

/-- An operation on numbers. -/
def operation : Reader Operation :=
  (do symbol "+"; return .add)
  <|> (do symbol "*"; return .times)
  <|> (do symbol "%"; return .modulo)

/-- A comparison. -/
def comparison : Reader Comparison :=
  (do symbol "<="; return .lessOrEqual)
  <|> (do symbol ">="; return .greaterOrEqual)
  <|> (do symbol ">"; return .greater)
  <|> (do symbol "<"; return .less)
  <|> (do symbol "=="; return .equal)
  <|> (do symbol "!="; return .unequal)

/-- A sum, of which there may be nothing yet, and one more summand. -/
def plus (total : Option Expr) (summand : Expr) : Expr :=
  match total with
  | none => summand
  | some t => .math .add t summand

/-- Operands and operations as one expression: products before sums, each from the left. -/
def arranged (total : Option Expr) (product : Expr) : List (Operation × Expr) → Expr
  | [] => plus total product
  | (.add, e) :: rest => arranged (some (plus total product)) e rest
  | (op, e) :: rest => arranged total (.math op product e) rest

/-- A disjunction, of which there may be nothing yet, and one more side. -/
def orElse (total : Option Expr) (side : Expr) : Expr :=
  match total with
  | none => side
  | some t => .either t side

/-- Judgements and the words between them as one expression: `and`, marked `true`, before `or`, each
from the left. -/
def joined (total : Option Expr) (side : Expr) : List (Bool × Expr) → Expr
  | [] => orElse total side
  | (false, e) :: rest => joined (some (orElse total side)) e rest
  | (true, e) :: rest => joined total (.both side e) rest

/-! ## Levels

Each level is given readers of what may stand inside parentheses. -/

/-- Named arguments in parentheses, of which the last of one name counts. -/
def arguments (argument : Reader Expr) : Reader (List (String × Expr)) := do
  symbol "("
  let all ← separated (do
    let n ← token name
    symbol "="
    let e ← argument
    return (n, e))
  symbol ")"
  return Table.ofList all

/-- A function and its arguments. -/
def functionCall (argument : Reader Expr) : Reader Expr := do
  let f ← token name
  let args ← arguments argument
  return .call f args

/-- A macro of a namespace and its arguments. -/
def macroCall (argument : Reader Expr) : Reader Expr := do
  let space ← token name
  symbol "::"
  let n ← token name
  let args ← arguments argument
  return .expand space n args

/-- The filters behind an expression. -/
def filtersOf (argument : Reader Expr) (e : Expr) : Reader Expr := do
  let fs ← many (do
    symbol "|"
    let f ← token name
    let args ← maybe (arguments argument)
    return (f, args.getD []))
  return fs.foldl (fun e (f, args) => .apply e f args) e

/-- A value that takes part in operations. -/
def operand (basic argument : Reader Expr) : Reader Expr :=
  (do symbol "("; let e ← basic; symbol ")"; return e)
  <|> literally boolean
  <|> macroCall argument
  <|> functionCall argument
  <|> token dottedName
  <|> literally number

/-- Values and operations. -/
def sum (operand : Reader Expr) : Reader Expr := do
  let e ← operand
  let rest ← many (do let op ← operation; let e ← operand; return (op, e))
  return arranged none e rest

/-- Values and operations with filters behind them. -/
def filteredSum (basic argument : Reader Expr) : Reader Expr := do
  filtersOf argument (← sum (operand basic argument))

/-- What can be joined by `~`. -/
def textPart (argument : Reader Expr) : Reader Expr :=
  functionCall argument
  <|> literally number
  <|> literally text
  <|> token dottedName

/-- Joined texts, or one text in quotes, with filters. -/
def filteredText (argument : Reader Expr) : Reader Expr := do
  let e ← (do
      let first ← textPart argument
      let rest ← many1 (do symbol "~"; textPart argument)
      return .concat (first :: rest))
    <|> literally text
  filtersOf argument e

/-- One side of a comparison. -/
def side (basic argument : Reader Expr) : Reader Expr :=
  filteredText argument <|> sum (filteredSum basic argument)

/-- A side, or two sides and a comparison. -/
def compared (basic argument : Reader Expr) : Reader Expr := do
  let l ← side basic argument
  let r ← maybe (do let op ← comparison; let r ← side basic argument; return (op, r))
  match r with
  | none => return l
  | some (op, r) => return .compare op l r

/-- An expression as parentheses leave it: a `not` that stands in front of all of it is lost. -/
def unturned : Expr → Expr
  | .negated e => e
  | e => e

/-- A comparison, perhaps turned by `not`, or a judgement in parentheses. -/
def judgement (basic argument logic : Reader Expr) : Reader Expr :=
  (do
    let turned ← given (connective "not")
    let e ← compared basic argument
    return if turned then .negated e else e)
  <|> (do symbol "("; let e ← logic; symbol ")"; return unturned e)

/-- Judgements joined by words. -/
def judgements (basic argument logic : Reader Expr) : Reader Expr := do
  let e ← judgement basic argument logic
  let rest ← many (do
    let both ← (do connective "or"; return false) <|> (do connective "and"; return true)
    let e ← judgement basic argument logic
    return (both, e))
  return joined none e rest

/-- A list in brackets, with filters. -/
def filteredArray (basic argument logic : Reader Expr) : Reader Expr := do
  symbol "["
  let items ← separated (judgement basic argument logic)
  symbol "]"
  filtersOf argument (.array items)

mutual

/-- What may stand in parentheses inside operations, at most `n` deep. -/
def basicTo : Nat → Reader Expr
  | 0, _ => none
  | n + 1, s => sum (operand (basicTo n) (argumentTo n)) s

/-- What may stand in parentheses as a judgement, at most `n` deep. -/
def logicTo : Nat → Reader Expr
  | 0, _ => none
  | n + 1, s => judgements (basicTo n) (argumentTo n) (logicTo n) s

/-- An expression or a list, at most `n` deep. -/
def argumentTo : Nat → Reader Expr
  | 0, _ => none
  | n + 1, s =>
    (judgements (basicTo n) (argumentTo n) (logicTo n)
      <|> filteredArray (basicTo n) (argumentTo n) (logicTo n)) s

end

/-- **An expression or a list** — what may be written, set and passed as an argument. -/
def expression : Reader Expr := fun s => argumentTo (s.length + 1) s

/-- **An expression** that is no list in brackets. -/
def condition : Reader Expr := fun s => logicTo (s.length + 1) s

/-- **What can be walked through** — a value or operations, or a list, with filters. -/
def container : Reader Expr := fun s =>
  let n := s.length + 1
  (filteredSum (basicTo n) (argumentTo n)
    <|> filteredArray (basicTo n) (argumentTo n) (logicTo n)) s

/-- A value that stands in for an argument of a macro. -/
def literal : Reader Json := boolean <|> text <|> number

end QueryPress.Grammar
