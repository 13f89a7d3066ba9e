import QueryPress.Error
import QueryPress.Text.Pattern

/-!
# LogDirective — which filters of log lines are accepted

A directive names a target, a span with fields in brackets, and a level behind an equals sign; each
part may be missing, but not all of them. A word alone is a level or a target. A field may have a
value, which is a number or a regular expression. A directive is read one character at a time.
-/

namespace QueryPress.LogDirective

open Reader

/-- How far a directive has been read, with the places where a field or a level starts. -/
inductive Phase
  | start
  /-- In a word that is a level or a target. -/
  | word
  | span
  | field (since : Nat)
  /-- Behind the fields of a span. -/
  | fields
  /-- Behind a span. -/
  | target
  | level (since : Nat)
  | complete
  deriving DecidableEq, Repr

/-- Whether a directive may start with a character. -/
def startsWord (c : Char) : Bool := Text.isAlphanumeric c || c == '-' || c == ':' || c == '_'

/-! ## Levels -/

/-- The names of levels. -/
def levelNames : List String := ["error", "warn", "info", "debug", "trace", "off"]

/-- Whether a text is a number from 0 to 5. -/
def isLevelNumber (s : List Char) : Bool :=
  let ds := if s.head? = some '+' then s.drop 1 else s
  ! ds.isEmpty && ds.all Char.isDigit && ds.foldl (fun n d => n * 10 + (d.toNat - 48)) 0 ≤ 5

/-- Whether a text is a level: nothing, a name in letters of any case, or a number. -/
def isLevel (s : List Char) : Bool :=
  s.isEmpty || levelNames.contains (String.ofList (s.map Char.toLower)) || isLevelNumber s

/-! ## Fields -/

/-- The power of ten behind a number. -/
def power : Reader Unit := do
  let _ ← charWhere fun c => c == 'e' || c == 'E'
  let _ ← maybe (word "+" <|> word "-")
  let _ ← run1 Char.isDigit

/-- Decimal digits with a point among, before or behind them, or without one. -/
def digits : Reader Unit :=
  (do
    let _ ← run1 Char.isDigit
    let _ ← maybe (do word "."; run Char.isDigit))
  <|> (do
    word "."
    let _ ← run1 Char.isDigit)

/-- A number with a sign or without one. -/
def number : Reader Unit := do
  let _ ← maybe (word "+" <|> word "-")
  digits
  let _ ← maybe power

/-- The words for what is no finite number. -/
def endlessNames : List String := ["inf", "infinity", "nan"]

/-- Whether a text is one of the words for what is no finite number, perhaps with a sign. -/
def isEndless (s : List Char) : Bool :=
  let s := if s.head? = some '+' || s.head? = some '-' then s.drop 1 else s
  endlessNames.contains (String.ofList (s.map Char.toLower))

/-- Whether a text is a number. -/
def isNumber (s : List Char) : Bool := (whole? number s).isSome || isEndless s

/-- The value of a field, if it has one: what is between its first equals sign and the next. -/
def valueOf? (field : List Char) : Option (List Char) :=
  match field.dropWhile (· != '=') with
  | [] => none
  | _ :: r => some (r.takeWhile (· != '='))

/-- Whether a text is a field. -/
def isField (s : List Char) : Bool :=
  ! s.isEmpty && (valueOf? s).all fun v => isNumber v || Pattern.isValid v

/-! ## Directives -/

/-- The text from one place up to another, both counted in bytes. -/
def between? (directive : String) (since upTo : Nat) : Option (List Char) :=
  (String.fromUTF8? (directive.toUTF8.extract since upTo)).map String.toList

/-- What one character does, at its place in the directive. -/
def step (directive : String) (i : Nat) : Phase → Char → Option Phase
  | .start, c =>
    if c = '[' then some .span else if startsWord c then some .word else none
  | .word, c =>
    some (if c = '=' then .level (i + 1) else if c = '[' then .span
      else if c = ',' then .complete else .word)
  | .target, c => if c = '=' then some (.level (i + 1)) else none
  | .span, c =>
    some (if c = ']' then .target else if c = '\x7b' then .field (i + 1) else .span)
  | .field since, c =>
    if c = '\x7d' || c = ',' then
      if (between? directive since i).any isField then
        some (if c = ',' then .field (i + 1) else .fields)
      else none
    else some (.field since)
  | .fields, c => if c = ']' then some .target else none
  | .level since, c =>
    if c = ',' then if (between? directive since i).any isLevel then some .complete else none
    else some (.level since)
  | .complete, _ => none

/-- Reads characters from a place on. -/
def follow (directive : String) : (i : Nat) → Phase → List Char → Option Phase
  | _, p, [] => some p
  | i, p, c :: cs => (step directive i p c).bind fun p => follow directive (i + c.utf8Size) p cs

/-- **Whether a directive is accepted.** White space around it is passed over, but places are counted
without what is in front, so a field or a level is looked for that much too early. -/
def isAccepted (directive : String) : Bool :=
  match follow directive 0 .start (Text.trim directive.toList) with
  | some .word | some .target | some .complete => true
  | some (.level since) => (between? directive since directive.utf8ByteSize).any isLevel
  | _ => false

/-- Accepts a directive, or says that it is not one. -/
def check (directive : String) : Except Error Unit :=
  if isAccepted directive then .ok () else .error (.config (.invalidDirective directive))

end QueryPress.LogDirective
