import QueryPress.Text.Blank
import QueryPress.Text.Letter
import QueryPress.Text.Reader

/-!
# Text/Pattern — which texts are regular expressions

The expressions are those that a table of states over the bytes of UTF-8 can match: without a look
around, without a reference to a group, and with a word boundary only where it is one of ASCII. A
text is read item by item. Each item has a depth, which counts the groups, repetitions, sequences,
alternatives and classes inside each other and may not pass `depthLimit`.

No closing brace may stand in the text, so everything that opens a brace outside a class is refused.
-/

namespace QueryPress.Pattern

open Reader

/-! ## Flags -/

/-- The flags that decide what can be read. -/
structure Mode where
  /-- Whether white space and comments count for nothing. -/
  spaced : Bool := false
  /-- Whether characters are those of Unicode; else they are bytes, and only ASCII may be classed. -/
  unicode : Bool := true

/-- One of the flags in a group, or the sign that what follows is turned off. -/
def flag : Reader Char := charWhere fun c => "imsUuRx-".toList.contains c

/-- What some flags say of one of them: the last sign in front of it counts. -/
def stateOf (f : Char) (turned : Bool) : List Char → Option Bool
  | [] => none
  | c :: cs => if c = f then some (! turned) else stateOf f (turned || c == '-') cs

/-- Flags, of which none may be repeated and the sign may not be the last. -/
def flags : Reader (List Char) := do
  let fs ← many flag
  if fs.Nodup && fs.getLast? != some '-' then return fs else failure

/-- A mode under further flags. -/
def Mode.under (m : Mode) (fs : List Char) : Mode where
  spaced := (stateOf 'x' false fs).getD m.spaced
  unicode := (stateOf 'u' false fs).getD m.unicode

/-! ## White space and comments -/

/-- A comment, up to the end of its line. -/
def comment : Reader Unit := do
  word "#"
  let _ ← run (· != '\n')
  let _ ← maybe (word "\n")

/-- What counts for nothing. -/
def skip (m : Mode) : Reader Unit :=
  if m.spaced then do
    let _ ← many ((do let _ ← run1 Text.isSpace) <|> comment)
  else pure ()

/-- The character behind the next one, past what counts for nothing: white space, and the sign of
one comment with the white space behind that. -/
def second? (m : Mode) : List Char → Option Char
  | [] => none
  | _ :: rest =>
    if m.spaced then
      let found :=
        match rest.dropWhile Text.isSpace with
        | '#' :: r => r.dropWhile Text.isSpace
        | r => r
      found.head? <|> rest.head?
    else rest.head?

/-! ## Characters -/

/-- What one character or an escape stands for. -/
inductive Symbol
  /-- A character; `byte` says that it is written by two hexadecimal digits. -/
  | literal (c : Char) (byte : Bool)
  /-- A class of characters; `wide` says that it holds some beyond ASCII even among bytes. -/
  | perl (wide : Bool)
  /-- A class of Unicode. -/
  | category
  /-- The start or the end of a text or a line. -/
  | edge
  /-- A boundary of a word. -/
  | boundary

/-- The value of a hexadecimal digit. -/
def hexDigit (m : Mode) : Reader Nat := do
  skip m
  let c ← charWhere fun c => c.isDigit || ('a' ≤ c && c ≤ 'f') || ('A' ≤ c && c ≤ 'F')
  return if c.isDigit then c.toNat - 48 else c.toLower.toNat - 87

/-- A character by so many hexadecimal digits. -/
def hexadecimal (m : Mode) (digits : Nat) : Reader Char := do
  let ds ← (List.replicate digits ()).mapM fun _ => hexDigit m
  skip m
  let n := ds.foldl (fun n d => n * 16 + d) 0
  if n.isValidChar then return Char.ofNat n else failure

/-- A class of Unicode, by the letter of a general category. -/
def category (m : Mode) : Reader Unit := do
  skip m
  let _ ← charWhere fun c => "clmnpsz".toList.contains c.toLower
  skip m

/-- The letters that stand for a control character behind a backslash. -/
def control? (c : Char) : Option Char :=
  match c with
  | 'a' => some '\x07'
  | 'f' => some '\x0c'
  | 't' => some '\t'
  | 'n' => some '\n'
  | 'r' => some '\r'
  | 'v' => some '\x0b'
  | _ => none

/-- What stands behind a backslash. -/
def escaped (m : Mode) : Reader Symbol := do
  let c ← charWhere fun _ => true
  match c with
  | 'x' => return .literal (← hexadecimal m 2) true
  | 'u' => return .literal (← hexadecimal m 4) false
  | 'U' => return .literal (← hexadecimal m 8) false
  | 'p' | 'P' => do category m; return .category
  | 'd' | 's' | 'w' => return .perl false
  | 'D' | 'S' | 'W' => return .perl true
  | 'A' | 'z' => return .edge
  | 'b' | 'B' | '<' | '>' => return .boundary
  | c =>
    match control? c with
    | some d => return .literal d false
    | none => if c.toNat < 0x80 && ! c.isAlphanum then return .literal c false else failure

/-- One character or an escape. -/
def symbol (m : Mode) : Reader Symbol :=
  (do word "\\"; escaped m)
  <|> (do
    let c ← charWhere (· != '\\')
    return .literal c false)

/-- Whether a symbol can be matched outside a class. -/
def Symbol.isMatchable (m : Mode) : Symbol → Bool
  | literal c byte => m.unicode || ! byte || c.toNat < 0x80
  | perl wide => m.unicode || ! wide
  | category => m.unicode
  | edge => true
  | boundary => ! m.unicode

/-- Whether a symbol can stand in a class. -/
def Symbol.isClassable (m : Mode) : Symbol → Bool
  | literal c _ => m.unicode || c.toNat < 0x80
  | perl wide => m.unicode || ! wide
  | category => m.unicode
  | edge | boundary => false

/-- The character that a symbol is, where it can be an end of a range. -/
def Symbol.char? (m : Mode) : Symbol → Option Char
  | literal c _ => if m.unicode || c.toNat < 0x80 then some c else none
  | _ => none

/-! ## Depths -/

/-- How deep the parts of an expression may stand inside each other. -/
def depthLimit : Nat := 250

/-- The largest of some depths. -/
def largest (ds : List Nat) : Nat := ds.foldl max 0

/-- The depth of some parts as one: a single part stands for itself. -/
def together : List Nat → Nat
  | [] => 0
  | [d] => d
  | ds => largest ds + 1

/-! ## Classes -/

/-- A class that has been opened: the depths of its members so far, the last first, and the depth of
what stands in front of the last operation on classes. -/
structure OpenClass where
  members : List Nat := []
  left : Option Nat := none

/-- The depth of what an open class holds. -/
def OpenClass.depth (c : OpenClass) : Nat :=
  match c.left with
  | none => together c.members
  | some d => max d (together c.members) + 1

/-- An open class with one more member. -/
def OpenClass.add (c : OpenClass) (depth : Nat) : OpenClass :=
  { c with members := depth :: c.members }

/-- The start of a class, in which any number of dashes, or else a closing bracket, comes first. -/
def classStart (m : Mode) : Reader OpenClass := do
  word "["
  skip m
  let negated ← given (do word "^"; skip m)
  if negated && ! m.unicode then failure
  let dashes ← many (do word "-"; skip m)
  let c : OpenClass := { members := dashes.map fun _ => 0 }
  if ! dashes.isEmpty then return c
  return if ← given (do word "]"; skip m) then c.add 0 else c

/-- The names of the classes of ASCII. -/
def classNames : List String :=
  ["alnum", "alpha", "ascii", "blank", "cntrl", "digit", "graph", "lower", "print", "punct", "space",
   "upper", "word", "xdigit"]

/-- A class of ASCII by its name, and whether it is all but that. -/
def namedClass : Reader Bool := do
  word "[:"
  let negated ← given (word "^")
  let n ← run (· != ':')
  word ":]"
  if classNames.contains (String.ofList n) then return negated else failure

/-- An operation on classes. -/
def classOperation : Reader Unit := word "&&" <|> word "--" <|> word "~~"

/-- A character, a class without brackets, or a range. -/
def classMember (m : Mode) : Reader Unit := do
  let first ← symbol m
  skip m
  let rest ← get
  if rest.head? != some '-' || second? m rest = some ']' || second? m rest = some '-' then
    if first.isClassable m then pure () else failure
  else do
    word "-"
    skip m
    let last ← symbol m
    match first.char? m, last.char? m with
    | some a, some b => if a ≤ b then pure () else failure
    | _, _ => failure

/-- What stands in open classes, the innermost first, up to the end of the outermost, in at most `n`
steps; gives the depth of the class. -/
def classTo (m : Mode) : Nat → OpenClass → List OpenClass → Reader Nat
  | 0, _, _ => failure
  | n + 1, c, outer => do
    skip m
    match ← maybe namedClass with
    | some negated => if negated && ! m.unicode then failure else classTo m n (c.add 0) outer
    | none =>
      match ← maybe (classStart m) with
      | some inner => classTo m n inner (c :: outer)
      | none =>
        if ← given (word "]") then
          match outer with
          | [] => return c.depth + 1
          | d :: ds => classTo m n (d.add (c.depth + 1)) ds
        else if ← given classOperation then
          classTo m n { left := some c.depth } outer
        else do
          notAhead (word "[")
          classMember m
          classTo m n (c.add 0) outer

/-- A class in brackets. -/
def bracketed (m : Mode) : Reader Nat := do
  let c ← classStart m
  let s ← get
  classTo m (s.length + 1) c []

/-! ## Groups and repetitions -/

/-- An item of a sequence: its depth, or flags for what follows, which cannot be repeated. -/
inductive Item
  | part (depth : Nat)
  | flags

/-- The depth of an item. -/
def Item.depth : Item → Nat
  | part d => d
  | flags => 0

/-- A group that has been opened, or the whole: the depths of its alternatives so far, the items of
the last one, the last first, and the mode to return to behind it. -/
structure OpenGroup where
  alternatives : List Nat := []
  items : List Item := []
  after : Mode

/-- The depth of an open group's last alternative. -/
def OpenGroup.lastDepth (g : OpenGroup) : Nat := together (g.items.map Item.depth)

/-- The depth of what an open group holds. -/
def OpenGroup.depth (g : OpenGroup) : Nat := together (g.lastDepth :: g.alternatives)

/-- An open group with one more item. -/
def OpenGroup.add (g : OpenGroup) (i : Item) : OpenGroup := { g with items := i :: g.items }

/-- How far an expression has been read. -/
structure Progress where
  mode : Mode := {}
  /-- The innermost group that is open, or the whole. -/
  group : OpenGroup := { after := {} }
  /-- The groups around it, the innermost first, and the whole. -/
  outer : List OpenGroup := []
  /-- The names of groups. -/
  names : List String := []

/-- An expression read as far as one more item. -/
def Progress.add (p : Progress) (i : Item) : Progress := { p with group := p.group.add i }

/-- The start of a look around, which is refused. -/
def lookAround : Reader Unit := word "?=" <|> word "?!" <|> word "?<=" <|> word "?<!"

/-- The name of a group, up to its end. -/
def groupName : Reader String := do
  let c ← charWhere fun c => c == '_' || Text.isAlphabetic c
  let cs ← run fun c => c == '_' || c == '.' || c == '[' || c == ']' || Text.isAlphanumeric c
  word ">"
  return String.ofList (c :: cs)

/-- An opening parenthesis with what belongs to it: a group, or flags for what follows. -/
def opening (p : Progress) : Reader Progress := do
  word "("
  skip p.mode
  notAhead lookAround
  let entered (m : Mode) (names : List String) : Progress :=
    { mode := m, group := { after := p.mode }, outer := p.group :: p.outer, names }
  if ← given (word "?P<" <|> word "?<") then
    let n ← groupName
    if p.names.contains n then failure else return entered p.mode (n :: p.names)
  else if ← given (word "?") then
    let fs ← flags
    if ← given (word ":") then return entered (p.mode.under fs) p.names
    else do
      word ")"
      if fs.isEmpty then failure
      return { p.add .flags with mode := p.mode.under fs }
  else return entered p.mode p.names

/-- The end of a group. -/
def closing (p : Progress) : Reader Progress := do
  word ")"
  match p.outer with
  | [] => failure
  | g :: gs =>
    return { p with mode := p.group.after, group := g.add (.part (p.group.depth + 1)), outer := gs }

/-- The end of an alternative. -/
def alternative (p : Progress) : Reader Progress := do
  word "|"
  let g := p.group
  return { p with group := { g with alternatives := g.lastDepth :: g.alternatives, items := [] } }

/-- A repetition of the last item, perhaps as short as can be. -/
def repetition (p : Progress) : Reader Progress := do
  let _ ← charWhere fun c => c == '?' || c == '*' || c == '+'
  let _ ← maybe (word "?")
  match p.group.items with
  | .part d :: rest => return { p with group := { p.group with items := .part (d + 1) :: rest } }
  | _ => failure

/-- A character, an escape, or one of the signs for any character and for the ends of a line. -/
def single (p : Progress) : Reader Progress := do
  if ← given (word ".") then
    if p.mode.unicode then return p.add (.part 0) else failure
  else do
    let s ← symbol p.mode
    if s.isMatchable p.mode then return p.add (.part 0) else failure

/-- One step of reading, which the next character decides. -/
def step (p : Progress) : Reader Progress := do
  match (← get).head? with
  | some '(' => opening p
  | some ')' => closing p
  | some '|' => alternative p
  | some '[' => return p.add (.part (← bracketed p.mode))
  | some '?' | some '*' | some '+' => repetition p
  | some '\x7b' => failure
  | _ => single p

/-- Reads up to the end of the text in at most `n` steps. -/
def readTo : Nat → Progress → Reader Progress
  | 0, _ => failure
  | n + 1, p => do
    skip p.mode
    if ← given finish then return p else readTo n (← step p)

/-- **Whether a text is a regular expression.** -/
def isValid (s : List Char) : Bool :=
  match readTo (s.length + 1) {} s with
  | some (p, _) => p.outer.isEmpty && p.group.depth ≤ depthLimit
  | none => false

end QueryPress.Pattern
