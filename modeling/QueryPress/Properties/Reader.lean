import QueryPress.Json.Reader
import QueryPress.Table
import QueryPress.Text.Blank

/-!
# Properties/Reader — the entries of a properties text

A text is cut into lines, lines are joined into entries, and an entry is a key, a separator and a
value. A backslash at the end of a line that is not itself escaped joins the next line to it; a key
ends at its first unescaped separator; escapes are decoded last, as 16-bit units, so that two of
them can make one character.
-/

namespace QueryPress.Properties

/-- The lines of a text: each ends at a line feed, of which a carriage return in front is part. -/
def lines : List Char → List (List Char)
  | [] => []
  | '\r' :: '\n' :: r => [] :: lines r
  | '\n' :: r => [] :: lines r
  | c :: r =>
    match lines r with
    | [] => [[c]]
    | l :: ls => (c :: l) :: ls

/-- The blanks of a properties text. -/
def isBlank (c : Char) : Bool := c == ' ' || c == '\t' || c == '\x0c'

/-- The characters that separate a key from its value. -/
def isSeparator (c : Char) : Bool := c == '=' || c == ':'

/-- The text without the blanks it begins with. -/
def dropBlanks (s : List Char) : List Char := Text.dropStart isBlank s

/-- Whether a line ends in an odd number of backslashes, which joins the next line to it. -/
def isOpen (line : List Char) : Bool := (line.reverse.takeWhile (· == '\\')).length % 2 == 1

/-- Whether a line without its leading blanks is empty or a comment. -/
def isIdle : List Char → Bool
  | [] => true
  | c :: _ => c == '#' || c == '!'

/-- A line and all the lines that are joined to it, and the lines that are left. -/
def joined (line : List Char) : List (List Char) → List Char × List (List Char)
  | [] => (if isOpen line then line.dropLast else line, [])
  | next :: rest =>
    if isOpen line then joined (line.dropLast ++ dropBlanks next) rest else (line, next :: rest)

theorem length_joined_le (line : List Char) (rest : List (List Char)) :
    (joined line rest).2.length ≤ rest.length := by
  induction rest generalizing line with
  | nil => simp [joined]
  | cons next rest ih =>
    simp only [joined]
    split
    · exact Nat.le_succ_of_le (ih _)
    · exact Nat.le_refl _

/-- The entries of a list of lines, each as one line. -/
def entryLines : List (List Char) → List (List Char)
  | [] => []
  | line :: rest =>
    if isIdle (dropBlanks line) then entryLines rest
    else (joined (dropBlanks line) rest).1 :: entryLines (joined (dropBlanks line) rest).2
termination_by ls => ls.length
decreasing_by
  · simp
  · exact Nat.lt_succ_of_le (length_joined_le _ _)

/-- The key of an entry, as it is written, and what stands behind it. -/
def splitKey : List Char → List Char × List Char
  | '\\' :: c :: r => ('\\' :: c :: (splitKey r).1, (splitKey r).2)
  | c :: r =>
    if isSeparator c || isBlank c then ([], c :: r) else (c :: (splitKey r).1, (splitKey r).2)
  | [] => ([], [])

/-- The value of an entry, as it is written, from what stands behind its key: blanks, at most one
separator and blanks again are passed over. -/
def valueOf (s : List Char) : List Char :=
  match dropBlanks s with
  | [] => []
  | c :: r => if isSeparator c then dropBlanks r else c :: r

/-- The character that an escape letter stands for. -/
def escaped (c : Char) : Char :=
  match c with
  | 't' => '\t'
  | 'n' => '\n'
  | 'r' => '\r'
  | 'f' => '\x0c'
  | other => other

/-- Four hexadecimal digits as a unit. -/
def unit? (a b c d : Char) : Option Nat := do
  let a ← Json.hexValue? a
  let b ← Json.hexValue? b
  let c ← Json.hexValue? c
  let d ← Json.hexValue? d
  return ((a * 16 + b) * 16 + c) * 16 + d

/-- A written key or value as 16-bit units; a lone backslash at the end is dropped. -/
def unescapedUnits : List Char → List Nat
  | '\\' :: 'u' :: a :: b :: c :: d :: r =>
    match unit? a b c d with
    | some u => u :: unescapedUnits r
    | none => Text.unitsOf 'u' ++ unescapedUnits (a :: b :: c :: d :: r)
  | '\\' :: c :: r => Text.unitsOf (escaped c) ++ unescapedUnits r
  | ['\\'] => []
  | c :: r => Text.unitsOf c ++ unescapedUnits r
  | [] => []

/-- What a written key or value means. -/
def unescape (s : List Char) : String := String.ofList (Text.ofUnits (unescapedUnits s))

/-- The key and the value of an entry. -/
def entry (line : List Char) : String × String :=
  (unescape (splitKey line).1, unescape (valueOf (splitKey line).2))

/-- The entries of a text, in order. -/
def entries (text : List Char) : List (String × String) := (entryLines (lines text)).map entry

/-- **The properties of a text** — of two entries with one key the later one counts. -/
def read (text : String) : Table String := Table.ofList (entries text.toList)

/-- A key and what stands behind it make up the entry. -/
theorem splitKey_append (s : List Char) : (splitKey s).1 ++ (splitKey s).2 = s := by
  fun_induction splitKey s <;> simp_all

end QueryPress.Properties
