import QueryPress.Text.Blank
import QueryPress.Text.Reader

/-!
# Reference — the pages that a text names

References are found without reading the text as a page: what stands in comments and raw stretches is
passed over, and every tag that includes, imports or extends names its candidates, one in quotes or
several in brackets. Only double and single quotes count here.
-/

namespace QueryPress

/-- Pages that a text asks for: the first candidate that there is will do, and an optional reference
may have none. -/
structure Reference where
  candidates : List String
  optional : Bool
  deriving DecidableEq, Repr

namespace Reference

open Reader

/-- The candidates as one text. -/
def described (r : Reference) : String := ", ".intercalate r.candidates

/-- White space, as much as there is. -/
def spaces : Reader Unit := do let _ ← run Text.isSpace

/-- White space, of which there must be some. -/
def spaces1 : Reader Unit := do let _ ← run1 Text.isSpace

/-- A dash, which may be missing. -/
def dash : Reader Unit := do let _ ← given (word "-")

/-- A tag that opens or closes a raw stretch. -/
def rawTag (keyword : String) : Reader Unit := do
  word "\x7b%"; dash; spaces; word keyword; spaces; dash; word "%\x7d"

/-- A raw stretch with its tags. -/
def rawStretch : Reader Unit := do
  rawTag "raw"
  let _ ← before (rawTag "endraw")
  rawTag "endraw"

/-- A comment. -/
def comment : Reader Unit := do
  word "\x7b#"
  let _ ← before (word "#\x7d")
  word "#\x7d"

/-- The text without comments and raw stretches, of which the one that starts first counts. -/
def visible (s : List Char) : List Char := without (rawStretch <|> comment) s

/-- A name between two of the given quotes, not empty. -/
def quotedBy (q : Char) : Reader String := do
  let _ ← charWhere (· == q)
  let cs ← run1 (· != q)
  let _ ← charWhere (· == q)
  return String.ofList cs

/-- A name in quotes. -/
def quoted : Reader String := quotedBy '"' <|> quotedBy '\''

/-- Candidates in brackets. -/
def bracketed : Reader (List String) := do
  word "["
  let cs ← run (· != ']')
  word "]"
  return scan quoted cs

/-- The words that ask for a page. -/
def askingWord : Reader Unit := word "include" <|> word "import" <|> word "extends"

/-- The words by which a reference is optional. -/
def optionalWords : String := "ignore missing"

/-- A tag that asks for a page. -/
def reader : Reader Reference := do
  word "\x7b%"; dash; spaces
  askingWord
  spaces1
  let candidates ← (do return [← quoted]) <|> bracketed
  let rest ← run (· != '%')
  word "%\x7d"
  return { candidates, optional := (before (word optionalWords) rest).isSome }

/-- **The references of a text**, in order; a list without a candidate is none. -/
def ofText (text : String) : List Reference :=
  (scan reader (visible text.toList)).filter (! ·.candidates.isEmpty)

theorem candidates_ne_nil {text : String} {r : Reference} (h : r ∈ ofText text) :
    r.candidates ≠ [] := by
  simpa [ofText] using (List.mem_filter.1 h).2

end Reference

end QueryPress
