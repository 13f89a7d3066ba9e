import QueryPress.Markup.Expr.Reader
import QueryPress.Markup.Page.Piece

/-!
# Markup/Page/Reader — the grammar of pages

A page names its parent and imports other pages first, with nothing but comments and white space
before; then come texts and tags, which are read as pieces. What may stand inside what is a matter of
the `Setting`.
-/

namespace QueryPress.Page

open Reader

/-! ## Delimiters -/

/-- The delimiter that opens a tag, with its dash. -/
def openTag : Reader Bool := do word "\x7b%"; given (word "-")

/-- The delimiter that closes a tag, with its dash. -/
def closeTag : Reader Bool :=
  (do word "-%\x7d"; return true) <|> (do word "%\x7d"; return false)

/-- The delimiter that opens a value, with its dash. -/
def openValue : Reader Bool := do word "\x7b\x7b"; given (word "-")

/-- The delimiter that closes a value, with its dash. -/
def closeValue : Reader Bool :=
  (do word "-\x7d\x7d"; return true) <|> (do word "\x7d\x7d"; return false)

/-- The delimiter that opens a comment, with its dash. -/
def openComment : Reader Bool := do word "\x7b#"; given (word "-")

/-- The delimiter that closes a comment, with its dash. -/
def closeComment : Reader Bool :=
  (do word "-#\x7d"; return true) <|> (do word "#\x7d"; return false)

/-- Any delimiter that ends a text. -/
def anyOpening : Reader Unit := word "\x7b\x7b" <|> word "\x7b%" <|> word "\x7b#"

/-- A tag: its dashes, and what it says after its word. -/
def tagOf {α : Type} (keyword : String) (p : Reader α) : Reader (Dashes × α) := do
  let before ← openTag
  gap
  word keyword
  let a ← p
  gap
  let after ← closeTag
  return ({ before, after }, a)

/-- A tag that says nothing but its word. -/
def bareTag (keyword : String) : Reader Dashes := do
  let (d, _) ← tagOf keyword (pure ())
  return d

/-- A closing tag, which may repeat a name. -/
def namedEnd (keyword : String) : Reader Dashes := do
  let (d, _) ← tagOf keyword (do gap; let _ ← maybe Grammar.name)
  return d

/-! ## Tags without a body -/

/-- A text, up to the next delimiter. -/
def text : Reader Piece := do
  let s ← many1 (do notAhead anyOpening; charWhere (fun _ => true))
  return .text s

/-- A comment, which is not empty. -/
def comment : Reader Piece := do
  let before ← openComment
  let _ ← many1 (do notAhead closeComment; charWhere (fun _ => true))
  let after ← closeComment
  return .tag { before, after } .silent

/-- A stretch in which no delimiter counts but its own end. -/
def raw : Reader Piece := do
  let first ← bareTag "raw"
  let s ← before (bareTag "endraw")
  let last ← bareTag "endraw"
  return .raw first s last

/-- A value that is written. -/
def value : Reader Piece := do
  let before ← openValue
  gap
  let e ← Grammar.expression
  let after ← closeValue
  return .tag { before, after } (.node (.value e))

/-- The place for what is overridden. -/
def inheritedPlace : Reader Piece := do
  let _ ← openValue
  gap
  symbol "super()"
  let _ ← closeValue
  return .inherited

/-- An assignment. -/
def assignment : Reader Piece := do
  let (d, n, e) ← tagOf "set" (do
    gap1
    let n ← token Grammar.name
    symbol "="
    let e ← Grammar.expression
    return (n, e))
  return .tag d (.node (.assign n e))

/-- One page, or a list of pages in brackets. -/
def pages : Reader (List String) :=
  (do return [← Grammar.quoted])
  <|> (do
    symbol "["
    let all ← Grammar.separated (token Grammar.quoted)
    word "]"
    return all)

/-- An inclusion. -/
def inclusion : Reader Piece := do
  let (d, ps, optional) ← tagOf "include" (do
    gap1
    let ps ← pages
    gap
    let optional ← given (do symbol "ignore"; symbol "missing")
    return (ps, optional))
  return .tag d (.node (.inclusion ps optional))

/-! ## Tags with a body -/

/-- What is being read, which decides what may stand in it. -/
inductive Setting
  | page
  | block
  | definition
  | loop
  deriving DecidableEq

/-- Whether blocks may stand in a setting. -/
def Setting.hasBlocks (s : Setting) : Bool := s == page || s == block

/-- A reader that is used only under a condition. -/
def onlyIf {α : Type} (b : Bool) (p : Reader α) : Reader α := if b then p else failure

/-- A block. -/
def block (body : Reader (List Piece)) : Reader Piece := do
  let (first, n) ← tagOf "block" (do gap1; Grammar.name)
  let ps ← body
  let last ← namedEnd "endblock"
  return .block first n ps last

/-- A parameter of a macro. -/
def parameter : Reader (String × Option Json) := do
  let n ← Grammar.name
  let v ← maybe (do word "="; Grammar.literal)
  return (n, v)

/-- A macro, of whose parameters of one name the last counts. -/
def definition (body : Reader (List Piece)) : Reader Piece := do
  let (first, n, parameters) ← tagOf "macro" (do
    gap1
    let n ← token Grammar.name
    symbol "("
    let ps ← maybe (sepBy1 (token parameter) (symbol ","))
    symbol ")"
    return (n, ps.getD []))
  let ps ← body
  let last ← namedEnd "endmacro"
  return .definition first n (Table.ofList parameters) ps last

/-- A walk. -/
def loop (body : Reader (List Piece)) : Reader Piece := do
  let (d, first, second, e) ← tagOf "for" (do
    gap1
    let first ← Grammar.name
    let second ← maybe (do symbol ","; Grammar.name)
    gap1
    word "in"
    gap1
    let e ← Grammar.container
    return (first, second, e))
  let ps ← body
  let empties ← many (do let _ ← bareTag "else"; body)
  let last ← bareTag "endfor"
  let (key, item) := match second with
    | none => (none, first)
    | some second => (some first, second)
  return .loop d key item e ps empties last

/-- A condition and what stands under it. -/
def arm (keyword : String) (condition : Reader Expr) (body : Reader (List Piece)) :
    Reader (Dashes × Expr × List Piece) := do
  let (d, e) ← tagOf keyword (do gap1; condition)
  let ps ← body
  return (d, e, ps)

/-- A choice. A list in brackets may be the first condition, but none that follows. -/
def choice (body : Reader (List Piece)) : Reader Piece := do
  let (first, e, ps) ← arm "if" Grammar.expression body
  let further ← many (arm "elif" Grammar.condition body)
  let otherwise ← maybe (do
    let d ← bareTag "else"
    let ps ← body
    return (d, ps))
  let last ← bareTag "endif"
  let final := match otherwise with
    | none => .nothing last
    | some (d, ps) => .otherwise d ps last
  return .choice first e ps
    (further.foldr (fun (d, e, ps) rest => .condition d e ps rest) final)

/-- The pieces that stand in a setting, at most `n` deep. -/
def piecesTo : Nat → Setting → Reader (List Piece)
  | 0, _, s => some ([], s)
  | n + 1, setting, s =>
    many (inclusion
      <|> onlyIf (setting == .block) inheritedPlace
      <|> value
      <|> comment
      <|> assignment
      <|> onlyIf (setting == .page) (definition (piecesTo n .definition))
      <|> onlyIf setting.hasBlocks (block (piecesTo n .block))
      <|> choice (piecesTo n setting)
      <|> loop (piecesTo n .loop)
      <|> raw
      <|> text) s

/-! ## Pages -/

/-- The naming of the parent, with the white space around it, and its dashes. -/
def parentTag : Reader (Dashes × String) := do
  gap
  let named ← tagOf "extends" (do gap1; Grammar.quoted)
  gap
  return named

/-- The import of another page's macros, with the white space around it, and its dashes. -/
def importTag : Reader (Dashes × String × String) := do
  gap
  let named ← tagOf "import" (do
    gap1
    let page ← Grammar.quoted
    gap1
    word "as"
    gap1
    let n ← Grammar.name
    return (page, n))
  gap
  return named

/-- A page as it is written: the naming of its parent, its imports, and its pieces. The comments that it
begins with are nothing at all. -/
def writtenPage :
    Reader (Option (Dashes × String) × List (Dashes × String × String) × List Piece) := do
  let _ ← many comment
  let parent ← maybe parentTag
  let imports ← many importTag
  let pieces ← fun s => piecesTo (s.length + 1) .page s
  return (parent, imports, pieces)

/-- A page that has been read: its parent, its imports, and its parts, of which the first is next to
the last tag in front of them. -/
def pageReader : Reader (Option String × List (String × String) × List Part) := do
  let (parent, imports, pieces) ← writtenPage
  let nearest := ((imports.map (·.1)).getLast? <|> parent.map (·.1)).map Dashes.after
  return (parent.map (·.2), imports.map (·.2), Piece.settle true false (nearest.getD false) pieces)

/-- **The page of a text**, if it is one. -/
def read? (source : String) : Option Page := do
  let (parent, imports, parts) ← whole? pageReader source.toList
  ofParts? source parent imports parts

end QueryPress.Page
