import QueryPress.Markup.Page
import QueryPress.Text.Blank

/-!
# Markup/Page/Piece — a page as it is written, with the dashes of its tags

A dash at the end of a tag takes away the white space of the text beside it. `Piece.settle` takes it
away and turns pieces into parts: a text is trimmed as the tags before and behind it say, and where a
body has no such tag, as the tags around the body say. In what a walk writes where there is nothing
to walk through, no dash counts, however deep it stands.
-/

namespace QueryPress

/-- The dashes of a tag: whether it takes white space away before itself and after itself. -/
structure Dashes where
  before : Bool
  after : Bool

mutual

/-- A text, or a tag with what stands in it. -/
inductive Piece
  | text (s : List Char)
  /-- A tag without a body. -/
  | tag (d : Dashes) (part : Part)
  /-- The place for what is overridden, whose dashes count for nothing. -/
  | inherited
  /-- A stretch in which no delimiter counts but its own end. -/
  | raw (first : Dashes) (s : List Char) (last : Dashes)
  | block (first : Dashes) (name : String) (body : List Piece) (last : Dashes)
  | definition (first : Dashes) (name : String) (parameters : Table (Option Json))
    (body : List Piece) (last : Dashes)
  /-- A walk. Of several bodies for where there is nothing to walk through, the last counts. -/
  | loop (first : Dashes) (key : Option String) (item : String) (container : Expr)
    (body : List Piece) (empties : List (List Piece)) (last : Dashes)
  | choice (first : Dashes) (condition : Expr) (body : List Piece) (rest : Alternative)

/-- What follows under a condition. -/
inductive Alternative
  | condition (d : Dashes) (condition : Expr) (body : List Piece) (rest : Alternative)
  | otherwise (d : Dashes) (body : List Piece) (last : Dashes)
  | nothing (last : Dashes)

end

namespace Alternative

/-- The dashes of the tag that closes the body in front. -/
def first : Alternative → Dashes
  | condition d _ _ _ => d
  | otherwise d _ _ => d
  | nothing d => d

/-- The dashes of the tag that closes a whole choice. -/
def last : Alternative → Dashes
  | condition _ _ _ rest => rest.last
  | otherwise _ _ d => d
  | nothing d => d

end Alternative

namespace Piece

/-- Whether a piece takes away the white space that the text before it ends with. -/
def trimsBefore : Piece → Bool
  | text _ | inherited => false
  | tag d _ | raw d _ _ | block d _ _ _ | definition d _ _ _ _ | loop d _ _ _ _ _ _
  | choice d _ _ _ => d.before

/-- Whether a piece takes away the white space that the text behind it begins with. -/
def trimsAfter : Piece → Bool
  | text _ | inherited => false
  | tag d _ | raw _ _ d | block _ _ _ d | definition _ _ _ _ d | loop _ _ _ _ _ _ d => d.after
  | choice _ _ _ rest => rest.last.after

/-- Whether a text in front of these pieces loses the white space it ends with, where `closing` says
so of the tag behind them. -/
def trimsText (dashes closing : Bool) : List Piece → Bool
  | [] => closing
  | p :: _ => dashes && p.trimsBefore

/-- A text without the white space at its start or at its end. -/
def trimmed (start stop : Bool) (s : List Char) : List Char :=
  let s := if start then Text.trimStart s else s
  if stop then Text.trimEnd s else s

mutual

/-- What a piece means, where its dashes count if `dashes` says so. -/
def part (dashes : Bool) : Piece → Part
  | text s => .node (.text (String.ofList s))
  | tag _ p => p
  | inherited => .node .inherited
  | raw first s last =>
    .node (.text (String.ofList (trimmed (dashes && first.after) (dashes && last.before) s)))
  | block first name body last =>
    .node (.block name (Part.nodes
      (settle dashes (dashes && last.before) (dashes && first.after) body)))
  | definition first name parameters body last =>
    .definition name
      { parameters
        body := Part.nodes (settle dashes (dashes && last.before) (dashes && first.after) body) }
  | loop first key item container body empties last =>
    .node (.loop key item container
      (Part.nodes (settle dashes (dashes && last.before) (dashes && first.after) body))
      (lastOf empties))
  | choice first condition body rest =>
    .node (.branch condition
      (Part.nodes (settle dashes (dashes && rest.first.before) (dashes && first.after) body))
      (alternative dashes rest))

/-- What is written under the conditions that follow. -/
def alternative (dashes : Bool) : Alternative → List Node
  | .condition d condition body rest =>
    [.branch condition
      (Part.nodes (settle dashes (dashes && rest.first.before) (dashes && d.after) body))
      (alternative dashes rest)]
  | .otherwise d body last =>
    Part.nodes (settle dashes (dashes && last.before) (dashes && d.after) body)
  | .nothing _ => []

/-- What the last of some bodies writes, in which no dash counts. -/
def lastOf : List (List Piece) → List Node
  | [] => []
  | [empty] => Part.nodes (settle false false false empty)
  | _ :: empty :: empties => lastOf (empty :: empties)

/-- **The parts of some pieces**, where `opening` and `closing` tell of the tags around them whether
they take white space away inside. A text that has nothing left is dropped, and white space that was
to be taken away before the place for what is overridden is still to be taken away after it. -/
def settle (dashes closing : Bool) : (opening : Bool) → List Piece → List Part
  | _, [] => []
  | opening, text s :: rest =>
    let s := trimmed opening (trimsText dashes closing rest) s
    if s.isEmpty then settle dashes closing false rest
    else .node (.text (String.ofList s)) :: settle dashes closing false rest
  | opening, inherited :: rest => .node .inherited :: settle dashes closing opening rest
  | _, p :: rest => p.part dashes :: settle dashes closing (dashes && p.trimsAfter) rest

end

end Piece

end QueryPress
