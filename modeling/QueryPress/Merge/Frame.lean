import QueryPress.Json

/-!
# Merge/Frame — what names stand for while a template is written

Frames are stacked: an inclusion, a walk and a macro each put one on top. A name is looked for from
the top down to the first closed frame, that of the page or of a macro, and then among the caller's
variables.
-/

namespace QueryPress

/-- A walk through elements with names of their own or without: the names that it gives, how many
elements are behind it, and, the one it is at first, those that are not. -/
structure Walk where
  key : Option String
  item : String
  passed : Nat := 0
  ahead : List (String × Json)

namespace Walk

/-- The name under which a walk tells where it is. -/
def loopName : String := "loop"

/-- Where the walk is. -/
def progress? (w : Walk) : List String → Option Json
  | ["index"] => some (.ofInt (w.passed + 1))
  | ["index0"] => some (.ofInt w.passed)
  | ["first"] => some (.bool (w.passed == 0))
  | ["last"] => some (.bool (w.ahead.length == 1))
  | _ => none

/-- What a name stands for at the element that the walk is at: the name of the element on its own,
or the element with its members. -/
def element? (w : Walk) (root : String) (members : List String) : Option Json := do
  let (key, value) ← w.ahead.head?
  if w.key = some root && members.isEmpty then return .string key
  else if root = w.item then value.follow members
  else none

/-- What a path leads to in a walk. -/
def find? (w : Walk) (root : String) (members : List String) : Option Json :=
  (if root = loopName then w.progress? members else none) <|> w.element? root members

/-- The walk at its next element. -/
def next (w : Walk) : Walk := { w with passed := w.passed + 1, ahead := w.ahead.tail }

@[simp] theorem length_ahead_next (w : Walk) : w.next.ahead.length = w.ahead.length - 1 := by
  simp [next]

end Walk

/-- What has been assigned in one place, and the walk there, if it is one. -/
structure Frame where
  /-- The page that is being written. -/
  page : String
  /-- Whether the frames below are out of sight. -/
  closed : Bool
  bindings : Table Json := []
  walk : Option Walk := none

namespace Frame

/-- What a path leads to in a frame. -/
def find? (f : Frame) (root : String) (members : List String) : Option Json :=
  ((Table.get? f.bindings root).bind (·.follow members))
    <|> f.walk.bind (·.find? root members)

/-- What a path leads to among frames, the top first, and behind them in the variables. -/
def search? (vars : Table Json) (root : String) (members : List String) :
    List Frame → Option Json
  | [] => (Table.get? vars root).bind (·.follow members)
  | f :: fs =>
    match f.find? root members with
    | some v => some v
    | none =>
      if f.closed then (Table.get? vars root).bind (·.follow members)
      else search? vars root members fs

/-- A frame with one more assignment. -/
def assign (f : Frame) (name : String) (v : Json) : Frame :=
  { f with bindings := Table.insert f.bindings name v }

/-- The frame of a walk at its next element, with nothing assigned there yet. -/
def next? (f : Frame) : Option Frame :=
  f.walk.map fun w => { f with bindings := [], walk := some w.next }

end Frame

end QueryPress
