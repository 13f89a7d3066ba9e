import QueryPress.Markup.Book
import QueryPress.Merge.Frame
import QueryPress.Merge.Lookup
import QueryPress.Merge.Standard

/-!
# Merge/Draft — what changes while a template is merged

A merge sees a `Scene` and changes a `Draft`: what it has written so far, what names stand for, which
blocks it has entered, and the property sources, which read their files again while it runs. It counts
what it asks outside, because the clock goes on meanwhile. A merge that fails leaves the draft as far as
it has come.
-/

namespace QueryPress

open Properties (Registry)

/-- What stays the same while a template is merged. -/
structure Scene where
  world : World
  book : Book
  /-- The page that is merged. -/
  entry : String
  vars : Table Json

namespace Scene

/-- The parents of a page. -/
def ancestors (s : Scene) (page : String) : List String := (s.book.ancestors? page).getD []

/-- The page whose body is written: the last parent of the page that is merged, or that page. -/
def root (s : Scene) : String := (s.ancestors s.entry).getLast?.getD s.entry

end Scene

/-- A block that was entered: whose definition of it, and how many parents up that is. -/
structure Entered where
  name : String
  owner : String
  level : Nat

/-- What changes while a template is merged. -/
structure Draft where
  registry : Registry
  /-- What names stand for, the top first. -/
  frames : List Frame
  /-- The blocks entered so far, the last first; the last one stays in force behind its end. -/
  entered : List Entered := []
  /-- What has been written, the last piece first. -/
  written : List String := []
  /-- How many questions have been asked outside. -/
  asked : Nat := 0

/-- A step of merging. -/
abbrev Merge := ReaderT Scene (ExceptT MergeError (StateM Draft))

namespace Merge

variable {α : Type}

/-- Gives the answer of something that cannot say more than why it failed. -/
def lift (r : Except MergeError α) : Merge α := fun _ d => (r, d)

/-- Writes one piece. -/
def emit (piece : String) : Merge Unit := modify fun d => { d with written := piece :: d.written }

/-- Writes pieces one after the other. -/
def emitAll : List String → Merge Unit
  | [] => pure ()
  | p :: ps => do emit p; emitAll ps

/-- What `m` writes, as one text that is not written. -/
def captured (m : Merge Unit) : Merge String := fun s d =>
  match m s { d with written := [] } with
  | (.ok (), e) => (.ok (String.join e.written.reverse), { e with written := d.written })
  | (.error x, e) => (.error x, { e with written := d.written })

/-- The answer of `m`, or `false` where it fails: the draft stays as far as `m` came. -/
def orFalse (m : Merge Bool) : Merge Bool := fun s d =>
  match m s d with
  | (.ok b, e) => (.ok b, e)
  | (.error _, e) => (.ok false, e)

/-- Puts a frame on top. -/
def push (f : Frame) : Merge Unit := modify fun d => { d with frames := f :: d.frames }

/-- Takes the top frame away. -/
def pop : Merge Unit := modify fun d => { d with frames := d.frames.tail }

/-- Runs `m` with one more frame on top, which a failure leaves there. -/
def within (f : Frame) (m : Merge α) : Merge α := do
  push f
  let a ← m
  pop
  return a

/-- Moves the walk in the top frame on to its next element. -/
def moveOn : Merge Unit := do
  match (← get).frames with
  | f :: fs =>
    match f.next? with
    | some f => modify fun d => { d with frames := f :: fs }
    | none => throw .noWalk
  | [] => throw .noWalk

/-- The page that is being written. -/
def page : Merge String := do
  match (← get).frames with
  | f :: _ => return f.page
  | [] => return (← read).entry

/-- What a path leads to, if it is there. -/
def find? (root : String) (members : List String) : Merge (Option Json) := do
  return Frame.search? (← read).vars root members (← get).frames

/-- What a path leads to. -/
def find (root : String) (members : List String) : Merge Json := do
  match ← find? root members with
  | some v => return v
  | none => throw (.unknownVariable root members)

/-- Lets a name stand for a value in the top frame. -/
def assign (name : String) (v : Json) : Merge Unit := modify fun d =>
  match d.frames with
  | [] => d
  | f :: fs => { d with frames := f.assign name v :: fs }

/-- Enters a block. -/
def enter (b : Entered) : Merge Unit := modify fun d => { d with entered := b :: d.entered }

/-- Forgets the block that was entered last. -/
def leave : Merge Unit := modify fun d => { d with entered := d.entered.tail }

/-- A call of a property function, whose source reads the clock. -/
def lookUp (f : Lookup) (arguments : Table Json) : Merge Json := fun s d =>
  match f.run (s.world.later d.asked) d.registry arguments with
  | .ok (v, registry) => (.ok v, { d with registry, asked := d.asked + 1 })
  | .error e => (.error e, d)

/-- A call of a function that every template has. -/
def ask (f : Standard) (arguments : Table Json) : Merge Json := fun s d =>
  (f.run s.world d.asked arguments, { d with asked := d.asked + 1 })

end Merge

end QueryPress
