import QueryPress.Merge.Value

/-!
# Merge/Writing — how pages are written

Nodes are written one after the other. The bodies that stand elsewhere — included pages, the
definitions of blocks, macros — are written by `descend`, so `writeTo n` writes what stands at most
`n` deep inside each other, and everything at one depth follows the nodes.
-/

namespace QueryPress

namespace Merge

/-- Where a block is defined, seen from a page: the nearest of the page and its parents that has it,
with its number, counted from `level`. -/
def definition? (b : Book) (name : String) (level : Nat) :
    List String → Option (Entered × List Node)
  | [] => none
  | page :: pages =>
    match (Table.get? b page).bind fun p => Table.get? p.blocks name with
    | some body => some ({ name, owner := page, level }, body)
    | none => definition? b name (level + 1) pages

/-- A block: what the nearest page that defines it has there, or, if none does, what stands in it. -/
def writeBlock (descend : Descend) (name : String) (body : Merge Unit) : Merge Unit := do
  let s ← read
  let active ← page
  match definition? s.book name 0 (active :: s.ancestors active) with
  | some (b, nodes) => do enter b; descend nodes
  | none => body

/-- What the block entered last overrides. -/
def writeInherited (descend : Descend) : Merge Unit := do
  let s ← read
  let parents := s.ancestors s.entry
  match (← get).entered with
  | [] => throw .notInherited
  | b :: _ =>
    match definition? s.book b.name (b.level + 1) (parents.drop b.level) with
    | none => throw .notInherited
    | some (above, nodes) => do
      enter above
      descend nodes
      leave
      if parents.length ≤ above.level then leave

/-- The first of some pages that there is, which may not have a parent. -/
def writeInclusion (descend : Descend) (pages : List String) (optional : Bool) : Merge Unit := do
  let s ← read
  match pages.findSome? fun n => (Table.get? s.book n).map (n, ·) with
  | some (name, p) =>
    within { page := name, closed := false }
      (if p.parent.isSome then throw (.includedHeir name) else descend p.body)
  | none => if optional then pure () else throw (.missingPages pages)

/-- What a walk goes through: the elements of an array or the characters of a string without names,
the members of an object with names. -/
def elements? (key : Option String) : Json → Option (List (String × Json))
  | .array items => if key.isNone then some (items.map ("", ·)) else none
  | .string s => if key.isNone then some (s.toList.map fun c => ("", .string (String.singleton c)))
    else none
  | .object members => if key.isSome then some members else none
  | _ => none

/-- Runs `body` as often as given, and moves on each time. -/
def walk (body : Merge Unit) : Nat → Merge Unit
  | 0 => pure ()
  | n + 1 => do
    body
    moveOn
    walk body n

/-- A walk through the value of `container`. -/
def writeLoop (key : Option String) (item : String) (isContainer : Bool) (container : Merge Json)
    (body empty : Merge Unit) : Merge Unit := do
  if ! isContainer then throw .notWalkable
  match elements? key (← container) with
  | none => throw .notWalkable
  | some [] => empty
  | some elements =>
    within { page := ← page, closed := false, walk := some { key, item, ahead := elements } }
      (walk body elements.length)

end Merge

namespace Node

open Merge

mutual

/-- **Writes a node.** -/
def write (descend : Descend) : Node → Merge Unit
  | text s => emit s
  | value e => do emitAll (← e.value descend).pieces
  | assign name e => do Merge.assign name (← e.value descend)
  | inclusion pages optional => writeInclusion descend pages optional
  | branch condition yes no => do
    if ← condition.holds descend then writeAll descend yes else writeAll descend no
  | loop key item container body empty =>
    writeLoop key item container.isContainer (container.value descend) (writeAll descend body)
      (writeAll descend empty)
  | block name body => writeBlock descend name (writeAll descend body)
  | inherited => writeInherited descend

/-- Writes nodes one after the other. -/
def writeAll (descend : Descend) : List Node → Merge Unit
  | [] => pure ()
  | n :: ns => do
    write descend n
    writeAll descend ns

end

/-- Writes nodes, with bodies that stand elsewhere at most `n` deep inside each other. -/
def writeTo : Nat → List Node → Merge Unit
  | 0, _ => throw .tooDeep
  | n + 1, ns => writeAll (writeTo n) ns

end Node

namespace Scene

open Properties (Registry)

/-- How deep bodies may stand inside each other. -/
def depth : Nat := 10000

/-- The draft that a merge starts with. -/
def start (s : Scene) (registry : Registry) : Draft where
  registry := registry
  frames := [{ page := s.entry, closed := true }]

/-- The body that is written. -/
def body (s : Scene) : List Node := ((Table.get? s.book s.root).map Page.body).getD []

/-- **Merges a page with its variables** — the draft shows how far the merge came, also where it
failed. -/
def merge (s : Scene) (registry : Registry) : Except MergeError Unit × Draft :=
  Node.writeTo depth s.body s (s.start registry)

end Scene

end QueryPress
