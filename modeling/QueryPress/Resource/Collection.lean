import QueryPress.Reference
import QueryPress.Resource.Chain

/-!
# Resource/Collection — a text with all it refers to

From a root the references of each text are followed in turn, breadth first. A reference is settled
by any candidate that is known already; otherwise the first candidate that a loader has is taken.

Every name that is taken stands in some text that can be reached: the root, a file on the disk or a
loader's copy. So the names in those texts bound the number of texts that are ever collected.
-/

namespace QueryPress

namespace Chain

/-- The texts that a loader could hand out: its copies, and the files on the disk. -/
def reachableTexts (w : World) (c : Chain) : List String :=
  (c.flatMap fun l => (Table.values l.copies).map Resource.source) ++ w.texts

/-- The names in the references of a text. -/
def namesIn (text : String) : List String := (Reference.ofText text).flatMap Reference.candidates

/-- How many texts are collected at most. -/
def collectionBound (w : World) (c : Chain) (start : List Resource) : Nat :=
  start.length + ((start.map Resource.source ++ c.reachableTexts w).flatMap namesIn).length

/-- Follows references: what is found for them, in order. -/
def follow (w : World) : (known : List String) → List Reference → Chain →
    Except Error (List Resource) × Chain
  | _, [], c => (.ok [], c)
  | known, ref :: refs, c =>
    if ref.candidates.any (known.contains ·) then follow w known refs c
    else
      match findFirst w ref.candidates c with
      | (.error e, c) => (.error e, c)
      | (.ok none, c) =>
        if ref.optional then follow w known refs c else (.error (.notFound ref.described), c)
      | (.ok (some r), c) =>
        match follow w (r.name :: known) refs c with
        | (.error e, c) => (.error e, c)
        | (.ok found, c) => (.ok (r :: found), c)

/-- Collects what is waiting and all it refers to, at most `n` texts. -/
def collectTo (w : World) : (n : Nat) → (known : List String) → (waiting : List Resource) → Chain →
    Except Error (List Resource) × Chain
  | 0, _, _, c => (.ok [], c)
  | _ + 1, _, [], c => (.ok [], c)
  | n + 1, known, r :: waiting, c =>
    match follow w known (Reference.ofText r.source) c with
    | (.error e, c) => (.error e, c)
    | (.ok found, c) =>
      match collectTo w n (found.map Resource.name ++ known) (waiting ++ found) c with
      | (.error e, c) => (.error e, c)
      | (.ok collected, c) => (.ok (r :: collected), c)

/-- Collects resources and all they refer to beyond the known names. -/
def collectFrom (w : World) (known : List String) (start : List Resource) (c : Chain) :
    Except Error (List Resource) × Chain :=
  collectTo w (c.collectionBound w start) known start c

/-- **A resource and everything it refers to**, directly or through others, the resource first. -/
def collect (w : World) (root : Resource) (c : Chain) : Except Error (List Resource) × Chain :=
  c.collectFrom w [root.name] [root]

/-- **What has changed of the loaded resources**, with what the changed texts refer to anew. -/
def collectChanges (w : World) (loaded : List Resource) (c : Chain) :
    Except Error (List Resource) × Chain :=
  match refreshAll w loaded c with
  | (.error e, c) => (.error e, c)
  | (.ok [], c) => (.ok [], c)
  | (.ok changed, c) => c.collectFrom w (loaded.map Resource.name) changed

end Chain

end QueryPress
