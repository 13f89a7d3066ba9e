import QueryPress.Path

/-!
# Disk — directories and files, and the world a program runs in

A `Disk` is a finite set of directories and files under one root. Every path is walked segment by
segment from the root or the working directory; a segment can only be taken inside a directory, so
`a/..` means something exactly where `a` is one, and a slash after a file's name finds nothing.

The operations that change a disk are total: where a change is impossible they say why, and only the
making of several directories at once may have begun.
-/

namespace QueryPress

/-- Why a file could not be used. -/
inductive IoError
  /-- A directory on the way, or the file itself, does not exist. -/
  | notFound
  /-- Something on the way is a file. -/
  | notADirectory
  /-- A directory was read as a file. -/
  | isADirectory
  /-- The bytes are not a text in UTF-8. -/
  | invalidData
  /-- Something else stands there already. -/
  | alreadyExists
  deriving DecidableEq, Repr

/-- A moment, in seconds. -/
abbrev Instant := Nat

/-- Contents are compared byte by byte, by this instance and no other. -/
instance decidableEqBytes : DecidableEq ByteArray := ByteArray.instDecidableEq

/-- What stands at a place. -/
inductive Disk.Entry
  | directory
  | file (bytes : ByteArray) (modified : Instant)
  deriving DecidableEq

/-- A place: the names that lead to it from the root. -/
abbrev Place := List String

/-- Directories and files, by place; the root needs no entry. -/
structure Disk where
  entries : List (Place × Disk.Entry) := []

namespace Disk

/-- What stands at a place. -/
def entry? (d : Disk) (at_ : Place) : Option Entry :=
  if at_ = [] then some .directory else d.entries.lookup at_

/-- Puts something at a place. -/
def put (d : Disk) (at_ : Place) (e : Entry) : Disk :=
  ⟨(at_, e) :: d.entries.filter (·.1 != at_)⟩

/-- Clears a place and everything below it. -/
def clear (d : Disk) (at_ : Place) : Disk :=
  ⟨d.entries.filter (! at_.isPrefixOf ·.1)⟩

/-- The place a walk ends at, of which every place on the way has to be a directory. -/
def walk (d : Disk) (at_ : Place) : List String → Except IoError Place
  | [] => .ok at_
  | s :: ss =>
    match d.entry? at_ with
    | none => .error .notFound
    | some (.file _ _) => .error .notADirectory
    | some .directory =>
      if Path.isStay s then d.walk at_ ss
      else if s = ".." then d.walk at_.dropLast ss
      else d.walk (at_ ++ [s]) ss

end Disk

/-- **What is found outside while a template is merged** — on the clock, by chance and in the
environment. The clock goes on, and chance gives another number each time, so both are told how often
anything has been asked before. -/
structure Outside where
  /-- How many seconds have passed since the merge has begun; a thousand questions take one. -/
  elapsed : Nat → Nat := (· / 1000)
  /-- What the clock says in words, in universal time or in the time of the place. -/
  clockText : Bool → Nat → String := fun _ _ => ""
  /-- The number that chance gives. -/
  chance : Nat → Nat := id
  /-- The variables of the environment, but for the home directory. -/
  environment : String → Option String := fun _ => none

/-- **What a program can see of its surroundings** — the disk, the directory it works in, the home
directory if there is one, a directory for passing things, the time, and what else is outside. -/
structure World where
  disk : Disk := {}
  workingDirectory : Path := "/"
  home : Option Path := none
  temporary : Path := "/tmp"
  now : Instant := 0
  /-- A number that has not been part of a fresh name yet, and none above it has. -/
  serial : Nat := 0
  outside : Outside := {}

namespace World

/-- The world as it is when so many questions have been asked outside since a merge has begun. -/
def later (w : World) (asked : Nat) : World := { w with now := w.now + w.outside.elapsed asked }

/-- A variable of the environment. -/
def environment? (w : World) (name : String) : Option String :=
  if name = "HOME" then w.home else w.outside.environment name

/-- The place a path starts from. -/
def start (w : World) (p : Path) : Place := if p.isAbsolute then [] else w.workingDirectory.steps

/-- The place a path leads to. -/
def place (w : World) (p : Path) : Except IoError Place :=
  if p == "" then .error .notFound
  else w.disk.walk (w.start p) (if p.isAbsolute then p.segments.drop 1 else p.segments)

/-- What stands at a path. -/
def entry (w : World) (p : Path) : Except IoError Disk.Entry := do
  match w.disk.entry? (← w.place p) with
  | some e => .ok e
  | none => .error .notFound

/-- Whether a path leads to a file. -/
def isFile (w : World) (p : Path) : Bool :=
  match w.entry p with
  | .ok (.file _ _) => true
  | _ => false

/-- Whether a path leads to anything. -/
def isThere (w : World) (p : Path) : Bool := (w.entry p).isOk

/-- When the thing at a path was last changed; a directory changes all the time. -/
def modified (w : World) (p : Path) : Except IoError Instant := do
  match ← w.entry p with
  | .directory => .ok w.now
  | .file _ t => .ok t

/-- The bytes of a file. -/
def readBytes (w : World) (p : Path) : Except IoError ByteArray := do
  match ← w.entry p with
  | .directory => .error .isADirectory
  | .file bytes _ => .ok bytes

/-- The text of a file. -/
def readText (w : World) (p : Path) : Except IoError String := do
  match String.fromUTF8? (← w.readBytes p) with
  | some text => .ok text
  | none => .error .invalidData

/-- Writes a file with a given time into an existing directory. -/
def writeAt (w : World) (p : Path) (bytes : ByteArray) (time : Instant) : Except IoError World := do
  let at_ ← w.place p
  match w.disk.entry? at_, w.disk.entry? at_.dropLast with
  | some .directory, _ => .error .isADirectory
  | _, some .directory => .ok { w with disk := w.disk.put at_ (.file bytes time) }
  | _, some (.file _ _) => .error .notADirectory
  | _, none => .error .notFound

/-- Writes a file now. -/
def writeText (w : World) (p : Path) (text : String) : Except IoError World :=
  w.writeAt p text.toUTF8 w.now

/-- The first number from `serial` on whose name is free in a directory, if one of `n` is. -/
def freeNumber? (w : World) (name : Nat → Path) (serial : Nat) : (n : Nat) → Option Nat
  | 0 => none
  | n + 1 => if w.isThere (name serial) then w.freeNumber? name (serial + 1) n else some serial

/-- **A name that is free and has never been given before**, and the world in which it is taken: the
path that `name` makes of a number. There are more numbers to try than there are files. -/
def freshPath (w : World) (name : Nat → Path) : Path × World :=
  let k := (w.freeNumber? name w.serial (w.disk.entries.length + 1)).getD w.serial
  (name k, { w with serial := k + 1 })

/-- A path seen from the root. -/
def absolute (w : World) (p : Path) : Path :=
  if p.isAbsolute then p else w.workingDirectory.join p

/-- Gives a file another time. -/
def touch (w : World) (p : Path) (time : Instant) : Except IoError World := do
  let at_ ← w.place p
  match w.disk.entry? at_ with
  | none => .error .notFound
  | some .directory => .ok w
  | some (.file bytes _) => .ok { w with disk := w.disk.put at_ (.file bytes time) }

/-- Whether a path leads to a directory. -/
def isDirectory (w : World) (p : Path) : Bool :=
  match w.entry p with
  | .ok .directory => true
  | _ => false

/-- Makes one directory inside one that is there. A last segment that stays or goes up names
something that exists already. -/
def makeDirectory (w : World) (p : Path) : Except IoError World :=
  if p == "" then .error .notFound
  else
    let segments := if p.isAbsolute then p.segments.drop 1 else p.segments
    match segments.reverse.dropWhile (· == "") with
    | [] => .error .alreadyExists
    | last :: before => do
      let at_ ← w.disk.walk (w.start p) before.reverse
      match w.disk.entry? at_ with
      | none => .error .notFound
      | some (.file _ _) => .error .notADirectory
      | some .directory =>
        if Path.isStay last || last == ".." || (w.disk.entry? (at_ ++ [last])).isSome then
          .error .alreadyExists
        else .ok { w with disk := w.disk.put (at_ ++ [last]) .directory }

/-- Makes a directory, unless it is there. -/
def ensureDirectory (w : World) (p : Path) : Except IoError World :=
  match w.makeDirectory p with
  | .ok w => .ok w
  | .error e => if w.isDirectory p then .ok w else .error e

/-- Makes the first of some directories, of which each is inside the next, and for that as many of
the others as are missing. -/
def makeFirst (w : World) : List Path → Except IoError Unit × World
  | [] => (.error .notFound, w)
  | p :: above =>
    if p == "" then (.ok (), w)
    else
      match w.ensureDirectory p with
      | .ok w => (.ok (), w)
      | .error .notFound =>
        match w.makeFirst above with
        | (.error e, w) => (.error e, w)
        | (.ok (), w) =>
          match w.ensureDirectory p with
          | .ok w => (.ok (), w)
          | .error e => (.error e, w)
      | .error e => (.error e, w)

/-- **Makes a directory** and the ones above it that are missing. What was made before it went wrong
stays. -/
def makeDirectories (w : World) (p : Path) : Except IoError Unit × World :=
  w.makeFirst (p :: p.parents)

/-- Deletes a file. -/
def removeFile (w : World) (p : Path) : Except IoError World := do
  let at_ ← w.place p
  match w.disk.entry? at_ with
  | none => .error .notFound
  | some .directory => .error .isADirectory
  | some (.file _ _) => .ok { w with disk := w.disk.clear at_ }

/-- Deletes a directory with all it holds. -/
def removeTree (w : World) (p : Path) : Except IoError World := do
  let at_ ← w.place p
  match w.disk.entry? at_ with
  | none => .error .notFound
  | some _ => .ok { w with disk := w.disk.clear at_ }

/-- The names of the files directly inside a directory. -/
def files (w : World) (p : Path) : Except IoError (List String) := do
  let at_ ← w.place p
  match w.disk.entry? at_ with
  | none => .error .notFound
  | some (.file _ _) => .error .notADirectory
  | some .directory =>
    .ok <| (w.disk.entries.filterMap fun (q, n) =>
      match n, q.getLast? with
      | .file _ _, some name => if q.dropLast = at_ then some name else none
      | _, _ => none).mergeSort (· ≤ ·)

/-- The texts of all files that are texts. -/
def texts (w : World) : List String :=
  w.disk.entries.filterMap fun (_, e) =>
    match e with
    | .directory => none
    | .file bytes _ => String.fromUTF8? bytes

end World

end QueryPress
