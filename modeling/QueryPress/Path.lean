/-!
# Path — names of files, kept exactly as they are written

A path is its text: joining and expanding never normalise it. What a path *means* is read off its
segments, the pieces between the slashes, of which `""` and `"."` stay where they are and `".."` goes
up.
-/

namespace QueryPress

/-- The name of a file or a directory. -/
abbrev Path := String

namespace Path

/-- The pieces of a text between its slashes; a text without a slash is one piece. -/
def split : List Char → List (List Char)
  | [] => [[]]
  | c :: r =>
    if c = '/' then [] :: split r
    else
      match split r with
      | [] => [[c]]
      | s :: ss => (c :: s) :: ss

/-- The segments of a path. -/
def segments (p : Path) : List String := (split p.toList).map String.ofList

/-- A segment that stays in its directory. -/
def isStay (s : String) : Bool := s == "" || s == "."

/-- The segments that go somewhere. -/
def steps (p : Path) : List String := p.segments.filter (! isStay ·)

/-- Whether a path starts at the root. -/
def isAbsolute (p : Path) : Bool := p.toList.head? == some '/'

/-- `p` seen from the directory `base`: an absolute `p` stands for itself, and no slash is added to
an empty `base` or after a slash. -/
def join (base p : Path) : Path :=
  if p.isAbsolute then p
  else if base == "" || base.toList.getLast? == some '/' then base ++ p
  else base ++ "/" ++ p

/-- Whether a path starts with a segment `.`, which is then a directory of its own. -/
def startsHere (p : Path) : Bool := p.segments.head? == some "."

/-- The segments that lead up from the place named by some segments, given from the last on: a
segment that stays there is passed over, and one that goes somewhere is taken off. -/
def above : List String → List (List String)
  | [] => []
  | s :: rest => if isStay s then above rest else rest.dropWhile isStay :: above rest

/-- **The directories above a path**, the nearest first, as its own segments name them: `a/b/.` is
below `a`, and `a/..` is below `a` too. -/
def parents (p : Path) : List Path :=
  let named (start : Path) (segments : List String) : List Path :=
    (above segments.reverse).map fun rest => start ++ String.intercalate "/" rest.reverse
  if p.isAbsolute then named "/" (p.segments.drop 1)
  else if p.startsHere then
    ((above (p.segments.drop 1).reverse).map fun rest =>
      String.intercalate "/" ("." :: rest.reverse)) ++ [""]
  else named "" p.segments

/-- The nearest directory above a path, if there is one. -/
def parent? (p : Path) : Option Path := p.parents.head?

/-- The text without the segments at either end that stay where they are. -/
def dropOuterStays (p : Path) : Path :=
  String.intercalate "/" (((p.segments.dropWhile isStay).reverse.dropWhile isStay).reverse)

/-- What follows a first segment `~`, where the path has one. -/
def afterTilde? (p : Path) : Option Path :=
  match p.segments with
  | "~" :: rest => some (dropOuterStays (String.intercalate "/" rest))
  | _ => none

/-- **A path as a setting means it** — a first segment `~` is the home directory, if there is one,
and any other relative path is seen from `base`. -/
def resolve (home : Option Path) (base p : Path) : Path :=
  match p.afterTilde?, home with
  | some rest, some h => h.join rest
  | _, _ => base.join p

/-- The last segment that goes somewhere, if it goes down. -/
def fileName? (p : Path) : Option String :=
  match p.steps.getLast? with
  | some ".." => none
  | last => last

/-- A file name without its extension: the text before its last dot, unless that is all of it. -/
def stemOf (name : String) : String :=
  let rest := (name.toList.reverse.dropWhile (· != '.')).drop 1
  if rest.isEmpty then name else String.ofList rest.reverse

/-- The file name without its extension. -/
def fileStem? (p : Path) : Option String := p.fileName?.map stemOf

/-- **A name that stays below the directory it is looked up in** — not empty, not absolute, and
without a segment that goes up. -/
def isConfined (name : String) : Bool :=
  name != "" && ! isAbsolute name && ! (segments name).contains ".."

theorem join_of_isAbsolute {base p : Path} (h : p.isAbsolute = true) : base.join p = p := by
  simp [join, h]

end Path

end QueryPress
