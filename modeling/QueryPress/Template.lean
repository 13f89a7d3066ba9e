import QueryPress.Markup.Book
import QueryPress.Resource.Collection
import QueryPress.TraceId

/-!
# Template — what compiling makes of a text

A template is a book of pages with one of them as its entry, the resources that the pages were read
from, and what the host said about it.
-/

namespace QueryPress

/-- How a text is put in place. -/
inductive Strategy
  /-- It stays in memory. -/
  | ephemeral
  /-- It is written to a file. -/
  | materialized
  deriving DecidableEq, Repr

namespace Strategy

/-- The name of a strategy. -/
def name : Strategy → String
  | ephemeral => "ephemeral"
  | materialized => "materialized"

/-- The strategy of a name. -/
def ofName? (n : String) : Option Strategy := [ephemeral, materialized].find? (·.name == n)

/-- A text before and behind its first line feed. -/
def firstLine (s : List Char) : List Char × List Char :=
  (s.takeWhile (· != '\n'), (s.dropWhile (· != '\n')).drop 1)

/-- **The strategy that a text asks for, and the text to compile** — a first line that is the marker,
white space around it apart, asks for a file and does not belong to the text. -/
def classify (marker source : String) : Strategy × String :=
  let (first, rest) := firstLine source.toList
  if marker != "" && Text.trimmed (String.ofList first) == marker then
    (materialized, String.ofList rest)
  else (ephemeral, source)

/-- The option that asks for a strategy. -/
def option : String := "strategy"

/-- The strategy that the options ask for, if they do. -/
def ofOptions (options : Table String) : Except Error (Option Strategy) :=
  match Table.get? options option with
  | none => .ok none
  | some n =>
    match ofName? n with
    | some s => .ok (some s)
    | none => .error (.compile option (.unknownStrategy n))

@[simp] theorem ofName?_name (s : Strategy) : ofName? s.name = some s := by cases s <;> rfl

end Strategy

/-- Where a template's text comes from. -/
inductive Origin
  | inline
  | materialized (path : Path)
  | stored
  deriving DecidableEq, Repr

/-- Pages, the resources they were read from, and the page to start with. -/
structure Bundle where
  entry : String
  book : Book
  resources : List Resource

namespace Bundle

/-- The names of the resources with their texts. -/
def texts (rs : List Resource) : List (String × String) := rs.map fun r => (r.name, r.source)

/-- A resource in place of the one of its name, or behind all others. -/
def put (r : Resource) : List Resource → List Resource
  | [] => [r]
  | s :: rest => if s.name = r.name then r :: rest else s :: put r rest

/-- The bundle of a root and all it refers to; the label is for what can go wrong. -/
def ofRoot (w : World) (label : String) (root : Resource) (c : Chain) :
    Except Error Bundle × Chain :=
  match c.collect w root with
  | (.error e, c) => (.error e, c)
  | (.ok resources, c) =>
    match Book.add? [] (texts resources) with
    | none => (.error (.parse label), c)
    | some book => (.ok { entry := root.name, book, resources }, c)

/-- The bundle with what has changed, all of it or nothing. -/
def update (b : Bundle) (changed : List Resource) : Bundle :=
  match b.book.add? (texts changed) with
  | none => b
  | some book => { b with book, resources := changed.foldl (fun rs r => put r rs) b.resources }

/-- **The bundle as its loaders have it now** — where something fails it stays as it was. -/
def refresh (w : World) (b : Bundle) (c : Chain) : Bundle × Chain :=
  match c.collectChanges w b.resources with
  | (.error _, c) => (b, c)
  | (.ok changed, c) => (b.update changed, c)

@[simp] theorem entry_update (b : Bundle) (changed : List Resource) :
    (b.update changed).entry = b.entry := by
  unfold update
  split <;> rfl

end Bundle

/-- A compiled template. -/
structure Template where
  /-- The name that the host gave. -/
  name : Option String
  strategy : Strategy
  origin : Origin
  options : Table String
  bundle : Bundle

namespace Template

/-- What the template is called in errors: the host's name for it, or its entry. -/
def label (t : Template) : String := t.name.getD t.bundle.entry

/-- The file that the template was written to. -/
def path? (t : Template) : Option Path :=
  match t.origin with
  | .materialized path => some path
  | _ => none

/-- The names of everything that was read for the template, the entry first. -/
def dependencies (t : Template) : List String := t.bundle.resources.map Resource.name

end Template

end QueryPress
