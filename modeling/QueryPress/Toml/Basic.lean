import QueryPress.Table

/-!
# Toml/Basic — the values of a TOML document, and how its lines build them

A document is one table, filled line by line. What a line may add to depends on how a table came to
be: a header can name a table once, dotted keys can go on with what dotted keys began, and nothing is
added to what stands in braces or brackets.
-/

namespace QueryPress

/-- How a table came to be. -/
inductive TableOrigin
  /-- It stands in braces. -/
  | inline
  /-- A header names it. -/
  | header
  /-- A header names something inside it. -/
  | passed
  /-- A dotted key names something inside it. -/
  | dotted
  deriving DecidableEq, Repr

/-- A TOML value. Which number a float is and which moment a date is does not matter here. -/
inductive Toml
  | string (s : String)
  | integer (n : Int)
  | float
  | boolean (b : Bool)
  | date
  /-- An array, and whether its elements are tables that headers name. -/
  | array (byHeaders : Bool) (items : List Toml)
  | table (origin : TableOrigin) (members : List (String × Toml))
  deriving Inhabited

namespace Toml

/-- Changes the last element of a list of tables. -/
def onLast? (f : Table Toml → Option (Table Toml)) : List Toml → Option (List Toml)
  | [] => none
  | [.table o ms] => do return [.table o (← f ms)]
  | [_] => none
  | t :: rest => do return t :: (← onLast? f rest)

/-- Changes the table at the end of a header's path; tables on the way that are missing are made. -/
def underHeader? (f : Table Toml → Option (Table Toml)) :
    List String → Table Toml → Option (Table Toml)
  | [], ms => f ms
  | k :: ks, ms =>
    match Table.get? ms k with
    | none => do return ms.insert k (.table .passed (← underHeader? f ks []))
    | some (.table .inline _) => none
    | some (.table o inner) => do return ms.insert k (.table o (← underHeader? f ks inner))
    | some (.array true items) => do
      return ms.insert k (.array true (← onLast? (underHeader? f ks) items))
    | some _ => none

/-- Names a table by a header: one that is new or that only lay on the way so far. -/
def openTable? (k : String) (ms : Table Toml) : Option (Table Toml) :=
  match Table.get? ms k with
  | none => some (ms.insert k (.table .header []))
  | some (.table .passed inner) => some (ms.insert k (.table .header inner))
  | some _ => none

/-- Adds an element to the tables that headers name. -/
def openElement? (k : String) (ms : Table Toml) : Option (Table Toml) :=
  match Table.get? ms k with
  | none => some (ms.insert k (.array true [.table .header []]))
  | some (.array true items) => some (ms.insert k (.array true (items ++ [.table .header []])))
  | some _ => none

/-- Adds a value under a dotted key, which has to be new. The names on the way lead through tables
that no header names and through the last elements of arrays; the table that takes the value has to
come from a dotted key too. -/
def assign? (v : Toml) : List String → Table Toml → Option (Table Toml)
  | [], _ => none
  | [k], ms => if Table.has ms k then none else some (ms.insert k v)
  | k :: l :: ks, ms =>
    match Table.get? ms k with
    | none => do return ms.insert k (.table .dotted (← assign? v (l :: ks) []))
    | some (.table .dotted inner) => do
      return ms.insert k (.table .dotted (← assign? v (l :: ks) inner))
    | some (.table .passed inner) => do
      if ks.isEmpty then none
      return ms.insert k (.table .passed (← assign? v (l :: ks) inner))
    | some (.array true items) => do
      if ks.isEmpty then none
      return ms.insert k (.array true (← onLast? (assign? v (l :: ks)) items))
    | some _ => none

/-- A line of a document. -/
inductive Line
  /-- A header that names a table. -/
  | header (path : List String)
  /-- A header that names a further element of an array. -/
  | element (path : List String)
  | assignment (path : List String) (v : Toml)
  | blank

/-- The table of some lines, where `at_` is the path of the header they stand under. -/
def ofLines? (ms : Table Toml) (at_ : List String) : List Line → Option (Table Toml)
  | [] => some ms
  | .blank :: rest => ofLines? ms at_ rest
  | .header path :: rest => do
    let ms ← underHeader? (openTable? (path.getLast?.getD "")) path.dropLast ms
    ofLines? ms path rest
  | .element path :: rest => do
    let ms ← underHeader? (openElement? (path.getLast?.getD "")) path.dropLast ms
    ofLines? ms path rest
  | .assignment path v :: rest => do
    let ms ← underHeader? (assign? v path) at_ ms
    ofLines? ms at_ rest

/-- The table of assignments between braces. -/
def inlineTable? (assignments : List (List String × Toml)) : Option Toml := do
  let ms ← assignments.foldlM (fun ms (path, v) => assign? v path ms) []
  return .table .inline ms

end Toml

end QueryPress
