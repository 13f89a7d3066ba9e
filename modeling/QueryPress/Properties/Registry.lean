import QueryPress.Properties.Declaration
import QueryPress.Properties.Source

/-!
# Properties/Registry — the sources that templates can see

Which sources there are is settled when the registry is built: a declaration whose file cannot be
read has no source, and of two usable ones with one name the first counts.
-/

namespace QueryPress.Properties

/-- Property sources by name. -/
abbrev Registry := Table Source

namespace Registry

/-- The source of a declaration, where it has a name and a readable file. -/
def ofDeclaration? (w : World) (base : Path) (interval : Nat) (d : Declaration) : Option Source := do
  let name ← d.logicalName?
  let path := Path.resolve w.home base d.path
  if w.isFile path then (Source.ofFile w name path (d.effectiveInterval interval)).toOption else none

/-- Adds a source unless there is one with its name. -/
def addNew (r : Registry) (s : Source) : Registry :=
  if Table.has r s.name then r else Table.insert r s.name s

/-- Adds a source in place of one with its name. -/
def add (r : Registry) (s : Source) : Registry := Table.insert r s.name s

/-- **The registry of some declarations**, of which a later one with the name of a source does not
count. -/
def ofDeclarations (w : World) (base : Path) (interval : Nat) (ds : List Declaration) : Registry :=
  (ds.filterMap (ofDeclaration? w base interval)).foldl addNew []

/-- Every source ready to answer. -/
def fresh (w : World) (r : Registry) : Registry := r.map fun (n, s) => (n, s.fresh w)

/-- One source ready to answer, and the registry that holds it. -/
def freshAt? (w : World) (r : Registry) (name : String) : Option (Source × Registry) :=
  (Table.get? r name).map fun s => (s.fresh w, Table.insert r name (s.fresh w))

end Registry

end QueryPress.Properties
