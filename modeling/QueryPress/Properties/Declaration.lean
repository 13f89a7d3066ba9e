import QueryPress.Path
import QueryPress.Text.Blank

/-!
# Properties/Declaration — a properties file as the settings name it
-/

namespace QueryPress.Properties

/-- A properties file that the settings ask for. -/
structure Declaration where
  name : Option String := none
  path : Path
  /-- Milliseconds between two looks at the file, where the file has an interval of its own. -/
  interval : Option Nat := none
  deriving DecidableEq, Repr

namespace Declaration

/-- **The name that templates use** — the declared one if it is not blank, else the file's name
without its extension. -/
def logicalName? (d : Declaration) : Option String :=
  match d.name.map Text.trimmed with
  | some name => if name == "" then d.path.fileStem? else some name
  | none => d.path.fileStem?

/-- The interval of the file, where `common` is the interval of files without their own. -/
def effectiveInterval (d : Declaration) (common : Nat) : Nat := d.interval.getD common

end Declaration

end QueryPress.Properties
