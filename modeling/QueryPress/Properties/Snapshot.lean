import QueryPress.Json
import QueryPress.Properties.Reader
import QueryPress.Disk

/-!
# Properties/Snapshot — one state of a properties file

Besides single values a snapshot has lists: the values of `key.0`, `key.1`, … up to the first number
without an entry. A table of `n` entries has no longer list than `n`, so the look-up ends.
-/

namespace QueryPress.Properties

/-- The properties of a file, and when the file had them. -/
structure Snapshot where
  values : Table String
  modified : Instant

namespace Snapshot

/-- The snapshot of a file as it is now. -/
def ofFile (w : World) (path : Path) : Except IoError Snapshot := do
  let modified ← w.modified path
  let text ← w.readText path
  return { values := read text, modified }

/-- The value of a key. -/
def get? (s : Snapshot) (key : String) : Option String := s.values.get? key

/-- The key of an element of a list. -/
def numberedKey (key : String) (i : Nat) : String := key ++ "." ++ toString i

/-- The values of `key.i`, `key.(i+1)`, …, at most `n` of them. -/
def listFrom (s : Snapshot) (key : String) : (n i : Nat) → List String
  | 0, _ => []
  | n + 1, i =>
    match s.get? (numberedKey key i) with
    | none => []
    | some v => v :: s.listFrom key n (i + 1)

/-- **The list of a key** — the values of `key.0`, `key.1`, … up to the first that is missing. -/
def list (s : Snapshot) (key : String) : List String := s.listFrom key s.values.length 0

/-- **The set of a key** — the distinct values of its list, in ascending order. -/
def set (s : Snapshot) (key : String) : List String :=
  Table.keys (Table.ofList ((s.list key).map (·, ())))

/-- The properties as one object. -/
def value (s : Snapshot) : Json := .object (s.values.map fun (k, v) => (k, .string v))

theorem length_listFrom_le (s : Snapshot) (key : String) :
    ∀ n i, (s.listFrom key n i).length ≤ n
  | 0, _ => Nat.le_refl 0
  | n + 1, i => by
    simp only [listFrom]
    split
    · simp
    · simpa using s.length_listFrom_le key n (i + 1)

/-- **A list is no longer than its table.** -/
theorem length_list_le (s : Snapshot) (key : String) : (s.list key).length ≤ s.values.length :=
  s.length_listFrom_le key _ _

end Snapshot

end QueryPress.Properties
