import QueryPress.Merge.Error
import QueryPress.Properties.Registry

/-!
# Merge/Lookup — the functions that read properties

Each takes the name of a source and a key, both strings; the source is checked before the key. A
source that is asked is made ready to answer first, so the registry changes.
-/

namespace QueryPress

open Properties (Registry Snapshot)

/-- The functions that read properties. -/
inductive Lookup
  | value
  | list
  | set
  deriving DecidableEq, Repr

namespace Lookup

/-- The name of a function in a template. -/
def name : Lookup → String
  | value => "prop"
  | list => "prop_list"
  | set => "prop_set"

/-- The function of a name. -/
def ofName? (n : String) : Option Lookup := [value, list, set].find? (·.name == n)

/-- A string argument. -/
def stringArgument (f : Lookup) (arguments : Table Json) (argument : String) :
    Except MergeError String :=
  match (Table.get? arguments argument).bind Json.string? with
  | some s => .ok s
  | none => .error (.stringExpected f.name argument)

/-- **What a function reads from a snapshot** — a value or what stands in for it, or a list. -/
def read (f : Lookup) (s : Snapshot) (key : String) (arguments : Table Json) : Json :=
  match f with
  | value =>
    match s.get? key with
    | some v => .string v
    | none => (Table.get? arguments "default").getD .null
  | list => .array ((s.list key).map .string)
  | set => .array ((s.set key).map .string)

/-- A call of a function, and the registry after it. -/
def run (f : Lookup) (w : World) (registry : Registry) (arguments : Table Json) :
    Except MergeError (Json × Registry) := do
  let source ← f.stringArgument arguments "source"
  if ! Table.has registry source then throw (.unknownSource f.name source)
  let key ← f.stringArgument arguments "key"
  match registry.freshAt? w source with
  | none => throw (.unknownSource f.name source)
  | some (s, registry) => return (f.read s.snapshot key arguments, registry)

theorem stringArgument_eq_ok {f : Lookup} {arguments : Table Json} {argument text : String} :
    f.stringArgument arguments argument = .ok text ↔
      Table.get? arguments argument = some (.string text) := by
  rw [stringArgument]
  constructor
  · intro h
    split at h
    · rename_i s hs
      obtain rfl := Except.ok.inj h
      obtain ⟨v, hv, hs⟩ := Option.bind_eq_some_iff.1 hs
      cases v <;> simp [Json.string?] at hs
      exact hs ▸ hv
    · cases h
  · intro h
    rw [h, Option.bind_some, Json.string?]

@[simp] theorem ofName?_name (f : Lookup) : ofName? f.name = some f := by cases f <;> rfl

end Lookup

end QueryPress
