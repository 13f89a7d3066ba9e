import QueryPress.Settings
import QueryPress.Toml.Reader

/-!
# Settings/Reader — settings from a TOML document

A group of settings is a `Record`: a table, in which any setting may be missing and others than those
known are passed over, or an array of the settings in order, in which one may only be missing at the
end and only if it has a value to fall back on.
-/

namespace QueryPress

open Properties (Declaration)

/-- The settings of a group by name, and whether they were given in order. -/
structure Record where
  inOrder : Bool
  values : List (String × Toml)

namespace Record

/-- The settings of a group, whose names are given in order. A date counts as a table in which
nothing is known. -/
def ofToml? (names : List String) : Toml → Option Record
  | .table _ ms => some { inOrder := false, values := ms }
  | .array _ items => some { inOrder := true, values := names.zip items }
  | .date => some { inOrder := false, values := [] }
  | _ => none

variable {α : Type}

/-- A setting with a value to fall back on. -/
def withDefault? (r : Record) (name : String) (default : α) (read : Toml → Option α) : Option α :=
  match r.values.lookup name with
  | none => some default
  | some v => read v

/-- A setting that has to be there. -/
def required? (r : Record) (name : String) (read : Toml → Option α) : Option α :=
  (r.values.lookup name).bind read

/-- A setting that may be missing from a table. -/
def optional? (r : Record) (name : String) (read : Toml → Option α) : Option (Option α) :=
  match r.values.lookup name with
  | none => if r.inOrder then none else some none
  | some v => (read v).map some

end Record

namespace Settings

/-- A string. -/
def string? : Toml → Option String
  | .string s => some s
  | _ => none

/-- A truth value. -/
def boolean? : Toml → Option Bool
  | .boolean b => some b
  | _ => none

/-- A whole number of a signed word. -/
def signed? : Toml → Option Int
  | .integer n => if Number.isSigned n then some n else none
  | _ => none

/-- A whole number of a word without a sign. -/
def unsigned? : Toml → Option Nat
  | .integer n => if Number.isUnsigned n then some n.toNat else none
  | _ => none

/-- A list. -/
def list? {α : Type} (read : Toml → Option α) : Toml → Option (List α)
  | .array _ items => items.mapM read
  | _ => none

/-- A properties file. -/
def declaration? (t : Toml) : Option Declaration := do
  let r ← Record.ofToml? ["name", "path", "reload-interval-ms"] t
  return {
    name := ← r.withDefault? "name" none (fun v => (string? v).map some)
    path := ← r.required? "path" string?
    interval := ← r.optional? "reload-interval-ms" unsigned? }

/-- A loader. -/
def loader? (t : Toml) : Option LoaderDeclaration := do
  let r ← Record.ofToml? ["name", "kind", "paths", "cache", "check-interval-secs"] t
  return {
    name := ← r.required? "name" string?
    kind := ← r.optional? "kind" string?
    paths := ← r.withDefault? "paths" [] (list? string?)
    cache := ← r.optional? "cache" boolean?
    checkInterval := ← r.optional? "check-interval-secs" signed? }

/-- The settings of output buffers and of the marker. -/
def addEngine? (s : Settings) (t : Toml) : Option Settings := do
  let r ← Record.ofToml?
    ["cache-marker", "buffer-pool-size", "buffer-capacity", "max-retained-buffer"] t
  return { s with
    cacheMarker := ← r.withDefault? "cache-marker" s.cacheMarker string?
    bufferPoolSize := ← r.withDefault? "buffer-pool-size" s.bufferPoolSize unsigned?
    bufferCapacity := ← r.withDefault? "buffer-capacity" s.bufferCapacity unsigned?
    maxRetainedBuffer := ← r.withDefault? "max-retained-buffer" s.maxRetainedBuffer unsigned? }

/-- The settings of properties files. -/
def addProperties? (s : Settings) (t : Toml) : Option Settings := do
  let r ← Record.ofToml? ["reload-interval-ms", "files"] t
  return { s with
    reloadInterval := ← r.withDefault? "reload-interval-ms" s.reloadInterval unsigned?
    properties := ← r.withDefault? "files" s.properties (list? declaration?) }

/-- The settings of stored templates. -/
def addScripts? (s : Settings) (t : Toml) : Option Settings := do
  let r ← Record.ofToml? ["check-interval-secs"] t
  return { s with
    checkInterval := ← r.withDefault? "check-interval-secs" s.checkInterval signed? }

/-- The settings that a document asks for. -/
def ofToml? (document : Table Toml) : Option Settings := do
  let r : Record := { inOrder := false, values := document }
  let s : Settings := {}
  let s := { s with
    configDirectory := ← r.withDefault? "config-dir" s.configDirectory string?
    scriptsDirectory := ← r.optional? "scripts-dir" string?
    workingDirectory := ← r.optional? "work-dir" string?
    loaders := ← r.withDefault? "loaders" s.loaders (list? loader?) }
  let s ← r.withDefault? "engine" s (addEngine? s)
  let s ← r.withDefault? "properties" s (addProperties? s)
  r.withDefault? "scripts" s (addScripts? s)

/-- **The settings of a text.** -/
def read (text : String) : Except Error Settings :=
  match (Toml.read? text).bind ofToml? with
  | some s => .ok s
  | none => .error (.config .invalidSettings)

/-- **The settings of a file.** -/
def ofFile (w : World) (path : Path) : Except Error Settings :=
  match w.readText path with
  | .error _ => .error (.config (.unreadable path))
  | .ok text => read text

end Settings

end QueryPress
