import QueryPress.Error
import QueryPress.Properties.Declaration
import QueryPress.Resource.Loader

/-!
# Settings — what an engine is to work with

Settings are what was asked for; `chainSettings` is what comes of it for the loaders: the working
directory first, then the stored templates, then the declared loaders, each with all it does not say
filled in.
-/

namespace QueryPress

/-- A loader that the settings ask for. -/
structure LoaderDeclaration where
  name : String
  kind : Option String := none
  paths : List Path := []
  cache : Option Bool := none
  /-- Seconds, as `CheckInterval.ofSeconds` reads them. -/
  checkInterval : Option Int := none
  deriving DecidableEq, Repr

namespace LoaderDeclaration

/-- The only kind of loader that there is. -/
def fileKind : String := "file"

/-- **A declaration with everything filled in** — without paths of its own a loader looks into the
directory of its name beside the settings. -/
def resolve (home : Option Path) (d : LoaderDeclaration) (base : Path) (checkInterval : Int) :
    Except ConfigError LoaderSettings :=
  let name := Text.trimmed d.name
  if name == "" then .error .unnamedLoader
  else if d.kind.getD fileKind != fileKind then
    .error (.unsupportedKind name (d.kind.getD fileKind))
  else
    let paths := if d.paths.isEmpty then [base.join name] else d.paths.map (Path.resolve home base)
    .ok { name, paths, cache := d.cache.getD true,
          checkInterval := .ofSeconds (d.checkInterval.getD checkInterval) }

end LoaderDeclaration

/-- What an engine is to work with. -/
structure Settings where
  /-- The directory from which relative paths are seen. -/
  configDirectory : Path := "config"
  /-- The directory of the stored templates. -/
  scriptsDirectory : Option Path := none
  /-- The directory that materialized templates are written to. -/
  workingDirectory : Option Path := none
  /-- The first line of a template that is to be materialized. -/
  cacheMarker : String := "\x7b# cache #\x7d"
  bufferPoolSize : Nat := 16
  bufferCapacity : Nat := 1024
  maxRetainedBuffer : Nat := 65536
  /-- Milliseconds between two looks at a properties file. -/
  reloadInterval : Nat := 1000
  properties : List Properties.Declaration := []
  /-- Seconds between two looks at a stored template. -/
  checkInterval : Int := 60
  loaders : List LoaderDeclaration := []
  deriving DecidableEq, Repr

namespace Settings

/-- The name of the loader of materialized templates. -/
def ephemeralLoader : String := "ephemeral"

/-- The name of the loader of stored templates. -/
def scriptsLoader : String := "scripts"

/-- The directory of the stored templates: the one asked for, or the one beside the settings. -/
def scriptsPath (home : Option Path) (s : Settings) : Path :=
  match s.scriptsDirectory with
  | some p => Path.resolve home s.configDirectory p
  | none => s.configDirectory.join "scripts"

/-- **What the loaders are to do**, in the order in which they are asked. -/
def chainSettings (home : Option Path) (s : Settings) (workingDirectory : Path) :
    Except ConfigError (List LoaderSettings) := do
  let declared ← s.loaders.mapM fun d => d.resolve home s.configDirectory s.checkInterval
  return { name := ephemeralLoader, paths := [workingDirectory], cache := true,
           checkInterval := .never }
    :: { name := scriptsLoader, paths := [s.scriptsPath home], cache := true,
         checkInterval := .ofSeconds s.checkInterval }
    :: declared

end Settings

end QueryPress
