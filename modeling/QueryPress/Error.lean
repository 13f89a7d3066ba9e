import QueryPress.Disk
import QueryPress.Merge.Error

/-!
# Error — what can go wrong, and how it is said

An error is a cause. `message` is what is said of it; where the cause has been stated by somebody
else — the operating system, a grammar — the message ends before their words.
-/

namespace QueryPress

/-- Why settings cannot be used. -/
inductive ConfigError
  | invalidSettings
  | unreadable (path : Path)
  | workingDirectory (path : Path)
  | privateDirectory
  | unnamedLoader
  | unsupportedKind (loader kind : String)
  | duplicateLoader (name : String)
  | invalidDirective (directive : String)
  /-- A cause in words of its own. -/
  | stated (reason : String)
  deriving DecidableEq, Repr

/-- Why a template could not be put in place. -/
inductive CompileError
  | unknownStrategy (name : String)
  | temporaryFile
  /-- A cause in words of its own. -/
  | stated (reason : String)
  deriving DecidableEq, Repr

/-- What can go wrong. The label is the name under which the host knows the template. -/
inductive Error
  | config (cause : ConfigError)
  | compile (label : String) (cause : CompileError)
  /-- A text is no page, or its pages do not make a book. -/
  | parse (label : String)
  /-- No loader has what is asked for. -/
  | notFound (name : String)
  | execution (label : String) (cause : MergeError)
  | io (cause : IoError)
  deriving DecidableEq, Repr

namespace ConfigError

/-- What is said of the cause. -/
def message : ConfigError → String
  | invalidSettings => "invalid engine settings: "
  | unreadable path => s!"failed to read {path}: "
  | workingDirectory path => s!"cannot create working directory {path}: "
  | privateDirectory => "cannot create private working directory: "
  | unnamedLoader => "loader declared without a name"
  | unsupportedKind loader kind => s!"loader '{loader}' has unsupported kind '{kind}'"
  | duplicateLoader name => s!"duplicate resource loader name '{name}'"
  | invalidDirective directive => s!"invalid log directive '{directive}': "
  | stated reason => reason

end ConfigError

namespace CompileError

/-- What is said of the cause. -/
def message : CompileError → String
  | unknownStrategy name => s!"unknown compile strategy '{name}'"
  | temporaryFile => "cannot create temp file: "
  | stated reason => reason

end CompileError

namespace Error

/-- **What is said of an error.** -/
def message : Error → String
  | config cause => "Configuration error: " ++ cause.message
  | compile label cause => s!"Failed to compile template '{label}': " ++ cause.message
  | parse label => s!"Failed to parse template '{label}': "
  | notFound name => "Template not found: " ++ name
  | execution label _ => s!"Template execution failed for '{label}': "
  | io _ => "IO error: "

/-- Whether the settings are at fault. -/
def isConfig : Error → Bool
  | config _ => true
  | _ => false

/-- Whether something that was asked for is missing. -/
def isNotFound : Error → Bool
  | notFound _ => true
  | _ => false

/-- Whether the error belongs to compiling, not to rendering. -/
def isCompileTime : Error → Bool
  | compile _ _ | parse _ | notFound _ => true
  | _ => false

end Error

end QueryPress
