import QueryPress.Decimal.Arithmetic

/-!
# Merge/Error — why a template could not be merged
-/

namespace QueryPress

/-- Why a template could not be merged with its variables. -/
inductive MergeError
  | unknownVariable (root : String) (members : List String)
  | unknownFilter (name : String)
  | unknownFunction (name : String)
  | unknownMacro (space name : String)
  /-- A macro was called without an argument that it needs. -/
  | missingArgument (macroName parameter : String)
  /-- None of the pages of an inclusion is there. -/
  | missingPages (pages : List String)
  /-- The default filter was used without a `value`. -/
  | missingDefault
  /-- A number was needed. -/
  | notANumber
  /-- A comparison of something that is no number. -/
  | incomparable
  | arithmetic (e : ArithmeticError)
  /-- Something that is neither a text nor a number was joined to a text. -/
  | notATextPart
  /-- A filter was used on a value of another kind. -/
  | wrongKind (filter : String)
  /-- A function in a condition gave no truth value. -/
  | notATruthValue (function : String)
  /-- A walk through something that has no elements, or not under the given names. -/
  | notWalkable
  /-- The frame on top when a walk was to move on was not that of a walk. -/
  | noWalk
  /-- A page was included that has a parent. -/
  | includedHeir (page : String)
  /-- There is nothing that is overridden. -/
  | notInherited
  /-- What was written is not a text. -/
  | notAText
  /-- Pages, blocks and macros stand too deep inside each other. -/
  | tooDeep
  /-- A function was called without a string as the argument of that name. -/
  | stringExpected (function argument : String)
  /-- A function was called for a property source that there is not. -/
  | unknownSource (function source : String)
  /-- A value that is no string was to be escaped. -/
  | unescapable (filter : String)
  /-- An operation on numbers has no value, for a reason that is not told. -/
  | noValue
  /-- A function was called without an argument that it needs, or with one that it cannot use. -/
  | wrongArgument (function argument : String)
  /-- A variable of the environment is not there. -/
  | unknownVariableOutside (name : String)
  /-- A template says itself that it cannot be merged. -/
  | given (message : String)
  deriving DecidableEq, Repr

namespace MergeError

/-- What the property functions and the escaping filter say. -/
def said? : MergeError → Option String
  | stringExpected f a => some (f ++ " expects a string \x60" ++ a ++ "\x60 argument")
  | unknownSource f s => some (f ++ ": unknown property source '" ++ s ++ "'")
  | unescapable f => some (f ++ " filter expects a string")
  | _ => none

end MergeError

end QueryPress
