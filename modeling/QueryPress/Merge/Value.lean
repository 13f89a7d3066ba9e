import QueryPress.Merge.Draft
import QueryPress.Merge.Filter

/-!
# Merge/Value — what expressions stand for

An expression has a value, and where a condition or an operation asks for it, a judgement or a
number, which are not always read off the value: a condition may name something that is missing, and
filters count for nothing behind most of what is judged. A comparison of a number with something
else has no judgement, which counts as false, and so does its negation.

All three follow the expression; only a macro leads elsewhere, to a body that `descend` writes.
-/

namespace QueryPress

/-- How the body of a macro is written. -/
abbrev Descend := List Node → Merge Unit

namespace Merge

/-! ## Single steps -/

/-- The number that a value is. -/
def numberOf : Json → Merge (Option Number)
  | .number n => return some n
  | _ => throw .notANumber

/-- An operation on numbers; without both of them there is no result. -/
def combine (op : Operation) : Option Number → Option Number → Merge (Option Number)
  | some a, some b =>
    match Number.combine op a b with
    | .ok r => return r
    | .error e => throw (.arithmetic e)
  | _, _ => return none

/-- The value of a result: `NaN` where there is none. -/
def resultValue : Option Number → Json
  | some n => .number n
  | none => .string "NaN"

/-- The value of an operation, of whose failure nothing is told but that it failed. -/
def operationValue (m : Merge (Option Number)) : Merge Json := fun s d =>
  match m s d with
  | (.ok r, e) => (.ok (resultValue r), e)
  | (.error _, e) => (.error .noValue, e)

/-- How two doubles compare. -/
def ordered (op : Comparison) (x y : Float) : Bool :=
  match op with
  | .less => x < y
  | .lessOrEqual => x ≤ y
  | .greater => y < x
  | .greaterOrEqual => y ≤ x
  | .equal => x == y
  | .unequal => x != y

/-- Whether two values are equal or not, as `op` asks; a number and something else are neither. -/
def matched (op : Comparison) : Json → Json → Option Bool
  | .number a, .number b => some (ordered op a.toFloat b.toFloat)
  | .number _, _ => none
  | _, .number _ => none
  | a, b => some (if op = .equal then a.same b else ! a.same b)

/-- A comparison, which is of values if it asks for equality and else of numbers. -/
def compared (op : Comparison) (leftValue rightValue : Merge Json)
    (leftNumber rightNumber : Merge (Option Number)) : Merge (Option Bool) := do
  if op = .equal || op = .unequal then
    let a ← leftValue
    let b ← rightValue
    return matched op a b
  else
    let a ← leftNumber
    let b ← rightNumber
    match a, b with
    | some a, some b => return some (ordered op a.toFloat b.toFloat)
    | _, _ => throw .incomparable

/-- A function call, whose arguments are read only if there is the function. -/
def called (function : String) (arguments : Merge (Table Json)) : Merge Json := do
  match Lookup.ofName? function, Standard.ofName? function with
  | some f, _ => lookUp f (← arguments)
  | none, some f => ask f (← arguments)
  | none, none => throw (.unknownFunction function)

/-- What a macro's parameters stand for: arguments, and what stands in for those not given. -/
def bound (macroName : String) (argument : String → Option (Merge Json)) :
    List (String × Option Json) → Merge (Table Json)
  | [] => return []
  | (name, standIn) :: rest => do
    let v ← match argument name, standIn with
      | some m, _ => m
      | none, some v => pure v
      | none, none => throw (.missingArgument macroName name)
    return Table.insert (← bound macroName argument rest) name v

/-- The page in whose name macros are called: the one that has the block entered last, else the page
whose body is written. -/
def caller : Merge String := do
  let s ← read
  match (← get).entered with
  | b :: _ => return b.owner
  | [] => if s.root = s.entry then page else return s.root

/-- The text of a macro. -/
def expanded (descend : Descend) (space name : String) (argument : String → Option (Merge Json)) :
    Merge String := do
  match (← read).book.macro? (← caller) space name with
  | none => throw (.unknownMacro space name)
  | some (owner, m) =>
    let bindings ← bound name argument m.parameters
    captured (within { page := owner, closed := true, bindings } (descend m.body))

/-- A filter on a value, which is read first, and with arguments, which are read last. The default
filter only acts on a path, where it stands in for what is missing or `null`. -/
def applied (filter : String) (path? : Option (String × List String)) (value : Merge Json)
    (argument : String → Option (Merge Json)) (arguments : Merge (Table Json)) : Merge Json := do
  if filter = Expr.defaultFilter then
    match path? with
    | none => value
    | some (root, members) =>
      match ← find? root members with
      | none | some .null =>
        match argument "value" with
        | some m => m
        | none => throw .missingDefault
      | some v => return v
  else
    let v ← value
    match Filter.ofName? filter with
    | none => throw (.unknownFilter filter)
    | some f => lift (f.run v (← arguments))

/-- Whether a value does not count as true; what is missing, where it is needed, does not either. -/
def denied (needed? : Option (String × List String)) (value : Merge Json) : Merge Bool := do
  let missing ← match needed? with
    | none => pure false
    | some (root, members) => do pure (← find? root members).isNone
  if missing then return true else return ! (← value).isTruthy

/-- The text of a value that is joined to others. -/
def joinable : Json → Merge String
  | .string s => return s
  | .number n => return n.literal
  | _ => throw .notATextPart

end Merge

namespace Expr

open Merge

/-- The path that an expression is. -/
def path? : Expr → Option (String × List String)
  | path root members => some (root, members)
  | _ => none

mutual

/-- **The value of an expression.** -/
def value (descend : Descend) : Expr → Merge Json
  | literal v => return v
  | path root members => find root members
  | call f args => called f (argumentValues descend args)
  | expand space name args =>
    return .string (← expanded descend space name (argumentNamed? descend args))
  | array items => return .array (← values descend items)
  | concat parts => return .string (String.join (← texts descend parts))
  | math op l r => operationValue (do
    let a ← number descend l
    let b ← number descend r
    combine op a b)
  | compare op l r =>
    return .bool ((← compared op (value descend l) (value descend r) (number descend l)
      (number descend r)).getD false)
  | both l r => do
    if (← judge descend l).getD false then
      return .bool ((← judge descend r).getD false)
    else return .bool false
  | either l r => do
    if (← judge descend l).getD false then return .bool true
    else return .bool ((← judge descend r).getD false)
  | negated e => do
    if e.isJudgement then return .bool (! ((← judge descend e).map (! ·)).getD false)
    else return .bool (← denied e.needed? (value descend e))
  | apply e f args =>
    applied f e.path? (value descend e) (argumentNamed? descend args)
      (argumentValues descend args)

/-- **The judgement of an expression**, if it has one. -/
def judge (descend : Descend) : Expr → Merge (Option Bool)
  | literal v => return some v.isTruthy
  | path root members =>
    return some (← orFalse (return (← find root members).isTruthy))
  | call f args => do
    match ← called f (argumentValues descend args) with
    | .bool b => return some b
    | _ => throw (.notATruthValue f)
  | expand space name args =>
    return some ((← expanded descend space name (argumentNamed? descend args)) != "")
  | array items => return some (! (← values descend items).isEmpty)
  | concat parts => return some (String.join (← texts descend parts) != "")
  | math op l r => do
    let a ← number descend l
    let b ← number descend r
    return some ((← combine op a b).any Number.isNonzero)
  | compare op l r =>
    compared op (value descend l) (value descend r) (number descend l) (number descend r)
  | both l r => do
    if (← judge descend l).getD false then return some ((← judge descend r).getD false)
    else return some false
  | either l r => do
    if (← judge descend l).getD false then return some true
    else return some ((← judge descend r).getD false)
  | negated e => do
    if e.isNamed then return some (← orFalse (denied e.needed? (value descend e)))
    else return (← judge descend e).map (! ·)
  | apply e f args => do
    let v := applied f e.path? (value descend e) (argumentNamed? descend args)
      (argumentValues descend args)
    if e.isNamed then return some (← orFalse (return (← v).isTruthy)) else judge descend e

/-- **The number that an expression is**, if its operations have a result. -/
def number (descend : Descend) : Expr → Merge (Option Number)
  | literal v => numberOf v
  | path root members => do numberOf (← find root members)
  | call f args => do numberOf (← called f (argumentValues descend args))
  | math op l r => do
    let a ← number descend l
    let b ← number descend r
    combine op a b
  | apply e f args => do
    numberOf (← applied f e.path? (value descend e) (argumentNamed? descend args)
      (argumentValues descend args))
  | _ => throw .notANumber

/-- The values of expressions. -/
def values (descend : Descend) : List Expr → Merge (List Json)
  | [] => return []
  | e :: es => do
    let v ← value descend e
    return v :: (← values descend es)

/-- The texts of expressions that are joined. -/
def texts (descend : Descend) : List Expr → Merge (List String)
  | [] => return []
  | e :: es => do
    let s ← match e with
      | literal v => pure v.plain
      | e => joinable (← value descend e)
    return s :: (← texts descend es)

/-- The argument of a name, to be read when it is needed. -/
def argumentNamed? (descend : Descend) : List (String × Expr) → String → Option (Merge Json)
  | [], _ => none
  | (n, e) :: rest, name =>
    if n = name then some (value descend e) else argumentNamed? descend rest name

/-- The values of all arguments. -/
def argumentValues (descend : Descend) : List (String × Expr) → Merge (Table Json)
  | [] => return []
  | (n, e) :: rest => do
    let v ← value descend e
    return (n, v) :: (← argumentValues descend rest)

end

/-- Whether the judgement of an expression is true. -/
def holds (descend : Descend) (e : Expr) : Merge Bool := do
  return (← judge descend e).getD false

end Expr

end QueryPress
