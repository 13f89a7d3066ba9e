import QueryPress.Disk
import QueryPress.Json
import QueryPress.Merge.Error

/-!
# Merge/Standard — the functions that every template has

Two of them only work on their arguments. The others look outside the merge: at the clock, for a number
by chance, or into the environment. What they find is another thing each time, so they are told how many
questions have been asked before.
-/

namespace QueryPress

/-- The functions that every template has, beside those that read properties. -/
inductive Standard
  /-- Whole numbers in a row. -/
  | range
  /-- Gives up. -/
  | fail
  /-- The time. -/
  | clock
  /-- A whole number by chance. -/
  | chance
  /-- A variable of the environment. -/
  | environment
  deriving DecidableEq, Repr

namespace Standard

/-- The name of a function in a template. -/
def name : Standard → String
  | range => "range"
  | fail => "throw"
  | clock => "now"
  | chance => "get_random"
  | environment => "get_env"

/-- The function of a name. -/
def ofName? (n : String) : Option Standard :=
  [range, fail, clock, chance, environment].find? (·.name == n)

theorem name_of_ofName? {n : String} {f : Standard} (h : ofName? n = some f) : f.name = n := by
  rw [ofName?] at h
  have hname := List.find?_some h
  exact beq_iff_eq.1 hname

/-- A whole number among the arguments that `fits`, which need not be given where `standIn` stands in. -/
def wholeArgument (f : Standard) (arguments : Table Json) (argument : String) (fits : Int → Bool)
    (standIn : Option Int) : Except MergeError Int :=
  match ((Table.get? arguments argument).elim standIn Json.integer?).filter fits with
  | some n => .ok n
  | none => .error (.wrongArgument f.name argument)

/-- A truth value among the arguments, which is false unless it is given. -/
def flagArgument (f : Standard) (arguments : Table Json) (argument : String) :
    Except MergeError Bool :=
  match Table.get? arguments argument with
  | some (.bool b) => .ok b
  | none => .ok false
  | some _ => .error (.wrongArgument f.name argument)

/-- A text among the arguments, which has to be given. -/
def textArgument (f : Standard) (arguments : Table Json) (argument : String) :
    Except MergeError String :=
  match Table.get? arguments argument with
  | some (.string s) => .ok s
  | _ => .error (.wrongArgument f.name argument)

/-- The whole numbers from `start` on, one `step` after the other, that come before `stop`. -/
def numbers (start stop step : Nat) : List Json :=
  (List.range ((stop - start + step - 1) / step)).map fun i => .ofInt ((start + i * step : Nat) : Int)

/-- **What a function says** when so many questions have been asked before. Steps have a length, and a
number is only chosen where there is one to choose. -/
def run (f : Standard) (w : World) (asked : Nat) (arguments : Table Json) : Except MergeError Json :=
  match f with
  | range => do
    let start ← f.wholeArgument arguments "start" Number.isUnsigned (some 0)
    let step ← f.wholeArgument arguments "step_by" (fun n => 0 < n && Number.isUnsigned n) (some 1)
    let stop ← f.wholeArgument arguments "end" Number.isUnsigned none
    if stop < start then throw (.wrongArgument f.name "start")
    return .array (numbers start.toNat stop.toNat step.toNat)
  | fail => do throw (.given (← f.textArgument arguments "message"))
  | clock => do
    let isUniversal ← f.flagArgument arguments "utc"
    if ← f.flagArgument arguments "timestamp" then
      return .ofInt (w.now + w.outside.elapsed asked)
    return .string (w.outside.clockText isUniversal asked)
  | chance => do
    let start ← f.wholeArgument arguments "start" Number.isSigned (some 0)
    let stop ← f.wholeArgument arguments "end" Number.isSigned none
    if stop ≤ start then throw (.wrongArgument f.name "end")
    return .ofInt (start + w.outside.chance asked % (stop - start))
  | environment => do
    let name ← f.textArgument arguments "name"
    match w.environment? name, Table.get? arguments "default" with
    | some text, _ => return .string text
    | none, some standIn => return standIn
    | none, none => throw (.unknownVariableOutside name)

end Standard

end QueryPress
