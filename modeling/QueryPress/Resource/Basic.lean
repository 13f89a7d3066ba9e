import QueryPress.Disk

/-!
# Resource/Basic — a text under a name, and how often it is looked at again
-/

namespace QueryPress

/-- A text that a loader has found, or that was given in memory, which has no time. -/
structure Resource where
  /-- The name it was asked for under. -/
  name : String
  /-- The name of the loader that found it. -/
  loader : String
  path : Path
  source : String
  modified : Option Instant
  deriving DecidableEq, Repr

/-- Whether one time is later than another; no time is earlier than any. -/
def isLater : Option Instant → Option Instant → Bool
  | some a, some b => b < a
  | some _, none => true
  | none, _ => false

/-- How often a loader looks at a file again. -/
inductive CheckInterval
  | never
  /-- When so many seconds have passed since it last looked. -/
  | every (seconds : Nat)
  | always
  deriving DecidableEq, Repr

namespace CheckInterval

/-- Zero is never, a positive number is that many seconds, and a negative number is always. -/
def ofSeconds (n : Int) : CheckInterval :=
  if n = 0 then never else if 0 < n then every n.toNat else always

/-- Whether it is time to look again. -/
def isDue (i : CheckInterval) (last now : Instant) : Bool :=
  match i with
  | never => false
  | every n => n ≤ now - last
  | always => true

end CheckInterval

end QueryPress
