import QueryPress.Properties.Snapshot

/-!
# Properties/Source — a properties file that is read again when it changes

A source answers from its last snapshot. Before it answers it looks at the file, but not before its
interval has passed since it last looked, and it takes a new snapshot only if the file's time is
later than the snapshot's. A file that cannot be read leaves the last snapshot in place.
-/

namespace QueryPress.Properties

/-- A named properties file with its last snapshot. -/
structure Source where
  name : String
  path : Path
  /-- Milliseconds between two looks at the file; at zero every answer looks. -/
  interval : Nat
  snapshot : Snapshot
  lastCheck : Instant

namespace Source

/-- Opens a source, which has to be readable now. -/
def ofFile (w : World) (name : String) (path : Path) (interval : Nat) : Except IoError Source := do
  let snapshot ← Snapshot.ofFile w path
  return { name, path, interval, snapshot, lastCheck := w.now }

/-- Whether the interval has passed. -/
def isDue (s : Source) (now : Instant) : Bool := s.interval ≤ (now - s.lastCheck) * 1000

/-- Whether the file is there and later than the snapshot. -/
def isOutdated (w : World) (s : Source) : Bool :=
  match w.modified s.path with
  | .ok time => s.snapshot.modified < time
  | .error _ => false

/-- **Looks at the file if it is time to** — whether the snapshot is out of date, and the source
that has looked. -/
def check (w : World) (s : Source) : Bool × Source :=
  if s.isDue w.now then (s.isOutdated w, { s with lastCheck := w.now }) else (false, s)

/-- Takes a new snapshot if the file can be read. -/
def reload (w : World) (s : Source) : Source :=
  match Snapshot.ofFile w s.path with
  | .ok snapshot => { s with snapshot }
  | .error _ => s

/-- **The source that is ready to answer** — it has looked, and has read the file again if that was
out of date. -/
def fresh (w : World) (s : Source) : Source :=
  let (outdated, s) := s.check w
  if outdated then s.reload w else s

@[simp] theorem name_reload (w : World) (s : Source) : (s.reload w).name = s.name := by
  unfold reload
  split <;> rfl

@[simp] theorem name_fresh (w : World) (s : Source) : (s.fresh w).name = s.name := by
  unfold fresh check
  by_cases h : s.isDue w.now = true <;> simp only [h, if_true, if_false, Bool.false_eq_true]
  split
  · exact name_reload w _
  · rfl

end Source

end QueryPress.Properties
