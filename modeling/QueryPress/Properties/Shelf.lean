import QueryPress.Properties.Source

/-!
# Properties/Shelf — a source whose snapshots remember what was asked of them

A snapshot that has been asked for a list, a set or the whole object works it out once and keeps it.  What
it keeps goes with the snapshot: a new snapshot begins with nothing, and a snapshot that was handed out
keeps its own after it has been replaced.  So the snapshots of a source stand on a shelf, oldest first,
and a host that holds one holds its number.
-/

namespace QueryPress.Properties

/-- What can be asked of a snapshot. -/
inductive Query where
  | get (key : String)
  | list (key : String)
  | set (key : String)
  | keys
  | value
  deriving DecidableEq, Repr

/-- What a snapshot answers. -/
inductive Answer where
  | text (value : Option String)
  | texts (values : List String)
  | object (value : Json)

/-- A snapshot, and what has been worked out from it. -/
structure Sheet where
  snapshot : Snapshot
  lists : Table (List String) := []
  sets : Table (List String) := []
  object : Option Json := none

namespace Sheet

/-- **The answer of a snapshot** — kept if it took work, and the kept one if there is one. -/
def answer (s : Sheet) : Query → Answer × Sheet
  | .get key => (.text (s.snapshot.get? key), s)
  | .list key =>
    match s.lists.get? key with
    | some l => (.texts l, s)
    | none =>
      let l := s.snapshot.list key
      (.texts l, { s with lists := s.lists.insert key l })
  | .set key =>
    match s.sets.get? key with
    | some l => (.texts l, s)
    | none =>
      let l := s.snapshot.set key
      (.texts l, { s with sets := s.sets.insert key l })
  | .keys => (.texts s.snapshot.values.keys, s)
  | .value =>
    match s.object with
    | some v => (.object v, s)
    | none =>
      let v := s.snapshot.value
      (.object v, { s with object := some v })

@[simp] theorem snapshot_answer (s : Sheet) (q : Query) :
    (s.answer q).2.snapshot = s.snapshot := by
  cases q <;> simp only [answer] <;> split <;> rfl

end Sheet

/-- A named properties file with all its snapshots. -/
structure Shelf where
  name : String
  path : Path
  /-- Milliseconds between two looks at the file; at zero every answer looks. -/
  interval : Nat
  /-- The snapshots that have been replaced, oldest first. -/
  older : List Sheet := []
  /-- The snapshot that answers. -/
  top : Sheet
  lastCheck : Instant

namespace Shelf

/-- Opens a source, which has to be readable now. -/
def ofFile (w : World) (name : String) (path : Path) (interval : Nat) : Except IoError Shelf := do
  let snapshot ← Snapshot.ofFile w path
  return { name, path, interval, top := { snapshot }, lastCheck := w.now }

/-- The source without what its snapshots remember. -/
def source (s : Shelf) : Source :=
  { name := s.name, path := s.path, interval := s.interval, snapshot := s.top.snapshot,
    lastCheck := s.lastCheck }

/-- Looks at the file if it is time to. -/
def check (w : World) (s : Shelf) : Bool × Shelf :=
  ((s.source.check w).1, { s with lastCheck := (s.source.check w).2.lastCheck })

/-- Puts a new snapshot on the shelf if the file can be read. -/
def reload (w : World) (s : Shelf) : Shelf :=
  match Snapshot.ofFile w s.path with
  | .ok snapshot => { s with older := s.older ++ [s.top], top := { snapshot } }
  | .error _ => s

/-- **The source that is ready to answer.** -/
def fresh (w : World) (s : Shelf) : Shelf :=
  let (outdated, s) := s.check w
  if outdated then s.reload w else s

/-- The answer of the source. -/
def answer (w : World) (s : Shelf) (q : Query) : Answer × Shelf :=
  let s := s.fresh w
  let (a, top) := s.top.answer q
  (a, { s with top })

/-- The number of the current snapshot, for a host to hold. -/
def hand (w : World) (s : Shelf) : Nat × Shelf :=
  let s := s.fresh w
  (s.older.length, s)

/-- The snapshot with a number. -/
def sheet (s : Shelf) (i : Nat) : Sheet := s.older.getD i s.top

/-- The answer of a snapshot that was handed out. -/
def answerOf (s : Shelf) (i : Nat) (q : Query) : Answer × Shelf :=
  let (a, sheet) := (s.sheet i).answer q
  (a, if i < s.older.length then { s with older := s.older.set i sheet } else { s with top := sheet })

/-! ## Without the remembering -/

@[simp] theorem path_check (w : World) (s : Shelf) : (s.check w).2.path = s.path := rfl

theorem ofFile_source (w : World) (name : String) (path : Path) (interval : Nat) :
    source <$> ofFile w name path interval = Source.ofFile w name path interval := by
  simp only [ofFile, Source.ofFile, bind, Except.bind]
  cases Snapshot.ofFile w path <;> rfl

theorem source_check (w : World) (s : Shelf) : (s.check w).2.source = (s.source.check w).2 := by
  simp only [check, Source.check]
  split <;> rfl

theorem source_reload (w : World) (s : Shelf) : (s.reload w).source = s.source.reload w := by
  simp only [reload, Source.reload, show s.source.path = s.path from rfl]
  cases Snapshot.ofFile w s.path <;> rfl

/-- **A source that remembers is the same source.** -/
theorem source_fresh (w : World) (s : Shelf) : (s.fresh w).source = s.source.fresh w := by
  simp only [fresh, Source.fresh, ← source_check, ← source_reload,
    show (s.check w).1 = (s.source.check w).1 from rfl]
  split <;> rfl

end Shelf

end QueryPress.Properties
