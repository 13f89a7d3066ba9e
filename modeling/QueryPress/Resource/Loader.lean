import QueryPress.Resource.Basic
import QueryPress.Table

/-!
# Resource/Loader — texts from the files below some directories

A loader looks for a name below its directories in order. It keeps two tables: the copies it has
handed out, if it is to keep any, and when it last looked at the file of each name. An operation
answers and leaves the loader as it is afterwards, also where it fails.
-/

namespace QueryPress

/-- What a loader is to do. -/
structure LoaderSettings where
  name : String
  paths : List Path
  /-- Whether copies are kept. -/
  cache : Bool
  checkInterval : CheckInterval
  deriving DecidableEq, Repr

/-- A loader with its copies and the times of its last looks. -/
structure Loader where
  settings : LoaderSettings
  copies : Table Resource := []
  checks : Table Instant := []

namespace Loader

/-- The name of the loader. -/
def name (l : Loader) : String := l.settings.name

/-- The first file of a name below the loader's directories. A name that could lead out of them has
none. -/
def locate? (w : World) (l : Loader) (name : String) : Option Path :=
  if Path.isConfined name then (l.settings.paths.map (Path.join · name)).find? w.isFile else none

/-- Reads a file under a name. -/
def read (w : World) (l : Loader) (name : String) (path : Path) : Except IoError Resource := do
  let modified := (w.modified path).toOption
  let source ← w.readText path
  return { name, loader := l.name, path, source, modified }

/-- Whether it is time to look at the file of a name; it is for a name not looked at yet. -/
def isDue (l : Loader) (now : Instant) (name : String) : Bool :=
  match Table.get? l.checks name with
  | none => true
  | some last => l.settings.checkInterval.isDue last now

/-- Takes down that the file of a name is looked at now. -/
def noteCheck (l : Loader) (now : Instant) (name : String) : Loader :=
  { l with checks := Table.insert l.checks name now }

/-- **Claims a look at the file of a name** — whether it is time for one, which then counts as
done. -/
def claim (l : Loader) (now : Instant) (name : String) : Bool × Loader :=
  if l.isDue now name then (true, l.noteCheck now name) else (false, l)

/-- The copy kept under a name. -/
def copy? (l : Loader) (name : String) : Option Resource :=
  if l.settings.cache then Table.get? l.copies name else none

/-- Takes down what was read now, and keeps a copy if copies are kept. -/
def remember (l : Loader) (now : Instant) (r : Resource) : Loader :=
  let l := l.noteCheck now r.name
  if l.settings.cache then { l with copies := Table.insert l.copies r.name r } else l

/-- Forgets a name. -/
def evict (l : Loader) (name : String) : Loader :=
  { l with copies := Table.erase l.copies name, checks := Table.erase l.checks name }

/-- Looks for a name on the disk: what is found is remembered, and what is not there is forgotten. -/
def search (w : World) (l : Loader) (name : String) : Except IoError (Option Resource) × Loader :=
  match l.locate? w name with
  | none => (.ok none, l.evict name)
  | some path =>
    match l.read w name path with
    | .error e => (.error e, l)
    | .ok r => (.ok (some r), l.remember w.now r)

/-- Whether the file of a copy is there and not later than the copy. -/
def isCurrent (w : World) (r : Resource) : Bool :=
  match w.modified r.path with
  | .ok time => ! isLater (some time) r.modified
  | .error _ => false

/-- **Loads a name** — a kept copy that need not be looked at or has not changed, else what is on the
disk. -/
def load (w : World) (l : Loader) (name : String) : Except IoError (Option Resource) × Loader :=
  match l.copy? name with
  | none => l.search w name
  | some copy =>
    let (due, l) := l.claim w.now name
    if ! due || isCurrent w copy then (.ok (some copy), l) else l.search w name

/-- Reads a resource again if its file is there and later. -/
def reread (w : World) (l : Loader) (r : Resource) : Except IoError (Option Resource) × Loader :=
  match w.modified r.path with
  | .error _ => (.ok none, l)
  | .ok time =>
    if ! isLater (some time) r.modified then (.ok none, l)
    else
      match l.read w r.name r.path with
      | .error e => (.error e, l)
      | .ok fresh => (.ok (some fresh), l.remember w.now fresh)

/-- **A later copy of a resource**, if there is one: from the disk if it is time to look, else the
kept copy. -/
def refresh (w : World) (l : Loader) (r : Resource) : Except IoError (Option Resource) × Loader :=
  if l.settings.checkInterval = .never then (.ok none, l)
  else
    let (due, l) := l.claim w.now r.name
    if due then l.reread w r
    else (.ok ((l.copy? r.name).filter fun c => isLater c.modified r.modified), l)

@[simp] theorem settings_noteCheck (l : Loader) (now : Instant) (name : String) :
    (l.noteCheck now name).settings = l.settings := rfl

@[simp] theorem settings_evict (l : Loader) (name : String) :
    (l.evict name).settings = l.settings := rfl

@[simp] theorem settings_remember (l : Loader) (now : Instant) (r : Resource) :
    (l.remember now r).settings = l.settings := by
  by_cases h : l.settings.cache = true <;> simp [remember, h]

@[simp] theorem settings_claim (l : Loader) (now : Instant) (name : String) :
    (l.claim now name).2.settings = l.settings := by
  unfold claim
  split <;> rfl

end Loader

end QueryPress
