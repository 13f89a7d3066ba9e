import QueryPress.Press

/-!
# Engine — a press with a working directory and an end

An engine makes its working directory first: the one the settings name, which stays, or one of its
own, which goes with the engine. Shutting down deletes every file that was written and happens once;
dropping an engine shuts it down if that has not happened yet.
-/

namespace QueryPress

/-- The directory that an engine writes its files to. -/
inductive WorkDirectory
  /-- A directory of the engine's own. -/
  | owned (path : Path)
  /-- A directory that the settings name. -/
  | configured (path : Path)
  deriving DecidableEq, Repr

namespace WorkDirectory

/-- The path of the directory. -/
def path : WorkDirectory → Path
  | owned p => p
  | configured p => p

/-- The name of a directory of an engine's own. -/
def ownedName (serial : Nat) : String := "press-" ++ toString serial

/-- Makes the directory that the settings name, or one of the engine's own. -/
def make (w : World) (s : Settings) : Except Error WorkDirectory × World :=
  match s.workingDirectory with
  | some p =>
    let path := Path.resolve w.home s.configDirectory p
    match w.makeDirectories path with
    | (.ok (), w) => (.ok (configured path), w)
    | (.error _, w) => (.error (.config (.workingDirectory path)), w)
  | none =>
    let (path, w) := w.freshPath fun n => w.temporary.join (ownedName n)
    match w.makeDirectory path with
    | .ok w => (.ok (owned path), w)
    | .error _ => (.error (.config .privateDirectory), w)

/-- The world when the directory is no longer needed. -/
def letGo (w : World) : WorkDirectory → World
  | owned path => (w.removeTree path).toOption.getD w
  | configured _ => w

end WorkDirectory

/-- A press, its working directory, and whether it has been shut down. -/
structure Engine where
  press : Press
  workDirectory : WorkDirectory
  isShutDown : Bool := false

namespace Engine

/-- **The engine that the settings ask for.** -/
def ofSettings (w : World) (s : Settings) : Except Error Engine × World :=
  match WorkDirectory.make w s with
  | (.error e, w) => (.error e, w)
  | (.ok workDirectory, w) =>
    match Press.ofSettings w s workDirectory.path with
    | .error e => (.error e, workDirectory.letGo w)
    | .ok press => (.ok { press, workDirectory }, w)

/-- Deletes every file that was written, the first time it is called. -/
def shutdown (w : World) (e : Engine) : Engine × World :=
  if e.isShutDown then (e, w)
  else
    let (_, compiler, w) := e.press.compiler.removeAll w
    ({ e with press := { e.press with compiler, buffers := e.press.buffers.clear },
              isShutDown := true }, w)

/-- The world after the engine: its files are deleted, and so is a directory of its own. -/
def drop (w : World) (e : Engine) : World :=
  let (e, w) := e.shutdown w
  e.workDirectory.letGo w

@[simp] theorem shutdown_of_isShutDown (w : World) {e : Engine} (h : e.isShutDown = true) :
    e.shutdown w = (e, w) := by
  simp [shutdown, h]

end Engine

end QueryPress
