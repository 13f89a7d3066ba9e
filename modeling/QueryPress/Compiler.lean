import QueryPress.Template

/-!
# Compiler — from texts to templates, and the files in between

A compiler owns the loaders and the list of files it has written. A template that is materialized is
first written to a new file in the working directory and then found there by the loaders like any
other; if that fails the file is deleted again. Every operation leaves the compiler and the world as
they are afterwards, also where it fails.
-/

namespace QueryPress

/-- What compiles templates. -/
structure Compiler where
  workingDirectory : Path
  marker : String
  chain : Chain
  /-- The files that were written and not yet deleted. -/
  tracked : List Path := []

namespace Compiler

/-- The loader named by a text that was given in memory; a chain has one of this name only if it is
declared. -/
def inlineLoader : String := "inline"

/-- The label of a text that has no name and is to be materialized. -/
def namelessLabel : String := "<inline>"

/-- The file name of a materialized template. -/
def fileName (serial : Nat) : String := "tmpl-" ++ toString serial ++ ".tera"

/-- A text that was given in memory, under a name. -/
def inlineResource (name source : String) : Resource where
  name := name
  loader := inlineLoader
  path := ""
  source := source
  modified := none

/-- Compiles a text in memory. -/
def compileEphemeral (w : World) (k : Compiler) (name : Option String) (body : String)
    (options : Table String) : Except Error Template × Compiler :=
  let entry := traceId body
  let (bundle, chain) := Bundle.ofRoot w (name.getD entry) (inlineResource entry body) k.chain
  (bundle.map fun bundle => { name, strategy := .ephemeral, origin := .inline, options, bundle },
    { k with chain })

/-- Compiles what the loaders have under a name. -/
def compileNamed (w : World) (label name : String) (c : Chain) : Except Error Bundle × Chain :=
  match c.resolve w name with
  | (.error e, c) => (.error e, c)
  | (.ok root, c) => Bundle.ofRoot w label root c

/-- Deletes a file, if it is there. -/
def delete (w : World) (path : Path) : World := (w.removeFile path).toOption.getD w

/-- Compiles a text that is written to a new file. -/
def compileMaterialized (w : World) (k : Compiler) (name : Option String) (body : String)
    (options : Table String) : Except Error Template × Compiler × World :=
  let label := name.getD namelessLabel
  let (path, w) := w.freshPath fun n => (w.absolute k.workingDirectory).join (fileName n)
  match w.writeText path body with
  | .error _ => (.error (.compile label .temporaryFile), k, w)
  | .ok w =>
    let entry := path.fileName?.getD ""
    match compileNamed w label entry k.chain with
    | (.error e, chain) => (.error e, { k with chain := chain.evict entry }, delete w path)
    | (.ok bundle, chain) =>
      (.ok { name, strategy := .materialized, origin := .materialized path, options, bundle },
        { k with chain, tracked := path :: k.tracked }, w)

/-- **Compiles a text** as its options or its first line ask. -/
def compile (w : World) (k : Compiler) (name : Option String) (source : String)
    (options : Table String) : Except Error Template × Compiler × World :=
  let (detected, body) := Strategy.classify k.marker source
  match Strategy.ofOptions options with
  | .error e => (.error e, k, w)
  | .ok asked =>
    match asked.getD detected with
    | .ephemeral =>
      let (template, k) := k.compileEphemeral w name body options
      (template, k, w)
    | .materialized => k.compileMaterialized w name body options

/-- **Compiles a stored template**, which the loaders have under its name. -/
def compileStored (w : World) (k : Compiler) (name : String) (options : Table String) :
    Except Error Template × Compiler :=
  let (bundle, chain) := compileNamed w name name k.chain
  (bundle.map fun bundle =>
      { name := some name, strategy := .materialized, origin := .stored, options, bundle },
    { k with chain })

/-- A template as its loaders have it now. -/
def refresh (w : World) (k : Compiler) (t : Template) : Template × Compiler :=
  let (bundle, chain) := t.bundle.refresh w k.chain
  ({ t with bundle }, { k with chain })

/-- **Deletes the file of a template**, if this compiler wrote it and has not deleted it. -/
def remove (w : World) (k : Compiler) (t : Template) : Compiler × World :=
  match t.path? with
  | none => (k, w)
  | some path =>
    if k.tracked.contains path then
      ({ k with chain := k.chain.evict t.bundle.entry, tracked := k.tracked.erase path },
        delete w path)
    else (k, w)

/-- Deletes the tracked files one after the other. -/
def removePaths (w : World) (c : Chain) : List Path → Chain × World
  | [] => (c, w)
  | path :: paths =>
    let c := match path.fileName? with
      | some name => c.evict name
      | none => c
    removePaths (delete w path) c paths

/-- **Deletes every file that was written and not yet deleted**, and says how many there were. -/
def removeAll (w : World) (k : Compiler) : Nat × Compiler × World :=
  let (chain, w) := removePaths w k.chain k.tracked
  (k.tracked.length, { k with chain, tracked := [] }, w)

/-- The number of files that were written and not yet deleted. -/
def trackedCount (k : Compiler) : Nat := k.tracked.length

end Compiler

end QueryPress
