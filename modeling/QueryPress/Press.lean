import QueryPress.BufferPool
import QueryPress.Compiler
import QueryPress.Merge.Writing
import QueryPress.Settings

/-!
# Press — templates merged with variables

A press is what an engine works with: property sources, a compiler and output buffers. Before each
merge the template and the property sources are looked at again. The output is written into a buffer
of the pool, which gets it back also from a merge that fails.
-/

namespace QueryPress

open Properties (Registry)

/-- Property sources, a compiler and output buffers. -/
structure Press where
  registry : Registry
  compiler : Compiler
  buffers : BufferPool

namespace Press

/-- The press that the settings ask for, with a working directory that there is already. -/
def ofSettings (w : World) (s : Settings) (workingDirectory : Path) : Except Error Press :=
  match (s.chainSettings w.home workingDirectory).bind fun ls =>
      Chain.ofLoaders (ls.map fun settings => { settings }) with
  | .error e => .error (.config e)
  | .ok chain =>
    let pool : BufferPool :=
      { maxSize := s.bufferPoolSize, capacity := s.bufferCapacity,
        maxRetained := s.maxRetainedBuffer }
    .ok {
      registry := Registry.ofDeclarations w s.configDirectory s.reloadInterval s.properties
      compiler := { workingDirectory, marker := s.cacheMarker, chain }
      buffers := pool.warm s.bufferPoolSize }

/-- **What names stand for in a template** — the variables, and behind them every property source as
one object of its properties. The sources have to be ready to answer. -/
def context (registry : Registry) (vars : Table Json) : Table Json :=
  Table.override (registry.map fun (n, s) => (n, s.snapshot.value)) vars

/-- A buffer with what was written, the last piece first. -/
def filled (b : Buffer) (written : List String) : Buffer :=
  written.foldr (fun piece b => b.appendText piece) b

/-- Merges a bundle with variables into a buffer: the bytes, and the registry and the pool
afterwards. -/
def mergeBundle (w : World) (b : Bundle) (vars : Table Json) (registry : Registry)
    (pool : BufferPool) : Except MergeError ByteArray × Registry × BufferPool :=
  let registry := registry.fresh w
  let scene : Scene :=
    { world := w, book := b.book, entry := b.entry, vars := context registry vars }
  let (buffer, pool) := pool.get
  let (result, draft) := scene.merge registry
  let buffer := filled buffer draft.written
  (result.map fun () => buffer.content, draft.registry, pool.giveBack buffer)

/-- **Merges a template with variables** — the bytes, and the template and the press afterwards. -/
def render (w : World) (p : Press) (t : Template) (vars : Table Json) :
    Except Error ByteArray × Template × Press :=
  let (t, compiler) := p.compiler.refresh w t
  let (result, registry, buffers) := mergeBundle w t.bundle vars p.registry p.buffers
  (result.mapError (.execution t.label), t, { registry, compiler, buffers })

/-- The text of rendered bytes. -/
def textOf (label : String) (bytes : ByteArray) : Except Error String :=
  match String.fromUTF8? bytes with
  | some text => .ok text
  | none => .error (.execution label .notAText)

/-- Merges a template with variables into a text. -/
def renderText (w : World) (p : Press) (t : Template) (vars : Table Json) :
    Except Error String × Template × Press :=
  let (result, t, p) := p.render w t vars
  (result.bind (textOf t.label), t, p)

end Press

end QueryPress
