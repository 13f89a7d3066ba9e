import QueryPress.Press
import QueryPress.Proofs.BufferPool.Lending
import QueryPress.Proofs.Merge.Keeping
import QueryPress.Proofs.Merge.Repeating

/-!
# Proofs/Press/Merging — what a bundle is merged to

A press looks at its property sources, merges and gives the buffer back.  Steady sources show after it what
they have shown in it (`Press.shows_mergeBundle`), and all idle buffers are empty if they have been
(`Press.isClean_mergeBundle`), whether the merge fails or not.  What it comes to depends on the book and
its entry, on the contents of the sources, on the variables and on what functions find outside: not on the
files, nor on when they were written (`Press.mergeBundle_alike`), nor on the buffer
(`Press.mergeBundle_anew`).
-/

namespace QueryPress

variable {w w' : World}

/-! ## What a merge comes to -/

namespace Press

theorem content_filled {a b : Buffer} (h : a.content = b.content) : ∀ written : List String,
    (filled a written).content = (filled b written).content
  | [] => h
  | piece :: written => congrArg (· ++ piece.toUTF8) (content_filled h written)

theorem context_of_shows {registry : Properties.Registry} {shown : Table (Table String)}
    (h : registry.Shows w shown) (vars : Table Json) : context registry vars
      = Table.override (shown.map fun p => (p.1, Properties.Snapshot.value ⟨p.2, 0⟩)) vars := by
  rw [context, ← h.contents, Properties.Registry.contents, List.map_map]
  rfl

/-- The scene of a bundle with variables. -/
def sceneOf (w : World) (b : Bundle) (vars : Table Json) (registry : Properties.Registry) : Scene where
  world := w
  book := b.book
  entry := b.entry
  vars := context registry vars

/-- What a merge has written, in a buffer. -/
def outcome (result : Except MergeError Unit × Draft) (buffer : Buffer) : Except MergeError ByteArray :=
  result.1.map fun () => (filled buffer result.2.written).content

theorem mergeBundle_eq (w : World) (b : Bundle) (vars : Table Json) (registry : Properties.Registry)
    (pool : BufferPool) : mergeBundle w b vars registry pool =
      let result := (sceneOf w b vars (registry.fresh w)).merge (registry.fresh w)
      (outcome result pool.get.1, result.2.registry,
        pool.get.2.giveBack (filled pool.get.1 result.2.written)) := rfl

theorem isClean_mergeBundle {pool : BufferPool} (h : pool.IsClean) (w : World) (b : Bundle)
    (vars : Table Json) (registry : Properties.Registry) :
    (mergeBundle w b vars registry pool).2.2.IsClean := h.get.giveBack _

/-- **A merge leaves the sources in order.** -/
theorem inOrder_mergeBundle (w : World) (b : Bundle) (vars : Table Json) {registry : Properties.Registry}
    (hordered : Table.InOrder registry) (pool : BufferPool) :
    Table.InOrder (mergeBundle w b vars registry pool).2.1 := by
  rw [mergeBundle_eq]
  refine Scene.merge_keeps (fun asked r n s hr _ => hr.insert n _) ?_
  rwa [Table.InOrder, Properties.Registry.keys_fresh]

/-- **A merge leaves steady sources showing what they have shown.** -/
theorem shows_mergeBundle (w : World) (b : Bundle) (vars : Table Json) {registry : Properties.Registry}
    (hordered : Table.InOrder registry) (hsteady : (registry.fresh w).IsSteady w) (pool : BufferPool) :
    (mergeBundle w b vars registry pool).2.1.Shows w (registry.fresh w).contents := by
  rw [mergeBundle_eq]
  have hshown := Properties.Registry.inOrder_contents_fresh w hordered
  exact Scene.merge_keeps (fun asked r n s hr hs => (hr.insert_fresh hshown hs asked).2) ⟨rfl, hsteady⟩

/-- **A merge comes to the same in whichever clean buffer.** -/
theorem mergeBundle_anew (w : World) (b : Bundle) (vars : Table Json) (registry : Properties.Registry)
    {pool pool' : BufferPool} (hclean : pool.IsClean) (hclean' : pool'.IsClean) :
    (mergeBundle w b vars registry pool').1 = (mergeBundle w b vars registry pool).1 := by
  rw [mergeBundle_eq, mergeBundle_eq]
  simp only [outcome, content_filled (hclean'.content_get.trans hclean.content_get.symm)]

/-- **Merges of one book come to the same** if their steady sources have the same contents and the functions
that the book calls say the same, into whichever clean buffers. -/
theorem mergeBundle_alike {b b' : Bundle} (hentry : b'.entry = b.entry) (hbook : b'.book = b.book)
    (vars : Table Json) {registry registry' : Properties.Registry} {pool pool' : BufferPool}
    (hordered : Table.InOrder registry)
    (hcontents : (registry'.fresh w').contents = (registry.fresh w).contents)
    (hsteady : (registry.fresh w).IsSteady w) (hsteady' : (registry'.fresh w').IsSteady w')
    (hsame : ∀ f : Standard, f.name ∈ b.book.calls → f.SaysTheSame w w')
    (hclean : pool.IsClean) (hclean' : pool'.IsClean) :
    (mergeBundle w' b' vars registry' pool').1 = (mergeBundle w b vars registry pool).1 := by
  have hshows : (registry.fresh w).Shows w (registry.fresh w).contents := ⟨rfl, hsteady⟩
  have hshows' : (registry'.fresh w').Shows w' (registry.fresh w).contents := ⟨hcontents, hsteady'⟩
  have hscene : sceneOf w' b' vars (registry'.fresh w')
      = { sceneOf w b vars (registry.fresh w) with world := w' } := by
    rw [sceneOf, sceneOf, context_of_shows hshows', context_of_shows hshows, hentry, hbook]
  obtain ⟨a, e, after, after', hfirst, hsecond, -⟩ := Scene.merge_repeats
    (Properties.Registry.inOrder_contents_fresh w hordered)
    (sceneOf w b vars (registry.fresh w)) hsame hshows hshows'
  have hfirst : (sceneOf w b vars (registry.fresh w)).merge (registry.fresh w)
    = (a, { e with registry := after }) := hfirst
  rw [mergeBundle_eq, mergeBundle_eq, hscene, hfirst, hsecond]
  simp only [outcome, content_filled (hclean'.content_get.trans hclean.content_get.symm)]

/-! ## Merging again -/

/-- **The sources wait** until a template has been merged again, unless they look every time or are up to
date. -/
def SourcesWait (w w' : World) (registry : Properties.Registry) : Prop :=
  ∀ p ∈ registry, p.2.interval ≠ 0 → ¬ p.2.IsCurrent w → p.2.Waits w'

/-- **To merge a bundle again comes to the same** while no file changes, steady sources wait and functions
say the same. -/
theorem mergeBundle_again (b : Bundle) (vars : Table Json) {registry : Properties.Registry}
    {pool : BufferPool} (hordered : Table.InOrder registry) (hclean : pool.IsClean)
    (hsteady : (registry.fresh w).IsSteady w)
    (hsame : ∀ f : Standard, f.name ∈ b.book.calls → f.SaysTheSame w w')
    (hu : w.Unchanged w') (hwait : SourcesWait w w' (mergeBundle w b vars registry pool).2.1) :
    (mergeBundle w' b vars (mergeBundle w b vars registry pool).2.1
      (mergeBundle w b vars registry pool).2.2).1 = (mergeBundle w b vars registry pool).1 := by
  have hafter := shows_mergeBundle w b vars hordered hsteady pool
  -- the sources go on showing in the second world what they have shown in the first
  have hafter' := hafter.again hu hwait
  exact mergeBundle_alike rfl rfl vars hordered hafter'.contents hsteady hafter'.steady hsame hclean
    (isClean_mergeBundle hclean w b vars registry)

end Press

/-! ## What a rendering comes to -/

/-- **Two renderings come to the same** — to the same bytes, or to the same reason why there are none. -/
inductive SameOutcome : Except Error ByteArray → Except Error ByteArray → Prop
  | success (bytes : ByteArray) : SameOutcome (.ok bytes) (.ok bytes)
  | failure (label label' : String) (e : MergeError) :
      SameOutcome (.error (.execution label e)) (.error (.execution label' e))

theorem SameOutcome.of_merge (label label' : String) : ∀ x : Except MergeError ByteArray,
    SameOutcome (x.mapError (.execution label)) (x.mapError (.execution label'))
  | .ok bytes => .success bytes
  | .error e => .failure label label' e

theorem SameOutcome.toOption_eq {x x' : Except Error ByteArray} (h : SameOutcome x x') :
    x'.toOption = x.toOption := by
  cases h <;> rfl

section

variable (p : Press) (w : World) (t : Template) (vars : Table Json)

/-- What a rendering merges: the bundle as it is refreshed. -/
theorem Press.fst_render : (p.render w t vars).1 =
    (mergeBundle w (t.bundle.refresh w p.compiler.chain).1 vars p.registry p.buffers).1.mapError
      (.execution (Template.label { t with bundle := (t.bundle.refresh w p.compiler.chain).1 })) := rfl

theorem Press.template_render : (p.render w t vars).2.1
    = { t with bundle := (t.bundle.refresh w p.compiler.chain).1 } := rfl

theorem Press.chain_render : (p.render w t vars).2.2.compiler.chain
    = (t.bundle.refresh w p.compiler.chain).2 := rfl

theorem Press.sources_render : (p.render w t vars).2.2.registry
    = (mergeBundle w (t.bundle.refresh w p.compiler.chain).1 vars p.registry p.buffers).2.1 := rfl

theorem Press.buffers_render : (p.render w t vars).2.2.buffers
    = (mergeBundle w (t.bundle.refresh w p.compiler.chain).1 vars p.registry p.buffers).2.2 := rfl

end

end QueryPress
