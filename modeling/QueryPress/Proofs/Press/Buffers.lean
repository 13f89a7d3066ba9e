import QueryPress.Proofs.Press.Apart

/-!
# Proofs/Press/Buffers — a press and its buffers

Every rendering is a loan (`Lending.run_render`): a buffer is taken, what the merge writes is written to
it, and it comes back, whether the merge fails or not.  So whatever is done with a press, its pool is one
that lending can lead to (`Press.Run.lends`), and a rendering leaves as many idle buffers as it has found,
unless its output has outgrown them (`buffers_stay_in_order`).
-/

namespace QueryPress

variable {w w₀ : World} {p p' p₀ : Press} {t : Template} {vars : Table Json}

namespace Press

/-- What a rendering writes, the last piece first, whether it fails or not. -/
def writtenBy (w : World) (p : Press) (t : Template) (vars : Table Json) : List String :=
  ((sceneOf w (t.bundle.refresh w p.compiler.chain).1 vars (p.registry.fresh w)).merge
    (p.registry.fresh w)).2.written

/-- **The buffer of a rendering**, as it is when it comes back. -/
def outputBuffer (w : World) (p : Press) (t : Template) (vars : Table Json) : Buffer :=
  filled p.buffers.get.1 (p.writtenBy w t vars)

theorem buffers_render_eq (w : World) (p : Press) (t : Template) (vars : Table Json) :
    (p.render w t vars).2.2.buffers = p.buffers.get.2.giveBack (p.outputBuffer w t vars) := rfl

theorem filled_eq_foldl (buffer : Buffer) (written : List String) :
    filled buffer written = (written.reverse.map String.toUTF8).foldl Buffer.append buffer := by
  rw [filled, List.foldl_map, List.foldl_reverse]
  rfl

end Press

/-- **A rendering is a loan.** -/
theorem Lending.run_render (s : Lending) (hpool : p.buffers = s.pool) (w : World) (t : Template)
    (vars : Table Json) : ∃ uses, s.run uses = { s with pool := (p.render w t vars).2.2.buffers } := by
  refine ⟨_, (s.run_loan ((p.writtenBy w t vars).reverse.map String.toUTF8)).trans ?_⟩
  rw [Press.buffers_render_eq, Press.outputBuffer, Press.filled_eq_foldl, hpool]

namespace Press

/-- **What is done with a press** is nothing to its pool, or a run of uses. -/
theorem Step.lends (hstep : Step p p') :
    ∃ uses, Lending.run { pool := p.buffers } uses = { pool := p'.buffers } := by
  cases hstep with
  | render w t vars => exact Lending.run_render { pool := p.buffers } rfl w t vars
  | compiler k => exact ⟨[], rfl⟩
  | sources _ => exact ⟨[], rfl⟩
  | clear => exact ⟨[.clear], rfl⟩
  | warm n => exact ⟨[.warm n], rfl⟩

/-- **The pool of a press** is one that lending leads to from a new one, whatever has been done with the
press, and nothing is on loan. -/
theorem Run.lends {settings : Settings} {directory : Path}
    (hstart : ofSettings w₀ settings directory = .ok p₀) (hrun : Run p₀ p) :
    ∃ uses, Lending.run
      { pool := {
          maxSize := settings.bufferPoolSize
          capacity := settings.bufferCapacity
          maxRetained := settings.maxRetainedBuffer } } uses = { pool := p.buffers } := by
  induction hrun with
  | start =>
    simp only [ofSettings] at hstart
    split at hstart
    · cases hstart
    · obtain rfl := Except.ok.inj hstart
      exact ⟨[.warm settings.bufferPoolSize], rfl⟩
  | step _ hstep ih =>
    obtain ⟨uses, huses⟩ := ih
    obtain ⟨more, hmore⟩ := hstep.lends
    exact ⟨uses ++ more, by rw [Lending.run_append, huses, hmore]⟩

end Press

/-- **A pool stays in order**, whatever its limits are, however many of its buffers are on loan, and in
whichever order they come back.

There are never more idle buffers than the pool may hold.  Each is empty, and has the room of a new one
and not more than the limit, unless new ones do.  Each that is handed out is empty and is one less; each
that comes back is one more, if it is within the limit and there is a place for it.

So a rendering with a buffer from the pool, whether it fails or not, leaves as many idle buffers as it has
found, or the first one; only where the output has outgrown the limit there is one less. -/
theorem buffers_stay_in_order (maxSize capacity maxRetained : Nat) (uses : List Lending.Use) :
    let s := Lending.run { pool := { maxSize, capacity, maxRetained } } uses
    s.pool.size ≤ maxSize ∧
      (∀ buffer ∈ s.pool.idle, buffer.content = .empty ∧ capacity ≤ buffer.capacity ∧
        buffer.capacity ≤ max capacity maxRetained) ∧
      (∃ buffer, (s.step .get).out = s.out ++ [buffer] ∧ buffer.content = .empty ∧
        (s.step .get).pool.size = s.pool.size - 1) ∧
      (∀ i buffer, s.out[i]? = some buffer → (s.step (.drop i)).pool.size =
        if buffer.capacity ≤ maxRetained ∧ s.pool.size < maxSize then s.pool.size + 1
        else s.pool.size) ∧
      ∀ (registry : Properties.Registry) (compiler : Compiler) (w : World) (t : Template)
        (vars : Table Json),
        let p : Press := { registry, compiler, buffers := s.pool }
        (p.render w t vars).2.2.buffers.size =
          if (p.outputBuffer w t vars).capacity ≤ maxRetained then
            if s.pool.size = 0 then min 1 maxSize else s.pool.size
          else s.pool.size - 1 := by
  intro s
  have hsound : s.IsSound := (Lending.isSound_of_idle_eq_nil rfl).run uses
  -- the limits are those that the pool was made with
  have hlimits := Lending.sameLimits_run uses { pool := { maxSize, capacity, maxRetained } }
  have hmax : s.pool.maxSize = maxSize := congrArg BufferPool.maxSize hlimits
  have hcapacity : s.pool.capacity = capacity := congrArg BufferPool.capacity hlimits
  have hretained : s.pool.maxRetained = maxRetained := congrArg BufferPool.maxRetained hlimits
  refine ⟨hmax ▸ hsound.idle.size_le, ?_, ?_, ?_, ?_⟩
  · intro buffer hin
    obtain ⟨hleast, hmost⟩ := hsound.idle.room buffer hin
    rw [hcapacity] at hleast hmost
    rw [hretained] at hmost
    exact ⟨hsound.idle.clean buffer hin, hleast, hmost⟩
  · exact ⟨s.pool.get.1, rfl, hsound.idle.clean.content_get, s.pool.size_get⟩
  · intro i buffer hout
    rw [Lending.step_drop hout, BufferPool.size_giveBack_eq_ite, hretained, hmax]
  · intro registry compiler w t vars p
    rw [Press.buffers_render_eq, hsound.idle.size_giveBack_get, hretained, hmax]

end QueryPress
