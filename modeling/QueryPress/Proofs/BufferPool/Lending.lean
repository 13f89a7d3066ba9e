import QueryPress.BufferPool

/-!
# Proofs/BufferPool/Lending — buffers on loan

Buffers are taken from a pool, written to, and given back in any order; in between the idle ones are let
go, or new ones added (`Lending.Use`).  Whatever is done, the idle buffers are not too many, they are
empty, and each has the room of a new one without having outgrown the pool (`Lending.IsSound.run`).

A buffer on loan is not empty and may have any room above that of a new one.  So a pool gets its order back
where a buffer comes back: it is emptied, which leaves its room, and refused if it has outgrown the limit.
Only new buffers may be larger than the limit, which is why the larger of the two bounds the idle ones.
-/

namespace QueryPress

namespace BufferPool

variable {pool : BufferPool}

/-! ## Buffers that are empty -/

/-- Every idle buffer is empty. -/
def IsClean (pool : BufferPool) : Prop := ∀ buffer ∈ pool.idle, buffer.content = .empty

theorem isClean_of_idle_eq_nil (h : pool.idle = []) : pool.IsClean := by
  intro buffer hin
  rw [h] at hin
  cases hin

/-- A buffer is handed out from the top of the stack, or made. -/
theorem fst_get (pool : BufferPool) :
    pool.get.1 ∈ pool.idle ∨ pool.get.1 = { capacity := pool.capacity } := by
  unfold get
  split
  · exact .inr rfl
  · rename_i buffer idle hidle
    exact .inl (hidle ▸ List.mem_cons_self)

theorem snd_get (pool : BufferPool) : pool.get.2 = { pool with idle := pool.idle.tail } := by
  unfold get
  split
  · rename_i hidle
    rw [hidle, List.tail_nil, ← hidle]
  · rename_i buffer idle hidle
    rw [hidle, List.tail_cons]

theorem IsClean.content_get (h : pool.IsClean) : pool.get.1.content = .empty := by
  rcases pool.fst_get with hidle | hnew
  · exact h _ hidle
  · rw [hnew]

theorem IsClean.get (h : pool.IsClean) : pool.get.2.IsClean := by
  intro buffer hin
  rw [snd_get] at hin
  exact h buffer (List.mem_of_mem_tail hin)

theorem IsClean.giveBack (h : pool.IsClean) (buffer : Buffer) : (pool.giveBack buffer).IsClean := by
  unfold BufferPool.giveBack
  split
  · exact List.forall_mem_cons.2 ⟨rfl, h⟩
  · exact h

theorem IsClean.warm (h : pool.IsClean) (n : Nat) : (pool.warm n).IsClean := by
  intro buffer hin
  rcases List.mem_append.1 hin with hin | hin
  · rw [List.eq_of_mem_replicate hin]
  · exact h buffer hin

/-! ## Buffers in order -/

/-- **The idle buffers are in order** — they are not too many, they are empty, and each has the room of a
new one, at the least, without having outgrown the pool. -/
structure InOrder (pool : BufferPool) : Prop where
  size_le : pool.size ≤ pool.maxSize
  clean : pool.IsClean
  room : ∀ buffer ∈ pool.idle,
    pool.capacity ≤ buffer.capacity ∧ buffer.capacity ≤ max pool.capacity pool.maxRetained

theorem inOrder_of_idle_eq_nil (h : pool.idle = []) : pool.InOrder where
  size_le := by rw [size, h]; exact Nat.zero_le _
  clean := isClean_of_idle_eq_nil h
  room := by
    intro buffer hin
    rw [h] at hin
    cases hin

/-- A buffer that is handed out has the room of a new one. -/
theorem InOrder.capacity_get (h : pool.InOrder) : pool.capacity ≤ pool.get.1.capacity := by
  rcases pool.fst_get with hidle | hnew
  · exact (h.room _ hidle).1
  · exact hnew ▸ Nat.le_refl _

theorem InOrder.get (h : pool.InOrder) : pool.get.2.InOrder where
  size_le := by
    have hsize := h.size_le
    rw [size_get, snd_get]
    exact Nat.le_trans (Nat.sub_le _ 1) hsize
  clean := h.clean.get
  room := by
    rw [snd_get]
    exact fun buffer hin => h.room buffer (List.mem_of_mem_tail hin)

/-- **A pool in order takes back** any buffer that has the room of a new one. -/
theorem InOrder.giveBack (h : pool.InOrder) {buffer : Buffer} (hroom : pool.capacity ≤ buffer.capacity) :
    (pool.giveBack buffer).InOrder := by
  unfold BufferPool.giveBack
  split
  · rename_i hkeeps
    obtain ⟨hlimit, hplace⟩ : buffer.capacity ≤ pool.maxRetained ∧ pool.size < pool.maxSize := by
      simpa [keeps] using hkeeps
    exact ⟨hplace, List.forall_mem_cons.2 ⟨rfl, h.clean⟩,
      List.forall_mem_cons.2 ⟨⟨hroom, Nat.le_trans hlimit (Nat.le_max_right _ _)⟩, h.room⟩⟩
  · exact h

theorem InOrder.warm (h : pool.InOrder) (n : Nat) : (pool.warm n).InOrder where
  size_le := by
    have hsize := h.size_le
    rw [size_warm]
    simp only [BufferPool.warm]
    omega
  clean := h.clean.warm n
  room := by
    intro buffer hin
    rcases List.mem_append.1 hin with hin | hin
    · rw [List.eq_of_mem_replicate hin]
      exact ⟨Nat.le_refl _, Nat.le_max_left _ _⟩
    · exact h.room buffer hin

/-- **A buffer that comes back** adds one to the idle ones, if it is kept. -/
theorem size_giveBack_eq_ite (pool : BufferPool) (buffer : Buffer) : (pool.giveBack buffer).size =
    if buffer.capacity ≤ pool.maxRetained ∧ pool.size < pool.maxSize then pool.size + 1
    else pool.size := by
  rw [size_giveBack, keeps, ← Bool.decide_and]
  split
  · rename_i h
    rw [decide_eq_true h, Bool.toNat_true]
  · rename_i h
    rw [decide_eq_false h, Bool.toNat_false, Nat.add_zero]

/-- **To take a buffer and give one back** leaves as many as there have been, or one where there has been
none, unless the buffer has outgrown the pool. -/
theorem InOrder.size_giveBack_get (h : pool.InOrder) (buffer : Buffer) :
    (pool.get.2.giveBack buffer).size =
      if buffer.capacity ≤ pool.maxRetained then
        if pool.size = 0 then min 1 pool.maxSize else pool.size
      else pool.size - 1 := by
  have hsize := h.size_le
  have hmax : pool.get.2.maxSize = pool.maxSize := by rw [snd_get]
  have hretained : pool.get.2.maxRetained = pool.maxRetained := by rw [snd_get]
  rw [size_giveBack_eq_ite, size_get, hmax, hretained]
  by_cases hkept : buffer.capacity ≤ pool.maxRetained
  · rw [if_pos hkept]
    split <;> split <;> omega
  · rw [if_neg hkept, if_neg fun h => hkept h.1]

/-- A pool under the limits of another. -/
def SameLimits (pool pool' : BufferPool) : Prop := pool' = { pool with idle := pool'.idle }

theorem sameLimits_get (pool : BufferPool) : pool.SameLimits pool.get.2 := by
  rw [snd_get]
  rfl

theorem sameLimits_giveBack (pool : BufferPool) (buffer : Buffer) :
    pool.SameLimits (pool.giveBack buffer) := by
  unfold giveBack
  split <;> rfl

theorem SameLimits.trans {pool' pool'' : BufferPool} (h : pool.SameLimits pool')
    (h' : pool'.SameLimits pool'') : pool.SameLimits pool'' := by
  rw [SameLimits, h', h]

end BufferPool

/-! ## Runs -/

/-- A pool, and the buffers on loan. -/
structure Lending where
  pool : BufferPool
  out : List Buffer := []

namespace Lending

/-- **What is done with a pool** — a buffer is taken, bytes are written to one on loan, one on loan is
given back, the idle ones are let go, or new ones added. -/
inductive Use
  | get
  | write (i : Nat) (bytes : ByteArray)
  | drop (i : Nat)
  | clear
  | warm (n : Nat)

/-- One use.  Where there is no buffer of that number on loan, nothing is done. -/
def step (s : Lending) : Use → Lending
  | .get => { pool := s.pool.get.2, out := s.out ++ [s.pool.get.1] }
  | .write i bytes => { s with out := s.out.modify i (·.append bytes) }
  | .drop i =>
    match s.out[i]? with
    | none => s
    | some buffer => { pool := s.pool.giveBack buffer, out := s.out.eraseIdx i }
  | .clear => { s with pool := s.pool.clear }
  | .warm n => { s with pool := s.pool.warm n }

/-- One use after the other. -/
def run (s : Lending) (uses : List Use) : Lending := uses.foldl step s

variable {s : Lending}

theorem step_drop {i : Nat} {buffer : Buffer} (h : s.out[i]? = some buffer) :
    s.step (.drop i) = { pool := s.pool.giveBack buffer, out := s.out.eraseIdx i } := by
  simp only [step, h]

theorem run_cons (s : Lending) (u : Use) (uses : List Use) : s.run (u :: uses) = (s.step u).run uses := rfl

theorem run_append (s : Lending) (uses more : List Use) : s.run (uses ++ more) = (s.run uses).run more :=
  List.foldl_append

/-- **The limits stay**, whatever is done. -/
theorem sameLimits_step (s : Lending) : ∀ u : Use, s.pool.SameLimits (s.step u).pool
  | .get => s.pool.sameLimits_get
  | .write _ _ | .clear | .warm _ => rfl
  | .drop i => by
    simp only [step]
    split
    · rfl
    · exact s.pool.sameLimits_giveBack _

theorem sameLimits_run (uses : List Use) (s : Lending) : s.pool.SameLimits (s.run uses).pool := by
  induction uses generalizing s with
  | nil => rfl
  | cons u uses ih => exact (s.sameLimits_step u).trans (ih (s.step u))

/-- **Lending in order** — the idle buffers are, and each buffer on loan has the room of a new one. -/
structure IsSound (s : Lending) : Prop where
  idle : s.pool.InOrder
  out : ∀ buffer ∈ s.out, s.pool.capacity ≤ buffer.capacity

/-- Writing does not take room away. -/
theorem IsSound.write (h : s.IsSound) (i : Nat) (bytes : ByteArray) :
    (s.step (.write i bytes)).IsSound where
  idle := h.idle
  out := by
    intro buffer hin
    obtain ⟨j, hj⟩ := List.mem_iff_getElem?.1 hin
    simp only [step, List.getElem?_modify] at hj
    obtain ⟨before, hbefore, heq⟩ := Option.map_eq_some_iff.1 hj
    have hroom := h.out before (List.mem_of_getElem? hbefore)
    split at heq
    · subst heq
      exact Nat.le_trans hroom (Buffer.le_grown_left _ _)
    · subst heq
      exact hroom

/-- **Whatever is done, lending stays in order.** -/
theorem IsSound.step (h : s.IsSound) (u : Use) : (s.step u).IsSound := by
  have hlimits := s.sameLimits_step u
  have hcapacity : (s.step u).pool.capacity = s.pool.capacity := by rw [hlimits]
  cases u with
  | get =>
    refine ⟨h.idle.get, ?_⟩
    rw [hcapacity]
    exact List.forall_mem_append.2 ⟨h.out, List.forall_mem_singleton.2 h.idle.capacity_get⟩
  | write i bytes => exact h.write i bytes
  | drop i =>
    cases hout : s.out[i]? with
    | none =>
      simp only [Lending.step, hout]
      exact h
    | some buffer =>
      rw [step_drop hout] at hcapacity ⊢
      refine ⟨h.idle.giveBack (h.out buffer (List.mem_of_getElem? hout)), ?_⟩
      rw [hcapacity]
      exact fun b hin => h.out b (List.mem_of_mem_eraseIdx hin)
  | clear => exact ⟨BufferPool.inOrder_of_idle_eq_nil rfl, h.out⟩
  | warm n => exact ⟨h.idle.warm n, h.out⟩

/-- **Every run keeps lending in order.** -/
theorem IsSound.run (h : s.IsSound) (uses : List Use) : (s.run uses).IsSound := by
  induction uses generalizing s with
  | nil => exact h
  | cons u uses ih => exact ih (h.step u)

/-- Nothing is on loan from a pool without buffers. -/
theorem isSound_of_idle_eq_nil {pool : BufferPool} (h : pool.idle = []) : IsSound { pool } :=
  ⟨BufferPool.inOrder_of_idle_eq_nil h, fun _ hin => nomatch hin⟩

/-! ## One loan -/

/-- Writes to the buffer that was taken last. -/
theorem run_writes_last (pool : BufferPool) (out : List Buffer) (buffer : Buffer) :
    ∀ pieces : List ByteArray,
      run { pool, out := out ++ [buffer] } (pieces.map (.write out.length)) =
        { pool, out := out ++ [pieces.foldl Buffer.append buffer] }
  | [] => rfl
  | piece :: pieces => by
    have hmodify : (out ++ [buffer]).modify out.length (·.append piece) = out ++ [buffer.append piece] :=
      List.modifyTailIdx_add _ 0 out [buffer]
    rw [List.map_cons, run_cons, List.foldl_cons, ← run_writes_last pool out (buffer.append piece) pieces,
      step, hmodify]

/-- **A loan** — a buffer is taken, written to and given back, and the other loans stay as they are. -/
theorem run_loan (s : Lending) (pieces : List ByteArray) :
    s.run (.get :: pieces.map (.write s.out.length) ++ [.drop s.out.length]) =
      { s with pool := s.pool.get.2.giveBack (pieces.foldl Buffer.append s.pool.get.1) } := by
  have hwritten : s.run (.get :: pieces.map (.write s.out.length)) =
      { pool := s.pool.get.2, out := s.out ++ [pieces.foldl Buffer.append s.pool.get.1] } :=
    run_writes_last s.pool.get.2 s.out s.pool.get.1 pieces
  rw [run_append, hwritten]
  refine (step_drop (List.getElem?_concat_length ..)).trans ?_
  rw [List.eraseIdx_append_of_length_le (Nat.le_refl _), Nat.sub_self, List.eraseIdx_cons_zero, List.append_nil]

end Lending

end QueryPress
