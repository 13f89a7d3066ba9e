import QueryPress.Text.Utf8

/-!
# BufferPool — output buffers that are used again

A buffer grows by doubling and keeps its capacity when it is emptied. The pool keeps at most
`maxSize` idle buffers, the one given back last on top, and refuses a buffer that has grown past
`maxRetained`.
-/

namespace QueryPress

/-- Bytes, and the room there is for them before the buffer has to grow. -/
structure Buffer where
  capacity : Nat
  content : ByteArray := .empty

namespace Buffer

/-- The number of bytes. -/
def size (b : Buffer) : Nat := b.content.size

/-- **The room after an append** — as it was if the bytes fit, else twice as much, or what is needed
if that is more, and never less than eight. -/
def grown (capacity needed : Nat) : Nat :=
  if needed ≤ capacity then capacity else max (2 * capacity) (max needed 8)

/-- Appends bytes, all at once. -/
def append (b : Buffer) (bytes : ByteArray) : Buffer where
  capacity := grown b.capacity (b.size + bytes.size)
  content := b.content ++ bytes

/-- Appends a text. -/
def appendText (b : Buffer) (text : String) : Buffer := b.append text.toUTF8

/-- Takes the bytes out and keeps the room. -/
def emptied (b : Buffer) : Buffer := { b with content := .empty }

/-- The last `n` bytes as a text. -/
def tail (b : Buffer) (n : Nat) : String :=
  Text.decodeLossy (b.content.toList.drop (b.size - n))

@[simp] theorem size_emptied (b : Buffer) : b.emptied.size = 0 := rfl

@[simp] theorem capacity_emptied (b : Buffer) : b.emptied.capacity = b.capacity := rfl

theorem le_grown_left (capacity needed : Nat) : capacity ≤ grown capacity needed := by
  unfold grown
  split <;> omega

end Buffer

/-- Idle buffers, the top of the stack first, with the limits they are kept under. -/
structure BufferPool where
  maxSize : Nat
  capacity : Nat
  maxRetained : Nat
  idle : List Buffer := []

namespace BufferPool

/-- The number of idle buffers. -/
def size (p : BufferPool) : Nat := p.idle.length

/-- Hands out an empty buffer: the top of the stack, or a new one. -/
def get (p : BufferPool) : Buffer × BufferPool :=
  match p.idle with
  | [] => ({ capacity := p.capacity }, p)
  | b :: idle => (b, { p with idle })

/-- Whether a buffer that comes back is kept. -/
def keeps (p : BufferPool) (b : Buffer) : Bool := b.capacity ≤ p.maxRetained && p.size < p.maxSize

/-- Takes a buffer back: it is emptied and kept, unless it has grown too large or there is no place
for it. -/
def giveBack (p : BufferPool) (b : Buffer) : BufferPool :=
  if p.keeps b then { p with idle := b.emptied :: p.idle } else p

/-- Lets go of all idle buffers. -/
def clear (p : BufferPool) : BufferPool := { p with idle := [] }

/-- Adds up to `n` new idle buffers. -/
def warm (p : BufferPool) (n : Nat) : BufferPool :=
  let added := min (p.maxSize - p.size) n
  { p with idle := List.replicate added { capacity := p.capacity } ++ p.idle }

@[simp] theorem size_clear (p : BufferPool) : p.clear.size = 0 := rfl

@[simp] theorem size_get (p : BufferPool) : p.get.2.size = p.size - 1 := by
  unfold get size
  split <;> simp_all

@[simp] theorem size_giveBack (p : BufferPool) (b : Buffer) :
    (p.giveBack b).size = p.size + (p.keeps b).toNat := by
  unfold giveBack size
  split <;> simp_all

@[simp] theorem size_warm (p : BufferPool) (n : Nat) :
    (p.warm n).size = p.size + min (p.maxSize - p.size) n := by
  simp [warm, size, Nat.add_comm]

end BufferPool

end QueryPress
