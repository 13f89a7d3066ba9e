import QueryPress.Text.Utf16

/-!
# Text/Utf8 — the text of any bytes

`decodeLossy` reads bytes one at a time. A character that has begun says how many bytes it still
needs and between which bounds the next one lies; a byte that cannot go on closes the character as
one replacement character and is then read afresh.
-/

namespace QueryPress.Text

/-- A character that has begun: its bits so far, how many bytes are missing, and the bounds of the
next one. -/
structure Begun where
  bits : Nat
  missing : Nat
  low : Nat := 0x80
  high : Nat := 0xBF

/-- A byte where a character begins. -/
def beginByte (b : Nat) : List Char × Option Begun :=
  if b < 0x80 then ([Char.ofNat b], none)
  else if 0xC2 ≤ b && b ≤ 0xDF then ([], some { bits := b - 0xC0, missing := 1 })
  else if b = 0xE0 then ([], some { bits := 0, missing := 2, low := 0xA0 })
  else if b = 0xED then ([], some { bits := 0xD, missing := 2, high := 0x9F })
  else if 0xE1 ≤ b && b ≤ 0xEF then ([], some { bits := b - 0xE0, missing := 2 })
  else if b = 0xF0 then ([], some { bits := 0, missing := 3, low := 0x90 })
  else if b = 0xF4 then ([], some { bits := 4, missing := 3, high := 0x8F })
  else if 0xF1 ≤ b && b ≤ 0xF3 then ([], some { bits := b - 0xF0, missing := 3 })
  else ([replacement], none)

/-- A byte after what has begun: the characters that it settles, and what is open behind it. -/
def stepByte : Option Begun → Nat → List Char × Option Begun
  | none, b => beginByte b
  | some c, b =>
    if c.low ≤ b && b ≤ c.high then
      let bits := c.bits * 64 + (b - 0x80)
      if c.missing ≤ 1 then ([Char.ofNat bits], none)
      else ([], some { bits, missing := c.missing - 1 })
    else
      let (settled, begun) := beginByte b
      (replacement :: settled, begun)

/-- The text of the bytes behind what has begun. -/
def decodeFrom : Option Begun → List UInt8 → List Char
  | none, [] => []
  | some _, [] => [replacement]
  | begun, b :: bs =>
    let (settled, begun) := stepByte begun b.toNat
    settled ++ decodeFrom begun bs

/-- **The text of any bytes** — every longest piece that begins a character but does not end it is
one replacement character, and so is every byte that begins none. -/
def decodeLossy (bytes : List UInt8) : String := String.ofList (decodeFrom none bytes)

/-- Bytes below 128 are their own text. -/
theorem decodeFrom_ascii {bs : List UInt8} (h : ∀ b ∈ bs, b.toNat < 0x80) :
    decodeFrom none bs = bs.map fun b => Char.ofNat b.toNat := by
  induction bs with
  | nil => rfl
  | cons b bs ih =>
    have hb := h b (by simp)
    simp [decodeFrom, stepByte, beginByte, hb, ih fun c hc => h c (by simp [hc])]

end QueryPress.Text
