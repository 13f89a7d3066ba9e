/-!
# Text/Utf16 — text as 16-bit units

A character outside the basic plane is two units, a high and a low surrogate. `ofUnits` puts pairs
together again and reads a surrogate without its partner as the replacement character, so every list
of units has a text.
-/

namespace QueryPress.Text

/-- The character that stands for what cannot be decoded. -/
def replacement : Char := Char.ofNat 0xFFFD

/-- The units of one character. -/
def unitsOf (c : Char) : List Nat :=
  if c.toNat < 0x10000 then [c.toNat]
  else [0xD800 + (c.toNat - 0x10000) / 0x400, 0xDC00 + (c.toNat - 0x10000) % 0x400]

/-- The units of a text. -/
def units (s : List Char) : List Nat := s.flatMap unitsOf

/-- A unit that opens a pair. -/
def isHigh (u : Nat) : Bool := 0xD800 ≤ u && u < 0xDC00

/-- A unit that closes a pair. -/
def isLow (u : Nat) : Bool := 0xDC00 ≤ u && u < 0xE000

/-- **The text of a list of units** — a pair is one character, a unit that is no surrogate another,
and a surrogate without its partner is the replacement character. -/
def ofUnits : List Nat → List Char
  | [] => []
  | [u] => if isHigh u || isLow u then [replacement] else [Char.ofNat u]
  | u :: v :: r =>
    if isHigh u && isLow v then
      Char.ofNat (0x10000 + (u - 0xD800) * 0x400 + (v - 0xDC00)) :: ofUnits r
    else if isHigh u || isLow u then replacement :: ofUnits (v :: r)
    else Char.ofNat u :: ofUnits (v :: r)

end QueryPress.Text
