/-!
# Decimal/Shortest — the fewest decimal digits that read back as the same double

A positive double is `m · 2^q`. The reals that round to it are an interval around it, with its ends
exactly where `m` is even. `shortest` looks for the coarsest decimal grid with a point in that
interval: on each grid only the two neighbours of the value need a look, and of two that read back
the nearer one is taken. All of it is exact arithmetic on natural numbers.
-/

namespace QueryPress.Decimal

/-- A positive number `digits · 10 ^ exponent`. -/
structure Scientific where
  digits : Nat
  exponent : Int
  deriving DecidableEq, Repr

/-- A positive double `mantissa · 2 ^ exponent`; `narrow` says that the neighbour below is only half
as far away as the neighbour above. -/
structure Binary where
  mantissa : Nat
  exponent : Int
  narrow : Bool
  deriving DecidableEq, Repr

/-- What the bits of a positive finite double stand for. -/
def Binary.ofBits (bits : UInt64) : Binary :=
  let fraction : Nat := bits.toNat % 0x10000000000000
  let exponent : Nat := bits.toNat / 0x10000000000000 % 0x800
  if exponent = 0 then ⟨fraction, -1074, false⟩
  else ⟨fraction + 0x10000000000000, (exponent : Int) - 1075, fraction = 0 && 1 < exponent⟩

/-- `b ^ n` above and below a fraction bar. -/
def power (b : Nat) (n : Int) : Nat × Nat :=
  if 0 ≤ n then (b.pow n.toNat, 1) else (1, b.pow (-n).toNat)

/-- How `a · 2^p` compares with `d · 10^e`, as two natural numbers on a common scale. -/
def onScale (a : Nat) (p : Int) (d : Nat) (e : Int) : Nat × Nat :=
  let (twoUp, twoDown) := power 2 p
  let (tenUp, tenDown) := power 10 e
  (a * twoUp * tenDown, d * tenUp * twoDown)

/-- Four times the mantissa at the lower end of the interval that rounds to the double. -/
def Binary.lower (b : Binary) : Nat := if b.narrow then 4 * b.mantissa - 1 else 4 * b.mantissa - 2

/-- Four times the mantissa at the upper end of the interval that rounds to the double. -/
def Binary.upper (b : Binary) : Nat := 4 * b.mantissa + 2

/-- Whether `d · 10^e` reads back as the double. -/
def Binary.readsBack (b : Binary) (d : Nat) (e : Int) : Bool :=
  let (lo, x) := onScale b.lower (b.exponent - 2) d e
  let (hi, y) := onScale b.upper (b.exponent - 2) d e
  if b.mantissa % 2 = 0 then lo ≤ x && y ≤ hi else lo < x && y < hi

/-- The point of the grid `10^e` at or below the double. -/
def Binary.floorOn (b : Binary) (e : Int) : Nat :=
  let (x, unit) := onScale b.mantissa b.exponent 1 e
  x / unit

/-- Whether the double lies nearer to `d + 1` than to `d` on the grid `10^e`. -/
def Binary.nearerAbove (b : Binary) (d : Nat) (e : Int) : Bool :=
  let (x, y) := onScale (2 * b.mantissa) b.exponent (2 * d + 1) e
  y < x

/-- The point of the grid `10^e` that reads back as the double, the nearer of two. -/
def Binary.pointOn? (b : Binary) (e : Int) : Option Scientific :=
  let d := b.floorOn e
  let below := d != 0 && b.readsBack d e
  let above := b.readsBack (d + 1) e
  if below && above then some (if b.nearerAbove d e then ⟨d + 1, e⟩ else ⟨d, e⟩)
  else if below then some ⟨d, e⟩
  else if above then some ⟨d + 1, e⟩
  else none

/-- The first hit on the grids `10^e`, `10^(e-1)`, … -/
def Binary.search (b : Binary) (e : Int) : Nat → Scientific
  | 0 => ⟨b.floorOn e, e⟩
  | n + 1 =>
    match b.pointOn? e with
    | some s => s
    | none => b.search (e - 1) n

/-- The number without zeros at the end of its digits. -/
def Scientific.strip (s : Scientific) : Nat → Scientific
  | 0 => s
  | n + 1 =>
    if s.digits != 0 && s.digits % 10 = 0 then strip ⟨s.digits / 10, s.exponent + 1⟩ n else s

/-- **The shortest decimal that reads back as the double** — doubles lie between `10^-324` and
`10^309`, and seventeen digits always read back. -/
def shortest (bits : UInt64) : Scientific :=
  let b := Binary.ofBits bits
  let magnitude := (Int.ofNat (Nat.log2 b.mantissa) + b.exponent) * 30103 / 100000
  (b.search (magnitude + 2) 40).strip 20

/-- The decimal digits of a number. -/
def digitsOf (n : Nat) : List Char := (Nat.toDigits 10 n)

/-- Zeros. -/
def zeros (n : Nat) : List Char := List.replicate n '0'

/-- Zeros in pieces of 64, of which the last may be shorter. -/
def zeroPieces (n : Nat) : List (List Char) :=
  List.replicate ((n - 1) / 64) (zeros 64) ++ if n = 0 then [] else [zeros ((n - 1) % 64 + 1)]

/-- The pieces of positional writing: the digits at one side of the point and the zeros between them
and the point, or the digits at its two sides. -/
def Scientific.positionalPieces (s : Scientific) : List (List Char) :=
  let ds := digitsOf s.digits
  if 0 ≤ s.exponent then ds :: zeroPieces s.exponent.toNat
  else
    let places := (-s.exponent).toNat
    if places < ds.length then
      [ds.take (ds.length - places), ['.'], ds.drop (ds.length - places)]
    else ['0', '.'] :: zeroPieces (places - ds.length) ++ [ds]

/-- **Positional writing** — every digit at its place, however many zeros that takes. -/
def Scientific.positional (s : Scientific) : List Char := s.positionalPieces.flatten

/-- Writing with one digit before the point and a power of ten with its sign. -/
def Scientific.withPower (s : Scientific) : List Char :=
  let ds := digitsOf s.digits
  let power := s.exponent + (ds.length : Int) - 1
  let mantissa :=
    match ds with
    | [] => []
    | [d] => [d]
    | d :: rest => d :: '.' :: rest
  mantissa ++ 'e' :: (if power < 0 then '-' else '+') :: digitsOf power.natAbs

/-- Zeros in pieces are as many as zeros at once. -/
theorem flatten_zeroPieces (n : Nat) : (zeroPieces n).flatten = zeros n := by
  by_cases h : n = 0
  · simp [zeroPieces, zeros, h]
  · have hn : (n - 1) / 64 * 64 + ((n - 1) % 64 + 1) = n := by omega
    simp only [zeroPieces, zeros, h, if_false, List.flatten_append, List.flatten_replicate_replicate,
      List.flatten_cons, List.flatten_nil, List.append_nil, List.replicate_append_replicate, hn]

end QueryPress.Decimal
