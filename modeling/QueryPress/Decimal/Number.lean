import QueryPress.Decimal.Shortest

/-!
# Decimal/Number — whole numbers and doubles

A `Number` is a whole number that fits a 64-bit word, with or without a sign, or a finite double,
which is kept by its bits so that numbers can be compared and reasoned about. Arithmetic stays whole
while both sides and the result fit one kind of word, and becomes arithmetic of doubles otherwise.
-/

namespace QueryPress

/-- A whole number or a double. -/
inductive Number
  | whole (n : Int)
  | double (bits : UInt64)
  deriving DecidableEq, Repr

namespace Number

/-- The number as a double. -/
def toFloat : Number → Float
  | .whole n => if 0 ≤ n then Float.ofNat n.toNat else -(Float.ofNat (-n).toNat)
  | .double bits => Float.ofBits bits

/-- A double as a number, if it is finite. -/
def ofFloat? (x : Float) : Option Number := if x.isFinite then some (.double x.toBits) else none

/-- The whole numbers of a signed word. -/
def isSigned (n : Int) : Bool := -0x8000000000000000 ≤ n && n < 0x8000000000000000

/-- The whole numbers of a word without a sign. -/
def isUnsigned (n : Int) : Bool := 0 ≤ n && n < 0x10000000000000000

/-- Whether a number differs from zero. -/
def isNonzero : Number → Bool
  | .whole n => n != 0
  | .double bits => Float.ofBits bits != 0

/-- The bits of a double without its sign. -/
def magnitude (bits : UInt64) : UInt64 := bits &&& 0x7fffffffffffffff

/-- The sign of a double. -/
def isNegative (bits : UInt64) : Bool := bits >>> 63 == 1

/-- **The plain text of a number** — the pieces it is written in: a sign, then the digits, without a
power of ten and without a point where there is nothing behind it. -/
def pieces : Number → List String
  | .whole n => if n < 0 then ["-", toString n.natAbs] else [toString n.natAbs]
  | .double bits =>
    let digits :=
      if magnitude bits = 0 then ["0"]
      else (Decimal.shortest (magnitude bits)).positionalPieces.map String.ofList
    if isNegative bits then "-" :: digits else digits

/-- Positional up to sixteen digits before the point and four zeros behind it, else with a power of
ten; always with a point or a power, so that a double reads back as a double. -/
def doubleText (s : Decimal.Scientific) : List Char :=
  let length := (Decimal.digitsOf s.digits).length
  let point := (length : Int) + s.exponent
  if 0 ≤ s.exponent && point ≤ 16 then s.positional ++ ['.', '0']
  else if -5 < point && point ≤ 16 then s.positional
  else s.withPower

/-- **The text of a number in a data file.** -/
def literal : Number → String
  | .whole n => toString n
  | .double bits =>
    let text :=
      if magnitude bits = 0 then "0.0"
      else String.ofList (doubleText (Decimal.shortest (magnitude bits)))
    if isNegative bits then "-" ++ text else text

/-- Reads `digits · 10^exponent`, rounding to the nearest double. -/
def ofScientific? (negative : Bool) (digits : Nat) (exponent : Int) : Option Number :=
  let x :=
    if 0 ≤ exponent then Float.ofScientific digits false exponent.toNat
    else Float.ofScientific digits true (-exponent).toNat
  ofFloat? (if negative then -x else x)

/-- A power of ten as a double. -/
def tenTo (n : Nat) : Float := Float.ofScientific 1 false n

/-- **A double scaled by a power of ten** — by one multiplication or division, or by two divisions
where one is not enough; nothing if the result is too large. A word of 64 bits that is divided by
more than `10^616` is zero. -/
def scaled? (x : Float) (exponent : Int) : Option Float :=
  if 308 < exponent then if x == 0.0 then some x else none
  else if 0 ≤ exponent then
    let y := x * tenTo exponent.toNat
    if y.isInf then none else some y
  else if -308 ≤ exponent then some (x / tenTo (-exponent).toNat)
  else if -616 ≤ exponent then some (x / tenTo 308 / tenTo (-exponent - 308).toNat)
  else some 0.0

/-- A whole number as the word it fits, else as a double. -/
def ofInt? (n : Int) : Option Number :=
  if isSigned n || isUnsigned n then some (.whole n) else ofScientific? (n < 0) n.natAbs 0

end Number

end QueryPress
