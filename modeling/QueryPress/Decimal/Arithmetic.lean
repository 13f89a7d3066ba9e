import QueryPress.Decimal.Number

/-!
# Decimal/Arithmetic — sums, products and remainders of numbers

Whole numbers stay whole: in a signed word if both fit one, else in a word without a sign if both
fit one, and a result that leaves the word is an overflow. All other pairs are computed as doubles,
where a result that is not finite is no number.
-/

namespace QueryPress

/-- The operations on numbers. -/
inductive Operation
  | add
  | times
  | modulo
  deriving DecidableEq, Repr

/-- Why an operation on numbers failed. -/
inductive ArithmeticError
  | overflow
  | moduloByZero
  deriving DecidableEq, Repr

namespace Number

/-- An operation on whole numbers; a remainder has the sign of the dividend. -/
def onInts (op : Operation) (a b : Int) : Int :=
  match op with
  | .add => a + b
  | .times => a * b
  | .modulo => a.tmod b

/-- A finite double as `mantissa · 2 ^ exponent`, without its sign. -/
def parts (x : Float) : Nat × Int :=
  let b := Decimal.Binary.ofBits (magnitude x.toBits)
  (b.mantissa, b.exponent)

/-- The remainder of finite doubles, with the sign of the dividend: it is exact, since it is a
multiple of the finer of the two steps. -/
def floatModulo (x y : Float) : Float :=
  let (m, e) := parts x
  let (n, f) := parts y
  let step := min e f
  let r := (m * Nat.pow 2 (e - step).toNat) % (n * Nat.pow 2 (f - step).toNat)
  let size :=
    if n = 0 then 0.0 / 0.0
    else if r = 0 then 0.0
    else (Float.ofNat r).scaleB step
  if isNegative x.toBits then -size else size

/-- An operation on doubles. -/
def onFloats (op : Operation) (x y : Float) : Float :=
  match op with
  | .add => x + y
  | .times => x * y
  | .modulo => floatModulo x y

/-- An operation on whole numbers of one kind of word. -/
def onWords (op : Operation) (fits : Int → Bool) (a b : Int) :
    Except ArithmeticError (Option Number) :=
  if op = .modulo && b = 0 then .error .moduloByZero
  else if fits (onInts op a b) then .ok (some (.whole (onInts op a b)))
  else .error .overflow

/-- **The result of an operation**, where there is a number to give. -/
def combine (op : Operation) (a b : Number) : Except ArithmeticError (Option Number) :=
  let asFloats := .ok (ofFloat? (onFloats op a.toFloat b.toFloat))
  match a, b with
  | .whole m, .whole n =>
    if isSigned m && isSigned n then onWords op isSigned m n
    else if isUnsigned m && isUnsigned n then onWords op isUnsigned m n
    else asFloats
  | _, _ => asFloats

end Number

end QueryPress
