/-!
# TraceId — a short stable name for a text

The name is the text's 64-bit keyed hash with one compression round per word and three at the end
(SipHash-1-3) under the zero key, over the text's bytes closed by `0xFF`, in sixteen hexadecimal
digits.
-/

namespace QueryPress

/-- The four words that hashing mixes. -/
structure HashState where
  v0 : UInt64
  v1 : UInt64
  v2 : UInt64
  v3 : UInt64

namespace HashState

/-- The word rotated to the left by `n` bits. -/
def rotate (x : UInt64) (n : UInt64) : UInt64 := (x <<< n) ||| (x >>> (64 - n))

/-- The state that the zero key starts from. -/
def start : HashState :=
  ⟨0x736f6d6570736575, 0x646f72616e646f6d, 0x6c7967656e657261, 0x7465646279746573⟩

/-- One round of mixing. -/
def round (s : HashState) : HashState :=
  let v0 := s.v0 + s.v1
  let v1 := rotate s.v1 13 ^^^ v0
  let v0 := rotate v0 32
  let v2 := s.v2 + s.v3
  let v3 := rotate s.v3 16 ^^^ v2
  let v0 := v0 + v3
  let v3 := rotate v3 21 ^^^ v0
  let v2 := v2 + v1
  let v1 := rotate v1 17 ^^^ v2
  let v2 := rotate v2 32
  ⟨v0, v1, v2, v3⟩

/-- Takes in one word. -/
def absorb (s : HashState) (word : UInt64) : HashState :=
  let s := round { s with v3 := s.v3 ^^^ word }
  { s with v0 := s.v0 ^^^ word }

/-- The hash of what was taken in. -/
def finish (s : HashState) : UInt64 :=
  let s := round (round (round { s with v2 := s.v2 ^^^ 0xff }))
  s.v0 ^^^ s.v1 ^^^ s.v2 ^^^ s.v3

/-- Bytes as one word, the first the least significant. -/
def wordOf : List UInt8 → UInt64
  | [] => 0
  | b :: bs => b.toUInt64 ||| (wordOf bs <<< 8)

/-- Takes in bytes, eight at a time; the last word ends in the number of bytes. -/
def absorbAll (length : Nat) : HashState → List UInt8 → HashState
  | s, b0 :: b1 :: b2 :: b3 :: b4 :: b5 :: b6 :: b7 :: bs =>
    absorbAll length (s.absorb (wordOf [b0, b1, b2, b3, b4, b5, b6, b7])) bs
  | s, bs => s.absorb (wordOf bs ||| (UInt64.ofNat (length % 256) <<< 56))

end HashState

/-- The hash of some bytes. -/
def hashOf (bytes : List UInt8) : UInt64 :=
  (HashState.absorbAll bytes.length .start bytes).finish

/-- A number below 16 as a lower-case hexadecimal digit. -/
def hexDigit (n : Nat) : Char := if n < 10 then Char.ofNat (48 + n) else Char.ofNat (87 + n)

/-- The last `width` hexadecimal digits of a number. -/
def hexDigits : (width : Nat) → Nat → List Char
  | 0, _ => []
  | width + 1, n => hexDigits width (n / 16) ++ [hexDigit (n % 16)]

@[simp] theorem length_hexDigits : ∀ (width n : Nat), (hexDigits width n).length = width
  | 0, _ => rfl
  | width + 1, n => by simp [hexDigits, length_hexDigits width]

/-- **The name of a text that was given without one** — equal texts have equal names. -/
def traceId (text : String) : String :=
  "inline-" ++ String.ofList (hexDigits 16 (hashOf (text.toUTF8.toList ++ [0xff])).toNat)

end QueryPress
