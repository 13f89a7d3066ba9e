/-!
# Text/Reader — readers of a text that try one alternative after the other

A `Reader` takes what it can from the front of a text and leaves the rest, or refuses and leaves the
text alone. `p <|> q` tries `q` only where `p` refuses, and `many` takes as long as it can: ordered
choice, no second thoughts. Every reader here ends on every text, since `many` reads at most once
per character.
-/

namespace QueryPress

/-- A reader of the front of a text. -/
abbrev Reader := StateT (List Char) Option

namespace Reader

variable {α β : Type}

/-- One character of a class. -/
def charWhere (p : Char → Bool) : Reader Char
  | c :: r => if p c then some (c, r) else none
  | [] => none

/-- A given text. -/
def word (t : String) : Reader Unit := fun s =>
  if t.toList.isPrefixOf s then some ((), s.drop t.toList.length) else none

/-- The longest run of characters of a class. -/
def run (p : Char → Bool) : Reader (List Char) := fun s => some (s.takeWhile p, s.dropWhile p)

/-- The longest run of characters of a class, of which there must be one. -/
def run1 (p : Char → Bool) : Reader (List Char) := fun s =>
  if (s.takeWhile p).isEmpty then none else some (s.takeWhile p, s.dropWhile p)

/-- The end of the text. -/
def finish : Reader Unit
  | [] => some ((), [])
  | _ :: _ => none

/-- Succeeds, and takes nothing, where `p` would succeed. -/
def ahead (p : Reader α) : Reader Unit := fun s => (p s).map fun _ => ((), s)

/-- Succeeds, and takes nothing, where `p` would refuse. -/
def notAhead (p : Reader α) : Reader Unit := fun s =>
  match p s with
  | none => some ((), s)
  | some _ => none

/-- The answer of `p`, or nothing where it refuses. -/
def maybe (p : Reader α) : Reader (Option α) := fun s =>
  match p s with
  | none => some (none, s)
  | some (a, r) => some (some a, r)

/-- Whether `p` was there. -/
def given (p : Reader α) : Reader Bool := fun s =>
  match p s with
  | none => some (false, s)
  | some (_, r) => some (true, r)

/-- `p` as often as it succeeds, and at most `n` times. -/
def manyUpTo (p : Reader α) : Nat → Reader (List α)
  | 0, s => some ([], s)
  | n + 1, s =>
    match p s with
    | none => some ([], s)
    | some (a, r) => (manyUpTo p n r).map fun (as, r') => (a :: as, r')

/-- `p` as often as it succeeds: a reader that takes something each time is never stopped early. -/
def many (p : Reader α) : Reader (List α) := fun s => manyUpTo p s.length s

/-- `p` at least once. -/
def many1 (p : Reader α) : Reader (List α) := do
  let a ← p
  let as ← many p
  return a :: as

/-- `p` at least once, with `sep` in between. -/
def sepBy1 (p : Reader α) (sep : Reader β) : Reader (List α) := do
  let a ← p
  let as ← many (do let _ ← sep; p)
  return a :: as

/-- The characters before the first place where `stop` succeeds; refuses where there is none. -/
def before (stop : Reader β) : Reader (List Char)
  | [] => (stop []).map fun _ => ([], [])
  | c :: r =>
    match stop (c :: r) with
    | some _ => some ([], c :: r)
    | none => (before stop r).map fun (cs, r') => (c :: cs, r')

/-- The answers of `p` along a text: where it succeeds the search goes on behind what it took, and
elsewhere with the next character. The first `skip` characters are passed over. -/
def scanFrom (p : Reader α) : (skip : Nat) → List Char → List α
  | _, [] => []
  | k + 1, _ :: r => scanFrom p k r
  | 0, c :: r =>
    match p (c :: r) with
    | some (a, rest) => a :: scanFrom p (r.length - rest.length) r
    | none => scanFrom p 0 r

/-- The answers of `p` along a text. -/
def scan (p : Reader α) (s : List Char) : List α := scanFrom p 0 s

/-- The text without what `p` takes along it; the first `skip` characters are left out too. -/
def withoutFrom (p : Reader α) : (skip : Nat) → List Char → List Char
  | _, [] => []
  | k + 1, _ :: r => withoutFrom p k r
  | 0, c :: r =>
    match p (c :: r) with
    | some (_, rest) => withoutFrom p (r.length - rest.length) r
    | none => c :: withoutFrom p 0 r

/-- The text without what `p` takes along it. -/
def without (p : Reader α) (s : List Char) : List Char := withoutFrom p 0 s

/-- White space between tokens. -/
def isGap (c : Char) : Bool := c == ' ' || c == '\t' || c == '\n' || c == '\r'

/-- White space between tokens, as much as there is. -/
def gap : Reader Unit := fun s => some ((), s.dropWhile isGap)

/-- White space between tokens, of which there must be some. -/
def gap1 : Reader Unit := do
  let _ ← run1 isGap

/-- A reader and the white space behind it. -/
def token (p : Reader α) : Reader α := do
  let a ← p
  gap
  return a

/-- A given text and the white space behind it. -/
def symbol (t : String) : Reader Unit := token (word t)

/-- The answer of a reader that has to take the whole text. -/
def whole? (p : Reader α) (s : List Char) : Option α :=
  match p s with
  | some (a, []) => some a
  | _ => none

@[simp] theorem manyUpTo_zero (p : Reader α) (s : List Char) : manyUpTo p 0 s = some ([], s) := rfl

/-- **`many` never refuses** — where `p` refuses at once its answer is the empty list. -/
theorem manyUpTo_isSome (p : Reader α) : ∀ (n : Nat) (s : List Char), (manyUpTo p n s).isSome
  | 0, _ => rfl
  | n + 1, s => by
    simp only [manyUpTo]
    split
    · rfl
    · simpa using manyUpTo_isSome p n _

/-- What `before` passes over and what it leaves make up the text. -/
theorem before_append (stop : Reader β) :
    ∀ {s cs r : List Char}, before stop s = some (cs, r) → cs ++ r = s
  | [], cs, r, h => by
    simp only [before, Option.map_eq_some_iff, Prod.mk.injEq] at h
    obtain ⟨_, _, rfl, rfl⟩ := h
    rfl
  | c :: s, cs, r, h => by
    simp only [before] at h
    split at h
    · simp only [Option.some.injEq, Prod.mk.injEq] at h
      obtain ⟨rfl, rfl⟩ := h
      rfl
    · simp only [Option.map_eq_some_iff, Prod.mk.injEq, Prod.exists] at h
      obtain ⟨as, r', h', rfl, rfl⟩ := h
      simp [before_append stop h']

end Reader

end QueryPress
