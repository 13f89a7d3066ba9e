/-!
# Text/Blank — white space, and texts without it at their ends

`isSpace` is the Unicode property `White_Space`, which decides what counts as padding around a name,
around a marker line and between the words of a tag.
-/

namespace QueryPress.Text

/-- The characters with the Unicode property `White_Space`. -/
def isSpace (c : Char) : Bool :=
  let n := c.toNat
  (0x09 ≤ n && n ≤ 0x0D) || n == 0x20 || n == 0x85 || n == 0xA0 || n == 0x1680
    || (0x2000 ≤ n && n ≤ 0x200A) || n == 0x2028 || n == 0x2029 || n == 0x202F || n == 0x205F
    || n == 0x3000

/-- The text from its first character that fails `p` on. -/
def dropStart (p : Char → Bool) (s : List Char) : List Char := s.dropWhile p

/-- The text up to its last character that fails `p`. -/
def dropEnd (p : Char → Bool) (s : List Char) : List Char := (s.reverse.dropWhile p).reverse

/-- The text without the white space it begins with. -/
def trimStart (s : List Char) : List Char := dropStart isSpace s

/-- The text without the white space it ends with. -/
def trimEnd (s : List Char) : List Char := dropEnd isSpace s

/-- The text without the white space at either end. -/
def trim (s : List Char) : List Char := trimEnd (trimStart s)

/-- `trim` on strings. -/
def trimmed (s : String) : String := String.ofList (trim s.toList)

/-- **Core's white space is white space here too** — the property only adds characters. -/
theorem isSpace_of_isWhitespace {c : Char} (h : c.isWhitespace = true) : isSpace c = true := by
  simp only [Char.isWhitespace, Bool.or_eq_true, decide_eq_true_eq] at h
  rcases h with ((rfl | rfl) | rfl) | rfl <;> rfl

@[simp] theorem dropEnd_nil (p : Char → Bool) : dropEnd p [] = [] := rfl

@[simp] theorem trim_nil : trim [] = [] := rfl

end QueryPress.Text
