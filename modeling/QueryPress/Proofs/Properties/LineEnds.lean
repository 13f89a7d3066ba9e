import QueryPress.Proofs.Properties.Written

/-!
# Proofs/Properties/LineEnds — which ends of lines a reader of properties takes for the same

A line may end in a line feed or in a carriage return with a line feed, and the last line in nothing: it
makes no difference, whatever the line is, an entry, one that goes on in the next line, a comment or a
blank line.  A carriage return alone ends no line.  It is a character of the line, which goes on behind
it (`read_eq_of_restyled_iff`).

For the one-pass reader the two ends are one sign, and the end of the text is as good
(`OnePass.scan_restyled`).
-/

namespace QueryPress.Properties

/-- What may end a line. -/
inductive LineEnd where
  | feed
  | carriage
  | both
  deriving DecidableEq

/-- The characters of a line end. -/
def LineEnd.chars : LineEnd → List Char
  | feed => ['\n']
  | carriage => ['\r']
  | both => ['\r', '\n']

/-- **A text without carriage returns, and the same text with other line ends** — each line feed is
replaced by one of some ends, but a carriage return alone is not put in front of a line feed, of which
it would become a part.  The last line may lose its end or get one. -/
inductive Restyled (styles : List LineEnd) : List Char → List Char → Prop
  | nil : Restyled styles [] []
  | char {c : Char} {s t : List Char} : c ≠ '\n' → c ≠ '\r' → Restyled styles s t →
      Restyled styles (c :: s) (c :: t)
  | lineEnd {e : LineEnd} {s t : List Char} : e ∈ styles →
      (e = .carriage → t.head? ≠ some '\n') → Restyled styles s t →
      Restyled styles ('\n' :: s) (e.chars ++ t)
  | dropped : Restyled styles ['\n'] []
  | added {e : LineEnd} : e ∈ styles → Restyled styles [] e.chars

variable {styles : List LineEnd}

namespace OnePass

theorem signs_chars {e : LineEnd} (he : e ≠ .carriage) (r : List Char) :
    signs (e.chars ++ r) = .lineEnd :: signs r := by
  cases e with
  | feed => rfl
  | carriage => exact absurd rfl he
  | both => rfl

/-- **The ends with a line feed are one sign**, so the pass over a text is the pass over the text with
other ends. -/
theorem scan_restyled (hstyles : .carriage ∉ styles) {s t : List Char} (h : Restyled styles s t)
    (m : Mode) : scan m (signs t) = scan m (signs s) := by
  have hne : ∀ e ∈ styles, e ≠ .carriage := fun e he heq => hstyles (heq ▸ he)
  induction h generalizing m with
  | nil => rfl
  | char hn hr _ ih =>
    rw [signs_cons hn hr, signs_cons hn hr, scan, scan, ih]
  | lineEnd he _ _ ih =>
    rw [signs_chars (hne _ he), signs, scan, scan, ih]
  | dropped => exact (scan_append_lineEnd m []).symm
  | added he =>
    rw [← List.append_nil (LineEnd.chars _), signs_chars (hne _ he)]
    exact scan_append_lineEnd m []

end OnePass

/-- Two entries, whose lines are ended by the one line end in between. -/
def twoEntries (e : LineEnd) : String := String.ofList ("a=1".toList ++ (e.chars ++ "b=2".toList))

theorem restyled_twoEntries (he : LineEnd.carriage ∈ styles) :
    Restyled styles (twoEntries .feed).toList (twoEntries .carriage).toList := by
  have hchars : ∀ e, (twoEntries e).toList = 'a' :: '=' :: '1' :: (e.chars ++ ['b', '=', '2']) :=
    fun e => String.toList_ofList
  have hsecond : Restyled styles ['b', '=', '2'] ['b', '=', '2'] :=
    .char (by decide) (by decide) (.char (by decide) (by decide)
      (.char (by decide) (by decide) .nil))
  rw [hchars, hchars]
  exact .char (by decide) (by decide) (.char (by decide) (by decide)
    (.char (by decide) (by decide) (.lineEnd he (fun _ => by decide) hsecond)))

/-- Behind a carriage return alone the value goes on. -/
theorem read_twoEntries : read (twoEntries .feed) = [("a", "1"), ("b", "2")] ∧
    read (twoEntries .carriage) = [("a", "1\rb=2")] := by
  decide +kernel

/-- **How the lines of a text end makes no difference**, exactly if none ends in a carriage return alone.

If every line ends in a line feed, with a carriage return in front of it or not, and the last one in
either of these or with the text, the properties are those of the lines.  They are not for some text and
some choice of ends if a carriage return alone may be one of them. -/
theorem read_eq_of_restyled_iff (styles : List LineEnd) :
    (∀ s t : String, Restyled styles s.toList t.toList → read t = read s) ↔
      .carriage ∉ styles := by
  constructor
  · intro h he
    have hread := h _ _ (restyled_twoEntries he)
    rw [read_twoEntries.1, read_twoEntries.2] at hread
    exact absurd hread (by decide)
  · intro hstyles s t h
    rw [read, read, OnePass.entries_eq, OnePass.entries_eq, OnePass.entries, OnePass.entries,
      OnePass.scan_restyled hstyles h]

/-- **A carriage return alone is no end of a line**, though the other two ends may replace each other. -/
theorem not_read_eq_of_restyled :
    ¬ ∀ s t : String, Restyled [.feed, .carriage, .both] s.toList t.toList → read t = read s := by
  intro h
  have hread := h _ _ (restyled_twoEntries (by decide))
  rw [read_twoEntries.1, read_twoEntries.2] at hread
  exact absurd hread (by decide)

end QueryPress.Properties
