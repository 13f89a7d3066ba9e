import QueryPress.Proofs.Template.Questions
import QueryPress.Proofs.Text.Trimming

/-!
# Proofs/Template/Marking — texts whose first line marks them for a file

A text is put in a file if its first line is the marker.  White space around the line does not count, but
white space around the marker does: so a marker line is recognized, whatever text comes behind it and
however its line ends, exactly if the marker has no white space at its ends (`classify_marked_iff`).  Any
other marker is the first line of no text (`classify_of_untrimmed`).

The file that a marked text is written to holds what comes behind the line, and so does the entry of the
template that is made of it (`isFiled_of_compileMaterialized`).
-/

namespace QueryPress

namespace Strategy

variable {marker source body lineEnd : String} {first : List Char}

/-! ## The first line -/

/-- What a line may end in. -/
def lineEnds : List String := ["\n", "\r\n"]

theorem firstLine_append (h : '\n' ∉ first) (rest : List Char) :
    firstLine (first ++ '\n' :: rest) = (first, rest) := by
  have hbefore : ∀ c ∈ first, (c != '\n') = true := fun c hc => bne_iff_ne.2 fun heq => h (heq ▸ hc)
  rw [firstLine, List.takeWhile_append_of_pos hbefore, List.dropWhile_append_of_pos hbefore]
  simp

/-- **A marker line in front of a text** is its first line, white space apart. -/
theorem firstLine_marked (hline : '\n' ∉ marker.toList) (hend : lineEnd ∈ lineEnds) (body : String) :
    Text.trimmed (String.ofList (firstLine (marker ++ lineEnd ++ body).toList).1) = Text.trimmed marker ∧
      (firstLine (marker ++ lineEnd ++ body).toList).2 = body.toList := by
  rw [String.toList_append, String.toList_append, Text.trimmed, Text.trimmed, String.toList_ofList]
  rcases List.mem_cons.1 hend with rfl | hend
  · have hfirst := firstLine_append hline body.toList
    have hend : "\n".toList = ['\n'] := rfl
    rw [hend, List.append_assoc, List.singleton_append, hfirst]
    exact ⟨rfl, rfl⟩
  · obtain rfl := List.mem_singleton.1 hend
    have hline' : '\n' ∉ marker.toList ++ ['\r'] := by simpa using hline
    have hfirst := firstLine_append hline' body.toList
    have hend : "\r\n".toList = ['\r', '\n'] := rfl
    rw [hend, List.append_assoc, List.cons_append, List.singleton_append, List.append_cons, hfirst]
    exact ⟨by rw [Text.trim_concat _ (by decide)], rfl⟩

/-! ## Which texts are marked -/

theorem classify_of_ne (h : Text.trimmed (String.ofList (firstLine source.toList).1) ≠ marker) :
    classify marker source = (ephemeral, source) := by
  rw [classify]
  simp [h]

/-- **A text whose first line is not the marker**, white space around both apart, is not marked. -/
theorem classify_of_trimmed_ne
    (h : Text.trimmed (String.ofList (firstLine source.toList).1) ≠ Text.trimmed marker) :
    classify marker source = (ephemeral, source) :=
  classify_of_ne fun heq => h (by rw [← heq, Text.trimmed_trimmed])

/-- **A marker with white space at an end** marks no text. -/
theorem classify_of_untrimmed (h : Text.trimmed marker ≠ marker) (source : String) :
    classify marker source = (ephemeral, source) :=
  classify_of_ne fun heq => h (by rw [← heq, Text.trimmed_trimmed])

/-- **A marker works exactly if it has no white space at its ends** — then it marks every text in front of
which it stands as a line. -/
theorem classify_marked_iff (hne : marker ≠ "") (hline : '\n' ∉ marker.toList) :
    (∀ lineEnd ∈ lineEnds, ∀ body,
      classify marker (marker ++ lineEnd ++ body) = (materialized, body)) ↔
    Text.trimmed marker = marker := by
  constructor
  · intro h
    by_cases htrim : Text.trimmed marker = marker
    · exact htrim
    · have hmarked := h "\n" (by decide) ""
      rw [classify_of_untrimmed htrim] at hmarked
      cases hmarked
  · intro htrim lineEnd hend body
    obtain ⟨hfirst, hrest⟩ := firstLine_marked hline hend body
    simp only [classify, hfirst, htrim, hrest]
    simp [hne]

end Strategy

end QueryPress
