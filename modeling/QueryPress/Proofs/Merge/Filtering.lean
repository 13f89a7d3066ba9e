import QueryPress.Proofs.Json.RoundTrip
import QueryPress.Proofs.Merge.Heredity

/-!
# Proofs/Merge/Filtering — what the filters for JSON write is read back

A filter behind an expression makes a text of its value, and a template writes that text as it is
(`Node.write_apply`).  What `json_escape` makes of a string stands for that string between quotes and does
not reach beyond them, and what `json_literal` makes of a value is read back as that value
(`Filter.read_back`).
-/

namespace QueryPress

open Merge

variable {descend : Descend} {s : Scene} {d d' d'' : Draft} {e : Expr} {v : Json} {t : String}
  {args : List (String × Expr)} {arguments : Table Json}

theorem Filter.name_ne_default (f : Filter) : f.name ≠ Expr.defaultFilter := by
  cases f <;> decide

/-- **The value of a filter behind an expression** is what the filter makes of the expression's value. -/
theorem Expr.value_apply (f : Filter) (hv : e.value descend s d = (.ok v, d'))
    (ha : Expr.argumentValues descend args s d' = (.ok arguments, d'')) :
    (Expr.apply e f.name args).value descend s d = (f.run v arguments, d'') := by
  rw [Expr.value]
  unfold applied
  rw [if_neg f.name_ne_default, bind_run, hv, Filter.ofName?_name]
  dsimp only
  rw [bind_run, ha]
  rfl

/-- **A text that a filter makes is written as it is.** -/
theorem Node.write_apply {f : Filter} (hv : e.value descend s d = (.ok v, d'))
    (ha : Expr.argumentValues descend args s d' = (.ok arguments, d''))
    (ht : f.run v arguments = .ok (.string t)) :
    Node.write descend (.value (.apply e f.name args)) s d
      = (.ok (), { d'' with written := t :: d''.written }) := by
  rw [Node.write, bind_run, Expr.value_apply f hv ha, ht]
  rfl

namespace Filter

/-- **A filter writes a text for a value** — behind every expression of that value, with any arguments. -/
def Writes (f : Filter) (v : Json) (t : String) : Prop :=
  ∀ {descend e args arguments} {s : Scene} {d d' d'' : Draft}, e.value descend s d = (.ok v, d') →
    Expr.argumentValues descend args s d' = (.ok arguments, d'') →
    Node.write descend (.value (.apply e f.name args)) s d
      = (.ok (), { d'' with written := t :: d''.written })

theorem writes_jsonEscape (t : String) :
    jsonEscape.Writes (.string t) (String.ofList (Json.escape t.toList)) :=
  fun hv ha => Node.write_apply hv ha rfl

theorem writes_jsonLiteral (v : Json) : jsonLiteral.Writes v v.literal :=
  fun hv ha => Node.write_apply hv ha rfl

/-- An escaped string between quotes is the literal of that string. -/
theorem quoted_escape (t : String) :
    "\"" ++ String.ofList (Json.escape t.toList) ++ "\"" = (Json.string t).literal := by
  refine String.toList_inj.1 ?_
  simp [Json.literal, Json.write, Json.quote]

/-- **What is written for JSON is read back.**  What `json_escape` writes for a string is what `json_literal`
writes for it, without the quotes.  It holds no control character, and between quotes it is one literal, which
stands for that string: whatever stands behind the second quote, it is the first one that closes the literal.
What `json_literal` writes for a value of whole numbers is a JSON text of that value. -/
theorem read_back :
    (∀ t : String, ∃ e : String, jsonEscape.Writes (.string t) e ∧
      jsonLiteral.Writes (.string t) ("\"" ++ e ++ "\"") ∧
      (∀ c ∈ e.toList, Json.isControl c = false) ∧
      Json.read? ("\"" ++ e ++ "\"") = some (.string t) ∧
      ∀ r, Json.closing (e.toList ++ '"' :: r) = some (e.toList, r) ∧
        Json.stringLiteral ('"' :: (e.toList ++ '"' :: r)) = some (t, r)) ∧
    ∀ v : Json, v.IsWhole → ∃ e : String, jsonLiteral.Writes v e ∧ Json.read? e = some v := by
  refine ⟨fun t => ⟨_, writes_jsonEscape t, ?_⟩, fun v hv => ⟨_, writes_jsonLiteral v, hv.read?_literal⟩⟩
  rw [quoted_escape, String.toList_ofList]
  refine ⟨writes_jsonLiteral (.string t), fun c hc => Json.not_isControl_of_mem_escape hc,
    (Json.IsWhole.string t).read?_literal, fun r => ⟨Json.closing_escape t.toList r, ?_⟩⟩
  rw [Json.stringLiteral_escape, String.ofList_toList]

/-- An array of a negative number and of an object whose member holds a quote and a line end. -/
theorem read_back_nested : ∃ t : String,
    (∀ descend s d, Node.write descend (.value (.apply
        (.literal (.array [.ofInt (-12), .object [("a", .string "\"\n")]])) "json_literal" [])) s d
      = (.ok (), { d with written := t :: d.written })) ∧
    Json.read? t = some (.array [.ofInt (-12), .object [("a", .string "\"\n")]]) := by
  have hmember : Json.IsWhole (.object [("a", .string "\"\n")]) :=
    .object (List.pairwise_singleton _ _) (List.forall_mem_singleton.2 (.string _))
  have hwhole : Json.IsWhole (.array [.ofInt (-12), .object [("a", .string "\"\n")]]) :=
    .array (List.forall_mem_cons.2 ⟨.number rfl, List.forall_mem_singleton.2 hmember⟩)
  obtain ⟨t, ht, hread⟩ := read_back.2 _ hwhole
  exact ⟨t, fun _ _ _ => ht rfl rfl, hread⟩

end Filter

end QueryPress
