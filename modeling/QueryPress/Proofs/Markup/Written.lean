import QueryPress.Proofs.Markup.Requests
import QueryPress.Proofs.Text.Reading

/-!
# Proofs/Markup/Written — a page asks for no more than is written in it

Some of what is written in a page is never read: of several bodies for where there is nothing to walk
through only the last counts, and a macro inside a condition counts for nothing.  So the requests that
are *written* in a text (`Page.asked`) include those of its page (`Page.requests_subset_asked`).
-/

namespace QueryPress

open Reader

namespace Part

/-- The pages that a part asks for. -/
def requestsOf : Part → List Reference
  | node n => n.requestsOf
  | definition _ m => Node.requests m.body
  | silent => []

/-- The pages that some parts ask for. -/
def requests (ps : List Part) : List Reference := ps.flatMap requestsOf

variable {p : Part} {ps : List Part} {m : String × Macro}

theorem requests_nodes : ∀ ps : List Part, Node.requests (nodes ps) ⊆ requests ps
  | [] => by simp [nodes, Node.requests, requests]
  | node n :: ps => by
    have ih := requests_nodes ps
    simp only [nodes, requests, List.filterMap_cons, List.flatMap_cons, Node.requests, requestsOf]
    exact List.append_subset.2 ⟨List.subset_append_left _ _,
      List.subset_append_of_subset_right _ ih⟩
  | definition _ _ :: ps | silent :: ps => by
    simp only [requests, List.flatMap_cons]
    exact List.subset_append_of_subset_right _ (requests_nodes ps)

theorem requests_macros (h : m ∈ macros ps) : Node.requests m.2.body ⊆ requests ps := by
  obtain ⟨p, hp, hm⟩ := List.mem_filterMap.1 h
  intro r hr
  refine List.mem_flatMap.2 ⟨p, hp, ?_⟩
  cases p with
  | node | silent => cases hm
  | definition n d =>
    obtain rfl := Option.some.inj hm
    exact hr

end Part

mutual

/-- The pages that a piece asks for. -/
def Piece.requestsOf : Piece → List Reference
  | .text _ | .inherited | .raw _ _ _ => []
  | .tag _ p => p.requestsOf
  | .block _ _ body _ | .definition _ _ _ body _ => Piece.requests body
  | .loop _ _ _ _ body empties _ => Piece.requests body ++ Piece.requestsIn empties
  | .choice _ _ body rest => Piece.requests body ++ rest.requests

/-- The pages that some pieces ask for, in order. -/
def Piece.requests : List Piece → List Reference
  | [] => []
  | p :: ps => Piece.requestsOf p ++ Piece.requests ps

/-- The pages that some bodies ask for, in order. -/
def Piece.requestsIn : List (List Piece) → List Reference
  | [] => []
  | ps :: pss => Piece.requests ps ++ Piece.requestsIn pss

/-- The pages that what follows under a condition asks for, in order. -/
def Alternative.requests : Alternative → List Reference
  | .condition _ _ body rest => Piece.requests body ++ rest.requests
  | .otherwise _ body _ => Piece.requests body
  | .nothing _ => []

end

/-- What is read of a body is written in it. -/
theorem Piece.requests_body {body : List Piece} {ps : List Part}
    (h : Part.requests ps ⊆ Piece.requests body) :
    Node.requests (Part.nodes ps) ⊆ Piece.requests body := List.Subset.trans (Part.requests_nodes ps) h

mutual

theorem Piece.requests_part (dashes : Bool) : ∀ p : Piece,
    (p.part dashes).requestsOf ⊆ p.requestsOf
  | .text _ | .inherited | .raw _ _ _ => by
    simp [Piece.part, Part.requestsOf, Node.requestsOf]
  | .tag _ p => fun _ hr => hr
  | .block first name body last => Piece.requests_body (Piece.requests_settle _ _ body _)
  | .definition first name parameters body last =>
    Piece.requests_body (Piece.requests_settle _ _ body _)
  | .loop first key item container body empties last => by
    have hbody := Piece.requests_body
      (Piece.requests_settle dashes (dashes && last.before) body (dashes && first.after))
    have hempty := Piece.requests_lastOf empties
    rw [Piece.part, Part.requestsOf, Node.requestsOf, Piece.requestsOf]
    exact List.append_subset.2 ⟨List.subset_append_of_subset_left _ hbody,
      List.subset_append_of_subset_right _ hempty⟩
  | .choice first condition body rest => by
    have hbody := Piece.requests_body
      (Piece.requests_settle dashes (dashes && rest.first.before) body (dashes && first.after))
    have hrest := Piece.requests_alternative dashes rest
    rw [Piece.part, Part.requestsOf, Node.requestsOf, Piece.requestsOf]
    exact List.append_subset.2 ⟨List.subset_append_of_subset_left _ hbody,
      List.subset_append_of_subset_right _ hrest⟩

theorem Piece.requests_alternative (dashes : Bool) : ∀ a : Alternative,
    Node.requests (Piece.alternative dashes a) ⊆ a.requests
  | .condition d condition body rest => by
    have hbody := Piece.requests_body
      (Piece.requests_settle dashes (dashes && rest.first.before) body (dashes && d.after))
    have hrest := Piece.requests_alternative dashes rest
    rw [Piece.alternative, Node.requests, Node.requests, Node.requestsOf, Alternative.requests,
      List.append_nil]
    exact List.append_subset.2 ⟨List.subset_append_of_subset_left _ hbody,
      List.subset_append_of_subset_right _ hrest⟩
  | .otherwise d body last => Piece.requests_body (Piece.requests_settle _ _ body _)
  | .nothing _ => fun _ hr => hr

theorem Piece.requests_lastOf : ∀ pss : List (List Piece),
    Node.requests (Piece.lastOf pss) ⊆ Piece.requestsIn pss
  | [] => fun _ hr => hr
  | [ps] => by
    rw [Piece.lastOf, Piece.requestsIn, Piece.requestsIn, List.append_nil]
    exact Piece.requests_body (Piece.requests_settle _ _ ps _)
  | ps :: qs :: pss => by
    rw [Piece.lastOf, Piece.requestsIn]
    exact List.subset_append_of_subset_right _ (Piece.requests_lastOf (qs :: pss))

theorem Piece.requests_settle (dashes closing : Bool) : ∀ (ps : List Piece) (opening : Bool),
    Part.requests (Piece.settle dashes closing opening ps) ⊆ Piece.requests ps
  | [], _ => by simp [Piece.settle, Part.requests]
  | p :: ps, opening => by
    have hp := Piece.requests_part dashes p
    have hps := Piece.requests_settle dashes closing ps
    rw [Piece.requests]
    unfold Piece.settle
    split
    · rename_i h
      cases h
    · rename_i h
      cases h
      dsimp only
      split
      · exact List.subset_append_of_subset_right _ (hps _)
      · exact List.subset_append_of_subset_right _ (hps _)
    · rename_i h
      cases h
      exact List.subset_append_of_subset_right _ (hps _)
    · rename_i h
      cases h
      exact List.append_subset.2 ⟨List.subset_append_of_subset_left _ hp,
        List.subset_append_of_subset_right _ (hps _)⟩

end

namespace Page

/-- **What is written in a text to ask for pages**, if the text is written like a page. -/
def asked (text : String) : List Reference :=
  match whole? writtenPage text.toList with
  | none => []
  | some (parent, imports, pieces) =>
    (parent.toList.map fun t => Reference.needing t.2) ++
      (imports.map fun i => Reference.needing i.2.1) ++ Piece.requests pieces

/-- **A page asks for no more than is written in its text.** -/
theorem requests_subset_asked {text : String} {p : Page} (h : read? text = some p) :
    p.requests ⊆ asked text := by
  simp only [read?, Option.bind_eq_bind, Option.bind_eq_some_iff] at h
  obtain ⟨⟨parent, imports, parts⟩, hread, hp⟩ := h
  simp only [ofParts?, Option.ite_none_right_eq_some, Option.some.injEq] at hp
  obtain ⟨-, rfl⟩ := hp
  obtain ⟨parent', imports', pieces, opening, hwritten, rfl, rfl, rfl⟩ :
      ∃ parent' imports' pieces opening,
        whole? writtenPage text.toList = some (parent', imports', pieces) ∧
        parent = Option.map Prod.snd parent' ∧ imports = imports'.map Prod.snd ∧
        parts = Piece.settle true false opening pieces := by
    obtain ⟨⟨parent', imports', pieces⟩, rest, hwritten, hpure⟩ := bind_eq_some.1 (whole?_eq_some.1 hread)
    obtain ⟨heq, rfl⟩ := pure_eq_some.1 hpure
    obtain ⟨rfl, rfl, rfl⟩ : _ ∧ _ ∧ _ := by simpa using heq
    exact ⟨parent', imports', pieces, _, whole?_eq_some.2 hwritten, rfl, rfl, rfl⟩
  have hsettle := Piece.requests_settle true false pieces opening
  rw [asked, hwritten]
  refine List.append_subset.2 ⟨List.append_subset.2 ⟨?_, ?_⟩, ?_⟩
  · refine List.subset_append_of_subset_left _ ?_
    intro r hr
    obtain ⟨n, hn, rfl⟩ := List.mem_map.1 hr
    rcases List.mem_append.1 hn with hn | hn
    · obtain ⟨d, rfl⟩ : ∃ d, parent' = some (d, n) := by simpa using hn
      exact List.mem_append_left _ List.mem_cons_self
    · rw [List.map_map] at hn
      obtain ⟨i, hi, rfl⟩ := List.mem_map.1 hn
      exact List.mem_append_right _ (List.mem_map_of_mem hi)
  · exact List.subset_append_of_subset_right _ (Piece.requests_body hsettle)
  · refine List.subset_append_of_subset_right _ ?_
    intro r hr
    obtain ⟨m, hm, hr⟩ := List.mem_flatMap.1 hr
    exact hsettle (Part.requests_macros (Table.mem_ofList hm) hr)

end Page

end QueryPress
