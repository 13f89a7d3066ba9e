import QueryPress.Proofs.Markup.Holding
import QueryPress.Proofs.Table
import QueryPress.Reference

/-!
# Proofs/Markup/Requests — the pages that a page asks for

A page asks for its parent, for the pages whose macros it imports, and for what its inclusions name,
wherever they stand in it.  This is what a page *really* refers to; `Reference.ofText` finds references
without reading the text as a page.

All that is ever written of a page is its body, a block or a macro of it, and none of them asks for
more than the page does.
-/

namespace QueryPress

mutual

/-- The pages that a node asks for. -/
def Node.requestsOf : Node → List Reference
  | .inclusion pages optional => [{ candidates := pages, optional }]
  | .branch _ yes no => Node.requests yes ++ Node.requests no
  | .loop _ _ _ body empty => Node.requests body ++ Node.requests empty
  | .block _ body => Node.requests body
  | _ => []

/-- The pages that some nodes ask for, in order. -/
def Node.requests : List Node → List Reference
  | [] => []
  | n :: ns => Node.requestsOf n ++ Node.requests ns

end

/-- A request for one page, which has to be there. -/
def Reference.needing (page : String) : Reference := { candidates := [page], optional := false }

namespace Page

/-- The pages that have to be there for a page to be one at all. -/
def targets (p : Page) : List String := p.parent.toList ++ p.imports.map Prod.fst

/-- **The pages that a page asks for.** -/
def requests (p : Page) : List Reference :=
  p.targets.map Reference.needing ++ Node.requests p.body ++
    p.macros.flatMap fun m => Node.requests m.2.body

end Page

variable {p : Page} {b : Book} {n space name owner : String} {ns : List Node} {ref : Reference}

mutual

theorem Node.requests_blocksOf : ∀ {n : Node} {name : String} {body : List Node},
    (name, body) ∈ Node.blocksOf n → Node.requests body ⊆ Node.requestsOf n
  | .block own inner, name, body, h => by
    rw [Node.blocksOf] at h
    rcases List.mem_cons.1 h with heq | h
    · obtain ⟨-, rfl⟩ := Prod.mk.inj heq
      exact fun _ hr => hr
    · exact Node.requests_blocks h
  | .text _, _, _, h | .value _, _, _, h | .assign _ _, _, _, h | .inclusion _ _, _, _, h
  | .branch _ _ _, _, _, h | .loop _ _ _ _ _, _, _, h | .inherited, _, _, h => by
    simp [Node.blocksOf] at h

theorem Node.requests_blocks : ∀ {ns : List Node} {name : String} {body : List Node},
    (name, body) ∈ Node.blocks ns → Node.requests body ⊆ Node.requests ns
  | [], _, _, h => by simp [Node.blocks] at h
  | n :: ns, name, body, h => by
    rw [Node.blocks] at h
    rw [Node.requests]
    rcases List.mem_append.1 h with h | h
    · exact fun r hr => List.mem_append_left _ (Node.requests_blocksOf h hr)
    · exact fun r hr => List.mem_append_right _ (Node.requests_blocks h hr)

end

namespace Page

theorem requests_body : Node.requests p.body ⊆ p.requests := fun _ h =>
  List.mem_append_left _ (List.mem_append_right _ h)

theorem requests_macro {m : Macro} (h : Table.get? p.macros n = some m) :
    Node.requests m.body ⊆ p.requests := fun _ hr =>
  List.mem_append_right _ (List.mem_flatMap.2 ⟨(n, m), Table.mem_of_get? h, hr⟩)

theorem needing_mem_requests (h : n ∈ p.targets) : Reference.needing n ∈ p.requests :=
  List.mem_append_left _ (List.mem_append_left _ (List.mem_map_of_mem h))

/-- **A block of a page that was read** asks for nothing that the page does not ask for. -/
theorem requests_block {source : String} (hp : Page.read? source = some p)
    (h : Table.get? p.blocks n = some ns) : Node.requests ns ⊆ p.requests := by
  simp only [Page.read?, Option.bind_eq_bind, Option.bind_eq_some_iff] at hp
  obtain ⟨⟨parent, imports, parts⟩, -, hp⟩ := hp
  simp only [Page.ofParts?, Option.ite_none_right_eq_some, Option.some.injEq] at hp
  obtain ⟨-, rfl⟩ := hp
  have hmem := Table.mem_ofList (Table.mem_of_get? h)
  exact fun r hr => requests_body (Node.requests_blocks hmem hr)

end Page

namespace Book

/-! ## Macros belong to pages -/

/-- Each namespace has the macros of the page that it names. -/
def Owns (b : Book) (t : Namespaces) : Prop :=
  ∀ e ∈ t, ∃ p, Table.get? b e.2.1 = some p ∧ e.2.2 = p.macros

variable {t u : Namespaces}

theorem Owns.beside (ht : b.Owns t) (hu : b.Owns u) : b.Owns (beside t u) := fun e he =>
  (Table.mem_foldl_insert he).elim (ht e) (hu e)

theorem Owns.insert (ht : b.Owns t) (hp : Table.get? b n = some p) :
    b.Owns (Table.insert t space (n, p.macros)) := by
  intro e he
  rcases Table.mem_insert he with rfl | he
  · exact ⟨p, hp, rfl⟩
  · exact ht e he

theorem owns_imported {namespaces : String → Namespaces} (h : ∀ n, b.Owns (namespaces n)) :
    ∀ (imports : List (String × String)) {t : Namespaces}, b.Owns t →
      b.Owns (imports.foldl (fun t (page, space) =>
        match Table.get? b page with
        | none => t
        | some q => Book.beside (Table.insert t space (page, q.macros)) (namespaces page)) t)
  | [], _, ht => ht
  | (page, space) :: imports, t, ht => by
    rw [List.foldl_cons]
    cases hq : Table.get? b page with
    | none => exact owns_imported h imports (by simpa [hq] using ht)
    | some q => exact owns_imported h imports (by simpa [hq] using (ht.insert hq).beside (h page))

/-- **Every macro that a page can call belongs to a page**, at whatever depth it is imported. -/
theorem owns_namespaces (b : Book) : ∀ (n : Nat) (name : String), b.Owns (b.namespaces n name)
  | 0, _ => by simp [Owns, namespaces]
  | n + 1, name => by
    rw [namespaces]
    cases hp : Table.get? b name with
    | none => simp [Owns]
    | some p =>
      have hown : b.Owns (if p.macros.isEmpty then [] else [(ownNamespace, name, p.macros)]) := by
        split
        · simp [Owns]
        · simpa [Owns] using ⟨p, hp, rfl⟩
      have himported := owns_imported (b.owns_namespaces n) p.imports hown
      dsimp only
      split
      · exact himported
      · exact himported.beside (b.owns_namespaces n _)

theorem eq_of_macro? {caller : String} {m : Macro} (h : b.macro? caller space name = some (owner, m)) :
    ∃ p, Table.get? b owner = some p ∧ Table.get? p.macros name = some m := by
  simp only [macro?, Option.bind_eq_bind, Option.bind_eq_some_iff, Option.pure_def,
    Option.some.injEq, Prod.mk.injEq] at h
  obtain ⟨⟨page, macros⟩, hspace, m, hm, rfl, rfl⟩ := h
  obtain ⟨p, hp, heq⟩ := b.owns_namespaces _ caller _ (Table.mem_of_get? hspace)
  exact ⟨p, hp, heq ▸ hm⟩

/-! ## Settled requests -/

/-- A book settles some requests if it has a page for each that has to be met. -/
def Settles (b : Book) (refs : List Reference) : Prop :=
  ∀ ref ∈ refs, ref.optional = false → ∃ n ∈ ref.candidates, Table.has b n = true

theorem Settles.mono {refs refs' : List Reference} (h : b.Settles refs) (hsub : refs' ⊆ refs) :
    b.Settles refs' := fun ref href => h ref (hsub href)

/-- **A book is settled** — it has a page for all that its pages cannot do without. -/
structure IsSettled (b : Book) : Prop where
  read : b.IsRead
  settles : ∀ n p, Table.get? b n = some p → b.Settles p.requests

theorem IsSettled.body (h : b.IsSettled) (hp : Table.get? b n = some p) :
    b.Settles (Node.requests p.body) := (h.settles n p hp).mono Page.requests_body

theorem IsSettled.block (h : b.IsSettled) (hp : Table.get? b n = some p)
    (hns : Table.get? p.blocks name = some ns) : b.Settles (Node.requests ns) :=
  (h.settles n p hp).mono (Page.requests_block (h.read n p hp) hns)

theorem IsSettled.macroBody (h : b.IsSettled) {caller : String} {m : Macro}
    (hm : b.macro? caller space name = some (owner, m)) : b.Settles (Node.requests m.body) := by
  obtain ⟨p, hp, hm⟩ := eq_of_macro? hm
  exact (h.settles owner p hp).mono (Page.requests_macro hm)

end Book

end QueryPress
