import Mathlib.Logic.Equiv.Basic
import QueryPress.Proofs.Markup.Requests

/-!
# Proofs/Markup/Renaming — books that differ in the names of some pages

A book is *renamed* if every page stands under another name in it, and the pages mention only names that
stay as they are.  Then whatever is read off the pages by their names is the same in both books: parents,
macros, and whether the book is whole.  Adding the same texts under renamed names to both keeps it so
(`Book.IsRenamed.add?`).
-/

namespace QueryPress

variable {σ : Equiv.Perm String}

/-- **A renaming fixes some requests** — the names of their candidates stay as they are. -/
def Fixes (σ : Equiv.Perm String) (refs : List Reference) : Prop :=
  ∀ ref ∈ refs, ∀ n ∈ ref.candidates, σ n = n

theorem Fixes.mono {refs refs' : List Reference} (h : Fixes σ refs) (hsub : refs' ⊆ refs) :
    Fixes σ refs' := fun ref href => h ref (hsub href)

/-- What a page needs is fixed with what it asks for. -/
theorem Fixes.target {p : Page} {n : String} (h : Fixes σ p.requests) (hn : n ∈ p.targets) : σ n = n :=
  h _ (Page.needing_mem_requests hn) n List.mem_cons_self

namespace Book

/-- **A book is another one under other names**, which its pages do not mention. -/
structure IsRenamed (σ : Equiv.Perm String) (b b' : Book) : Prop where
  ordered : Table.InOrder b
  ordered' : Table.InOrder b'
  get? : ∀ n, Table.get? b' (σ n) = Table.get? b n
  read : b.IsRead
  fixed : ∀ n p, Table.get? b n = some p → Fixes σ p.requests

variable {b b' : Book} {n name space : String} {p : Page}

theorem IsRenamed.nil (σ : Equiv.Perm String) : IsRenamed σ [] [] where
  ordered := .nil
  ordered' := .nil
  get? _ := rfl
  read _ _ h := by cases h
  fixed _ _ h := by cases h

theorem IsRenamed.get?_fixed (h : IsRenamed σ b b') (hn : σ n = n) :
    Table.get? b' n = Table.get? b n := by
  rw [← h.get? n, hn]

theorem IsRenamed.body (h : IsRenamed σ b b') (hp : Table.get? b n = some p) :
    Fixes σ (Node.requests p.body) := (h.fixed n p hp).mono Page.requests_body

theorem IsRenamed.block (h : IsRenamed σ b b') {ns : List Node} (hp : Table.get? b n = some p)
    (hns : Table.get? p.blocks name = some ns) : Fixes σ (Node.requests ns) :=
  (h.fixed n p hp).mono (Page.requests_block (h.read n p hp) hns)

theorem IsRenamed.macroBody (h : IsRenamed σ b b') {caller owner : String} {m : Macro}
    (hm : b.macro? caller space name = some (owner, m)) : Fixes σ (Node.requests m.body) := by
  obtain ⟨p, hp, hm⟩ := eq_of_macro? hm
  exact (h.fixed owner p hp).mono (Page.requests_macro hm)

/-- Both books have as many pages. -/
theorem IsRenamed.length (h : IsRenamed σ b b') : b'.length = b.length := by
  have hkeys : (Table.keys b').Perm ((Table.keys b).map σ) := by
    have hnodup : ((Table.keys b).map σ).Nodup :=
      List.pairwise_map.2 (h.ordered.nodup.imp fun hne heq => hne (σ.injective heq))
    refine (List.perm_ext_iff_of_nodup h.ordered'.nodup hnodup).2 fun n => ?_
    have hmem : ∀ (b : Book) (n : String), n ∈ Table.keys b ↔ ∃ p, (n, p) ∈ b := by
      intro b n
      simp [Table.keys]
    constructor
    · intro hn
      obtain ⟨p, hp⟩ := (hmem b' n).1 hn
      have hget := Table.get?_of_mem h.ordered' hp
      rw [← σ.apply_symm_apply n, h.get?] at hget
      exact List.mem_map.2 ⟨σ.symm n, (hmem b _).2 ⟨p, Table.mem_of_get? hget⟩, σ.apply_symm_apply n⟩
    · intro hn
      obtain ⟨m, hm, rfl⟩ := List.mem_map.1 hn
      obtain ⟨p, hp⟩ := (hmem b m).1 hm
      exact (hmem b' _).2 ⟨p, Table.mem_of_get? ((h.get? m).trans (Table.get?_of_mem h.ordered hp))⟩
  simpa [Table.keys] using hkeys.length_eq

/-! ## What is read off the pages -/

theorem IsRenamed.ancestorsTo? (h : IsRenamed σ b b') : ∀ (k : Nat) (n : String),
    b'.ancestorsTo? k (σ n) = b.ancestorsTo? k n ∧
      ∀ as, b.ancestorsTo? k n = some as → as.map σ = as
  | 0, _ => ⟨rfl, nofun⟩
  | k + 1, n => by
    rw [Book.ancestorsTo?, Book.ancestorsTo?, h.get?]
    cases hp : Table.get? b n with
    | none => exact ⟨rfl, nofun⟩
    | some p =>
      cases hparent : p.parent with
      | none => simp [hparent]
      | some parent =>
        have hfix : σ parent = parent :=
          (h.fixed n p hp).target (by simp [Page.targets, hparent])
        obtain ⟨hsame, hfixed⟩ := h.ancestorsTo? k parent
        rw [hfix] at hsame
        refine ⟨by simp [hparent, hsame], fun as has => ?_⟩
        simp only [Option.bind_eq_bind, Option.bind_some, hparent, Option.bind_eq_some_iff,
          Option.pure_def, Option.some.injEq] at has
        obtain ⟨rest, hrest, rfl⟩ := has
        rw [List.map_cons, hfix, hfixed rest hrest]

/-- **A page has the same parents** under either name. -/
theorem IsRenamed.ancestors? (h : IsRenamed σ b b') (n : String) :
    b'.ancestors? (σ n) = b.ancestors? n := by
  rw [Book.ancestors?, Book.ancestors?, h.length, (h.ancestorsTo? _ n).1]

theorem IsRenamed.map_ancestors? (h : IsRenamed σ b b') {as : List String}
    (has : b.ancestors? n = some as) : as.map σ = as := (h.ancestorsTo? _ n).2 as has

theorem isWhole_iff (hb : Table.InOrder b) :
    b.isWhole = true ↔ ∀ n p, Table.get? b n = some p → b.isWholeAt n p = true := by
  rw [isWhole, List.all_eq_true]
  exact ⟨fun h n p hp => h (n, p) (Table.mem_of_get? hp),
    fun h e he => h e.1 e.2 (Table.get?_of_mem hb he)⟩

theorem IsRenamed.isWholeAt (h : IsRenamed σ b b') (hp : Table.get? b n = some p) :
    b'.isWholeAt (σ n) p = b.isWholeAt n p := by
  have himports : (p.imports.all fun e => Table.has b' e.1) = p.imports.all fun e => Table.has b e.1 := by
    rw [Bool.eq_iff_iff, List.all_eq_true, List.all_eq_true]
    refine forall₂_congr fun e he => ?_
    have hfix : σ e.1 = e.1 :=
      (h.fixed n p hp).target (List.mem_append_right _ (List.mem_map_of_mem he))
    rw [Table.has, Table.has, h.get?_fixed hfix]
  rw [Book.isWholeAt, Book.isWholeAt, h.ancestors?, himports]

/-- **A renamed book is whole** if the book is. -/
theorem IsRenamed.isWhole (h : IsRenamed σ b b') : b'.isWhole = b.isWhole := by
  rw [Bool.eq_iff_iff, isWhole_iff h.ordered, isWhole_iff h.ordered']
  constructor
  · intro hwhole n p hp
    rw [← h.isWholeAt hp]
    exact hwhole _ p ((h.get? n).trans hp)
  · intro hwhole n p hp
    rw [← σ.apply_symm_apply n, h.get?] at hp
    have hat := h.isWholeAt hp
    rw [σ.apply_symm_apply] at hat
    rw [hat]
    exact hwhole _ p hp

/-! ## Macros -/

/-- The owner of some macros, renamed. -/
def renameOwner (σ : Equiv.Perm String) (e : String × Table Macro) : String × Table Macro :=
  (σ e.1, e.2)

theorem IsRenamed.imported (h : IsRenamed σ b b') {spaces spaces' : String → Namespaces}
    (hspaces : ∀ n, σ n = n → spaces' n = (spaces n).mapValues (renameOwner σ)) :
    ∀ {imports : List (String × String)} {t : Namespaces}, (∀ e ∈ imports, σ e.1 = e.1) →
      imports.foldl (fun t e =>
          match Table.get? b' e.1 with
          | none => t
          | some q => beside (Table.insert t e.2 (e.1, q.macros)) (spaces' e.1))
        (t.mapValues (renameOwner σ))
      = (imports.foldl (fun t e =>
          match Table.get? b e.1 with
          | none => t
          | some q => beside (Table.insert t e.2 (e.1, q.macros)) (spaces e.1)) t).mapValues
            (renameOwner σ)
  | [], _, _ => rfl
  | (page, space) :: imports, t, hfix => by
    obtain ⟨hpage, hfix⟩ := List.forall_mem_cons.1 hfix
    rw [List.foldl_cons, List.foldl_cons, ← h.imported hspaces hfix]
    congr 1
    dsimp only
    rw [h.get?_fixed hpage]
    cases Table.get? b page with
    | none => rfl
    | some q =>
      have hinsert := Table.mapValues_insert (renameOwner σ) t space (page, q.macros)
      rw [renameOwner, hpage] at hinsert
      simp only [beside, Table.mapValues_override, hinsert, hspaces page hpage]

/-- **A page can call the same macros** under either name. -/
theorem IsRenamed.namespaces (h : IsRenamed σ b b') : ∀ (k : Nat) (n : String),
    b'.namespaces k (σ n) = (b.namespaces k n).mapValues (renameOwner σ)
  | 0, _ => rfl
  | k + 1, n => by
    rw [Book.namespaces, Book.namespaces, h.get?]
    cases hp : Table.get? b n with
    | none => rfl
    | some p =>
      have hspaces : ∀ n, σ n = n → b'.namespaces k n = (b.namespaces k n).mapValues (renameOwner σ) :=
        fun m hm => by
          have hsame := h.namespaces k m
          rwa [hm] at hsame
      have himports : ∀ e ∈ p.imports, σ e.1 = e.1 := fun e he =>
        (h.fixed n p hp).target (List.mem_append_right _ (List.mem_map_of_mem he))
      have hown : (if p.macros.isEmpty then [] else [(ownNamespace, σ n, p.macros)] : Namespaces)
          = Table.mapValues (renameOwner σ)
              (if p.macros.isEmpty then [] else [(ownNamespace, n, p.macros)]) := by
        split <;> rfl
      have himported := h.imported hspaces himports
        (t := if p.macros.isEmpty then [] else [(ownNamespace, n, p.macros)])
      rw [← hown] at himported
      dsimp only
      cases hparent : p.parent with
      | none => exact himported
      | some parent =>
        have hfix : σ parent = parent :=
          (h.fixed n p hp).target (by simp [Page.targets, hparent])
        exact (congrArg₂ beside himported (hspaces parent hfix)).trans
          (Table.mapValues_override _ _ _).symm

/-- **What a page calls under a name is the same macro**, of the renamed page. -/
theorem IsRenamed.macro? (h : IsRenamed σ b b') (caller space name : String) :
    b'.macro? (σ caller) space name
      = (b.macro? caller space name).map fun (owner, m) => (σ owner, m) := by
  rw [Book.macro?, Book.macro?, h.length, h.namespaces, Table.get?_mapValues]
  cases Table.get? (b.namespaces (b.length + 1) caller) space with
  | none => rfl
  | some e =>
    obtain ⟨page, macros⟩ := e
    cases hm : Table.get? macros name <;> simp [renameOwner, hm]

/-! ## Adding -/

theorem IsRenamed.insert (h : IsRenamed σ b b') (hp : Page.read? p.source = some p)
    (hfix : Fixes σ p.requests) (n : String) :
    IsRenamed σ (Table.insert b n p) (Table.insert b' (σ n) p) where
  ordered := h.ordered.insert n p
  ordered' := h.ordered'.insert (σ n) p
  get? m := by
    rw [Table.get?_insert, Table.get?_insert, h.get? m]
    simp only [σ.injective.eq_iff]
  read m q hq := by
    rw [Table.get?_insert] at hq
    split at hq
    · exact Option.some.inj hq ▸ hp
    · exact h.read m q hq
  fixed m q hq := by
    rw [Table.get?_insert] at hq
    split at hq
    · exact Option.some.inj hq ▸ hfix
    · exact h.fixed m q hq

/-- Texts under their renamed names. -/
def renamed (σ : Equiv.Perm String) (texts : List (String × String)) : List (String × String) :=
  texts.map fun t => (σ t.1, t.2)

theorem read?_renamed (σ : Equiv.Perm String) : ∀ texts : List (String × String),
    read? (renamed σ texts) = (read? texts).map fun pages => pages.map fun e => (σ e.1, e.2)
  | [] => rfl
  | (name, source) :: texts => by
    have ih := read?_renamed σ texts
    simp only [read?, renamed] at ih
    simp only [read?, renamed, List.map_cons, List.mapM_cons, ih]
    cases Page.read? source with
    | none => rfl
    | some p => cases texts.mapM fun t => (Page.read? t.2).map (t.1, ·) <;> rfl

theorem isRenamed_foldl : ∀ {texts : List (String × String)} {pages : List (String × Page)}
    {b b' : Book}, IsRenamed σ b b' → read? texts = some pages →
    (∀ t ∈ texts, ∀ p, Page.read? t.2 = some p → Fixes σ p.requests) →
      IsRenamed σ (pages.foldl (fun b e => Table.insert b e.1 e.2) b)
        ((pages.map fun e => (σ e.1, e.2)).foldl (fun b e => Table.insert b e.1 e.2) b')
  | [], pages, b, b', h, hread, _ => by
    obtain rfl : pages = [] := by simpa [read?] using hread.symm
    exact h
  | (name, source) :: texts, pages, b, b', h, hread, hfix => by
    obtain ⟨p, rest, hp, hrest, rfl⟩ := read?_cons.1 hread
    obtain ⟨hfirst, hfix⟩ := List.forall_mem_cons.1 hfix
    have hself : Page.read? p.source = some p := by rw [Page.source_of_read? hp, hp]
    rw [List.map_cons, List.foldl_cons, List.foldl_cons]
    exact isRenamed_foldl (h.insert hself (hfirst p hp) name) hrest hfix

/-- **Texts can be added to a renamed book under renamed names** if they can be added to the book. -/
theorem IsRenamed.add? (h : IsRenamed σ b b') {texts : List (String × String)}
    (hfix : ∀ t ∈ texts, ∀ p, Page.read? t.2 = some p → Fixes σ p.requests) :
    (b.add? texts = none ∧ b'.add? (renamed σ texts) = none) ∨
      ∃ c c', b.add? texts = some c ∧ b'.add? (renamed σ texts) = some c' ∧ IsRenamed σ c c' := by
  rw [Book.add?, Book.add?, read?_renamed σ texts]
  cases hread : read? texts with
  | none => exact .inl ⟨rfl, rfl⟩
  | some pages =>
    have hrenamed := isRenamed_foldl h hread hfix
    simp only [Option.bind_eq_bind, Option.bind_some, Option.map_some, hrenamed.isWhole]
    split
    · exact .inr ⟨_, _, rfl, rfl, hrenamed⟩
    · exact .inl ⟨rfl, rfl⟩

end Book

end QueryPress
