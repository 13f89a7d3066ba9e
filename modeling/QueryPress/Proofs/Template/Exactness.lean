import QueryPress.Proofs.Template.Asking

/-!
# Proofs/Template/Exactness — seeing and meaning are all there is to it

Loaders that have nothing but empty texts, under every name but some, tell the two readings of one text
apart.  So what a text asks for is settled wherever the text is collected only if all of it is seen
(`isSeen_iff`), and a page that is missing is asked for wherever it is missing only if what the text
refers to is meant (`isMeant_iff`).
-/

namespace QueryPress

theorem exists_not_mem (l : List String) : ∃ n, n ∉ l := by
  have hlong : ∃ k, ∀ n ∈ l, n.length < k := by
    induction l with
    | nil => exact ⟨0, by simp⟩
    | cons m l ih =>
      obtain ⟨k, hk⟩ := ih
      refine ⟨m.length + 1 + k, fun n hn => ?_⟩
      rcases List.mem_cons.1 hn with rfl | hn
      · omega
      · exact Nat.lt_of_lt_of_le (hk n hn) (Nat.le_add_left k _)
  obtain ⟨k, hk⟩ := hlong
  refine ⟨String.ofList (List.replicate k 'a'), fun hn => ?_⟩
  have hlt := hk _ hn
  rw [String.length_ofList, List.length_replicate] at hlt
  exact Nat.lt_irrefl k hlt

namespace Answers

/-! ## Empty texts under all names but some -/

/-- An empty text under a name. -/
def leaf (n : String) : Resource where
  name := n
  loader := ""
  path := ""
  source := ""
  modified := none

/-- A text with some name beside the leaves. -/
def rootOf (name text : String) : Resource := { leaf name with source := text }

/-- There is a leaf under every name but those of the list. -/
def allBut (without : List String) : Answers := fun n =>
  if n ∈ without then .ok none else .ok (some (leaf n))

variable {without done waiting : List String} {root r : Resource} {n text : String}

theorem eq_leaf_of_allBut (h : allBut without n = .ok (some r)) : r = leaf n := by
  rw [allBut] at h
  split at h <;> cases h
  rfl

theorem isNamed_allBut (without : List String) : (allBut without).IsNamed := by
  intro n r h
  rw [eq_leaf_of_allBut h]
  rfl

theorem allBut_eq_none : allBut without n = .ok none ↔ n ∈ without := by
  rw [allBut]
  split <;> simp [*]

theorem source_of_allBut (h : allBut without n = .ok (some r)) : r.source = "" := by
  rw [eq_leaf_of_allBut h]
  rfl

theorem ofText_empty : Reference.ofText "" = [] := by decide +kernel

/-- A walk comes to its end when nothing but leaves is waiting. -/
theorem exists_reaches {A : Answers} : ∀ {waiting done : List Resource},
    Reaches A [] [root] done waiting → (∀ r ∈ waiting, r.source = "") →
      ∃ members, Reaches A [] [root] members []
  | [], done, h, _ => ⟨done, h⟩
  | r :: waiting, done, h, hleaves => by
    obtain ⟨hr, hleaves⟩ := List.forall_mem_cons.1 hleaves
    have hnone : A.follow ([] ++ (done ++ r :: waiting).map Resource.name)
        (Reference.ofText r.source) = .ok [] := by
      rw [hr, ofText_empty]
      rfl
    exact exists_reaches (by simpa using h.onward hnone) hleaves

/-- **A text is collected among leaves** if it refers to none that has to be there and is not. -/
theorem exists_isClosure
    (h : ∀ ref ∈ Reference.ofText root.source, ¬ (allBut without).Misses [root.name] ref) :
    ∃ members, IsClosure (allBut without) root members := by
  have hA := isNamed_allBut without
  cases hf : (allBut without).follow [root.name] (Reference.ofText root.source) with
  | error e =>
    obtain ⟨ref, href, ⟨n, -, -, hn⟩ | ⟨hmiss, -⟩⟩ := follow_error hf
    · rw [allBut] at hn
      split at hn <;> cases hn
    · exact absurd hmiss (h ref href)
  | ok found =>
    have hleaves : ∀ r ∈ found, r.source = "" := fun r hr =>
      source_of_allBut ((follow_found hA hf).2 r hr).2.1
    have hfirst : Reaches (allBut without) [] [root] ([] ++ [root]) ([] ++ found) :=
      Reaches.start.onward hf
    obtain ⟨members, hmembers⟩ := exists_reaches hfirst hleaves
    exact ⟨members, hmembers.isClosure hA⟩

/-! ## What telling the readings apart comes to -/

/-- **What a text asks for is seen exactly if it is settled wherever the text is collected.** -/
theorem isSeen_iff : IsSeen text ↔ ∀ (A : Answers) (root : Resource) (members : List Resource),
    A.IsNamed → IsClosure A root members → ∀ r ∈ members, r.source = text →
      ∀ q ∈ Page.asked text, q.optional = false →
        ∃ n ∈ q.candidates, n ∈ members.map Resource.name := by
  constructor
  · rintro hseen A root members - hclosure r hr rfl q hq hneeded
    obtain ⟨ref, href, hneeded', hsub⟩ := hseen q hq hneeded
    rcases hclosure.settled r hr ref href with ⟨n, hn, hin⟩ | ⟨hoptional, -⟩
    · exact ⟨n, hsub hn, hin⟩
    · rw [hneeded'] at hoptional
      cases hoptional
  · intro h q hq hneeded
    obtain ⟨name, hname⟩ := exists_not_mem q.candidates
    by_cases hseen : ∃ ref ∈ Reference.ofText text, ref.optional = false ∧
        ref.candidates ⊆ q.candidates
    · exact hseen
    · -- everything is there but what is asked for, and still the text is collected
      have hmisses : ∀ ref ∈ Reference.ofText (rootOf name text).source,
          ¬ (allBut q.candidates).Misses [name] ref := fun ref href hmiss =>
        hseen ⟨ref, href, hmiss.1, fun n hn => allBut_eq_none.1 (hmiss.2 n hn).2⟩
      obtain ⟨members, hclosure⟩ := exists_isClosure hmisses
      obtain ⟨n, hn, hin⟩ := h _ _ members (isNamed_allBut _) hclosure _
        (List.mem_of_mem_head? hclosure.head) rfl q hq hneeded
      obtain ⟨r, hr, rfl⟩ := List.mem_map.1 hin
      rcases hclosure.comes r hr with rfl | ⟨-, -, -, hans⟩
      · exact absurd hn hname
      · rw [allBut_eq_none.2 hn] at hans
        cases hans

/-- **What a text refers to is meant exactly if a missing page is asked for wherever it is missing.** -/
theorem isMeant_iff : IsMeant text ↔ ∀ (A : Answers) (root r : Resource), A.IsNamed →
    A.Leads root r → r.source = text →
      (∃ ref ∈ Reference.ofText text, A.Misses [root.name] ref) →
        ∃ q ∈ Page.asked text, A.Misses [root.name] q := by
  constructor
  · rintro hmeant A root r - - rfl ⟨ref, href, hneeded, hnone⟩
    obtain ⟨q, hq, hneeded', hsub⟩ := hmeant ref href hneeded
    exact ⟨q, hq, hneeded', fun n hn => hnone n (hsub hn)⟩
  · intro h ref href hneeded
    obtain ⟨name, hname⟩ := exists_not_mem ref.candidates
    have hmisses : (allBut ref.candidates).Misses [(rootOf name text).name] ref := by
      refine ⟨hneeded, fun n hn => ⟨fun hin => ?_, allBut_eq_none.2 hn⟩⟩
      obtain rfl : n = name := List.mem_singleton.1 hin
      exact hname hn
    obtain ⟨q, hq, hneeded', hnone⟩ := h _ _ _ (isNamed_allBut ref.candidates)
      (leads_self _ (rootOf name text)) rfl ⟨ref, href, hmisses⟩
    exact ⟨q, hq, hneeded', fun n hn => allBut_eq_none.1 (hnone n hn).2⟩

end Answers

end QueryPress
