import QueryPress.Table

/-!
# Proofs/Table — what a table holds comes from what was filed in it
-/

namespace QueryPress.Table

variable {α : Type} {t : Table α} {n : String} {a : α} {p : String × α}

theorem mem_of_get? (h : t.get? n = some a) : (n, a) ∈ t := by
  induction t with
  | nil => simp at h
  | cons p t ih =>
    obtain ⟨k, b⟩ := p
    simp only [get?] at h
    split at h
    · obtain rfl := Option.some.inj h
      simp [*]
    · exact List.mem_cons_of_mem _ (ih h)

theorem mem_values_of_get? (h : t.get? n = some a) : a ∈ t.values :=
  List.mem_map.2 ⟨(n, a), mem_of_get? h, rfl⟩

theorem mem_keys_iff : n ∈ t.keys ↔ t.has n = true := by
  rw [has, keys]
  induction t with
  | nil => simp
  | cons p t ih =>
    rw [List.map_cons, List.mem_cons, ih, get?]
    split <;> simp [*]

theorem mem_insert (h : p ∈ t.insert n a) : p = (n, a) ∨ p ∈ t := by
  induction t with
  | nil => simpa [insert] using h
  | cons q t ih =>
    obtain ⟨k, b⟩ := q
    simp only [insert] at h
    split at h
    · exact (List.mem_cons.1 h).imp id (List.mem_cons_of_mem _)
    · split at h
      · exact List.mem_cons.1 h
      · rcases List.mem_cons.1 h with rfl | h
        · exact .inr List.mem_cons_self
        · exact (ih h).imp id (List.mem_cons_of_mem _)

theorem mem_foldl_insert : ∀ {l : List (String × α)} {t : Table α},
    p ∈ l.foldl (fun t p => t.insert p.1 p.2) t → p ∈ l ∨ p ∈ t
  | [], _, h => .inr h
  | q :: l, t, h => by
    rw [List.foldl_cons] at h
    rcases mem_foldl_insert h with h | h
    · exact .inl (List.mem_cons_of_mem q h)
    · exact (mem_insert h).imp (fun heq => by rw [heq]; exact List.mem_cons_self) id

/-- **What a table of pairs holds is one of the pairs.** -/
theorem mem_ofList {l : List (String × α)} (h : p ∈ ofList l) : p ∈ l :=
  (mem_foldl_insert h).elim id fun h => by cases h

theorem get?_foldl_insert (l : List (String × α)) (t : Table α) (n : String) :
    (l.foldl (fun t p => t.insert p.1 p.2) t).get? n =
      ((l.reverse.find? (·.1 = n)).map (·.2)).or (t.get? n) := by
  induction l generalizing t with
  | nil => rfl
  | cons p l ih =>
    rw [List.foldl_cons, ih, get?_insert, List.reverse_cons, List.find?_append]
    cases l.reverse.find? (·.1 = n) with
    | some q => rfl
    | none => by_cases h : n = p.1 <;> simp [h, eq_comm]

/-- **Of two pairs with one name the later one counts.** -/
theorem get?_ofList (l : List (String × α)) (n : String) :
    (ofList l).get? n = (l.reverse.find? (·.1 = n)).map (·.2) := by
  rw [ofList, get?_foldl_insert, get?_nil, Option.or_none]

/-- **The names of a table of pairs** are those of the pairs. -/
theorem mem_keys_ofList {l : List (String × α)} : n ∈ (ofList l).keys ↔ n ∈ l.map (·.1) := by
  constructor
  · intro h
    obtain ⟨p, hp, rfl⟩ := List.mem_map.1 h
    exact List.mem_map_of_mem (mem_ofList hp)
  · intro h
    obtain ⟨p, hp, rfl⟩ := List.mem_map.1 h
    have hfound : (l.reverse.find? (·.1 = p.1)).isSome :=
      List.find?_isSome.2 ⟨p, List.mem_reverse.2 hp, decide_eq_true rfl⟩
    obtain ⟨q, hq⟩ := Option.isSome_iff_exists.1 hfound
    have hget : (ofList l).get? p.1 = some q.2 := by rw [get?_ofList, hq, Option.map_some]
    exact List.mem_map.2 ⟨(p.1, q.2), mem_of_get? hget, rfl⟩

/-! ## Values under the same names -/

section

variable {β : Type} (f : α → β)

/-- A table with other values under the same names. -/
def mapValues (t : Table α) : Table β := t.map fun p => (p.1, f p.2)

theorem get?_mapValues (t : Table α) (n : String) : (t.mapValues f).get? n = (t.get? n).map f := by
  rw [mapValues]
  induction t with
  | nil => rfl
  | cons p t ih =>
    rw [List.map_cons, get?, get?]
    split
    · rfl
    · exact ih

theorem mapValues_insert (t : Table α) (n : String) (a : α) :
    (t.insert n a).mapValues f = (t.mapValues f).insert n (f a) := by
  simp only [mapValues]
  induction t with
  | nil => rfl
  | cons p t ih =>
    rw [List.map_cons, insert, insert]
    split
    · rfl
    · split
      · rfl
      · rw [List.map_cons, ih]

theorem mapValues_override (t u : Table α) :
    (override t u).mapValues f = override (t.mapValues f) (u.mapValues f) := by
  rw [override, override, show u.mapValues f = u.map fun p => (p.1, f p.2) from rfl, List.foldl_map]
  induction u generalizing t with
  | nil => rfl
  | cons p u ih =>
    rw [List.foldl_cons, List.foldl_cons, ih, ← mapValues_insert]

end

/-! ## Names in order -/

/-- The names of a table ascend, so each occurs once. -/
def InOrder (t : Table α) : Prop := t.keys.Pairwise (· < ·)

/-- **To file what is filed already** changes nothing. -/
theorem insert_eq_self (h : InOrder t) (hn : t.get? n = some a) : t.insert n a = t := by
  induction t with
  | nil => cases hn
  | cons p t ih =>
    obtain ⟨k, b⟩ := p
    obtain ⟨hfirst, hrest⟩ := List.pairwise_cons.1 h
    rw [get?] at hn
    rw [insert]
    by_cases hk : n = k
    · rw [if_pos hk] at hn ⊢
      rw [hk, Option.some.inj hn]
    · rw [if_neg hk] at hn ⊢
      have hlt : k < n := hfirst n (List.mem_map_of_mem (mem_of_get? hn))
      rw [if_neg fun hlt' => String.lt_irrefl k (String.lt_trans hlt hlt'), ih hrest hn]

theorem InOrder.nodup (h : InOrder t) : t.keys.Nodup := by
  refine List.Pairwise.imp (fun {m n} hlt heq => ?_) h
  exact String.lt_irrefl n (heq ▸ hlt)

theorem get?_of_mem (h : InOrder t) (hmem : (n, a) ∈ t) : t.get? n = some a := by
  induction t with
  | nil => cases hmem
  | cons p t ih =>
    obtain ⟨hout, -⟩ := List.nodup_cons.1 h.nodup
    rw [get?]
    rcases List.mem_cons.1 hmem with rfl | hmem
    · rw [if_pos rfl]
    · have hne : n ≠ p.1 := fun heq => hout (List.mem_map.2 ⟨(n, a), hmem, heq⟩)
      rw [if_neg hne, ih (List.pairwise_cons.1 h).2 hmem]

theorem InOrder.insert (h : InOrder t) (n : String) (a : α) : InOrder (t.insert n a) := by
  induction t with
  | nil => exact List.pairwise_singleton _ _
  | cons p t ih =>
    obtain ⟨k, b⟩ := p
    obtain ⟨hfirst, hrest⟩ := List.pairwise_cons.1 h
    rw [Table.insert]
    split
    · rename_i hk
      exact hk ▸ h
    · split
      · rename_i hlt
        refine List.pairwise_cons.2 ⟨fun m hm => ?_, h⟩
        rcases List.mem_cons.1 hm with rfl | hm
        · exact hlt
        · exact String.lt_trans hlt (hfirst m hm)
      · rename_i hne hnot
        have hlt : k < n :=
          String.not_le.1 fun hle => hne (String.le_antisymm hle (String.not_lt.1 hnot))
        refine List.pairwise_cons.2 ⟨fun m hm => ?_, ih hrest⟩
        obtain ⟨q, hq, rfl⟩ := List.mem_map.1 hm
        rcases mem_insert hq with rfl | hq
        · exact hlt
        · exact hfirst q.1 (List.mem_map_of_mem hq)

theorem inOrder_foldl_insert : ∀ (l : List (String × α)) {t : Table α}, InOrder t →
    InOrder (l.foldl (fun t p => t.insert p.1 p.2) t)
  | [], _, h => h
  | p :: l, _, h => inOrder_foldl_insert l (h.insert p.1 p.2)

theorem inOrder_ofList (l : List (String × α)) : InOrder (ofList l) :=
  inOrder_foldl_insert l .nil

/-- **A table is told by its look-ups.** -/
theorem eq_of_get? {u : Table α} (ht : InOrder t) (hu : InOrder u)
    (h : ∀ n, t.get? n = u.get? n) : t = u := by
  have hkey {p : String × α} {t : Table α} (ht : InOrder (p :: t)) : ∀ q ∈ t, p.1 < q.1 :=
    fun q hq => (List.pairwise_cons.1 ht).1 q.1 (List.mem_map_of_mem hq)
  induction t generalizing u with
  | nil =>
    cases u with
    | nil => rfl
    | cons q u =>
      have hq := h q.1
      rw [get?_of_mem hu List.mem_cons_self] at hq
      cases hq
  | cons p t ih =>
    have hp : u.get? p.1 = some p.2 := (h p.1).symm.trans (get?_of_mem ht List.mem_cons_self)
    cases u with
    | nil => cases hp
    | cons q u =>
      have hq : get? (p :: t) q.1 = some q.2 := (h q.1).trans (get?_of_mem hu List.mem_cons_self)
      -- of the two first names neither comes before the other
      obtain rfl : p = q := by
        rcases List.mem_cons.1 (mem_of_get? hp) with heq | hin
        · exact heq
        · rcases List.mem_cons.1 (mem_of_get? hq) with heq | hin'
          · exact heq.symm
          · exact absurd (String.lt_trans (hkey hu _ hin) (hkey ht _ hin')) (String.lt_irrefl _)
      refine congrArg (p :: ·) (ih (List.pairwise_cons.1 ht).2 (List.pairwise_cons.1 hu).2 fun n => ?_)
      have hn := h n
      rw [get?, get?] at hn
      split at hn
      · rename_i heq
        have hout {t : Table α} (ht : InOrder (p :: t)) : t.get? n = none := by
          cases hget : t.get? n with
          | none => rfl
          | some a => exact absurd (heq ▸ hkey ht _ (mem_of_get? hget)) (String.lt_irrefl _)
        rw [hout ht, hout hu]
      · exact hn

/-- Names that come behind all others are filed at the end. -/
theorem foldl_insert_eq_append : ∀ {l : List (String × α)} {t : Table α}, InOrder (t ++ l) →
    l.foldl (fun t p => t.insert p.1 p.2) t = t ++ l
  | [], t, _ => (List.append_nil t).symm
  | p :: l, t, h => by
    have hlast : t.insert p.1 p.2 = t ++ [p] := by
      have hbehind : ∀ q ∈ t, q.1 < p.1 := by
        rw [InOrder, keys, List.map_append, List.pairwise_append] at h
        exact fun q hq => h.2.2 q.1 (List.mem_map_of_mem hq) p.1 (by simp)
      clear h
      induction t with
      | nil => rfl
      | cons q t ih =>
        obtain ⟨hq, ht⟩ := List.forall_mem_cons.1 hbehind
        have hne : p.1 ≠ q.1 := fun heq => String.lt_irrefl q.1 (heq ▸ hq)
        rw [Table.insert, if_neg hne, if_neg fun hlt => String.lt_irrefl _ (String.lt_trans hlt hq),
          ih ht, List.cons_append]
    rw [List.append_cons] at h
    rw [List.foldl_cons, hlast, foldl_insert_eq_append h, List.append_assoc, List.singleton_append]

/-- A table is the table of its pairs. -/
theorem ofList_eq_self (h : InOrder t) : ofList t = t := foldl_insert_eq_append h

/-- **A name has what the table that overrides says**, and else what the other one does. -/
theorem get?_override {u : Table α} (hu : InOrder u) (t : Table α) (n : String) :
    (override t u).get? n = (u.get? n).or (t.get? n) := by
  rw [override, get?_foldl_insert, ← get?_ofList, ofList_eq_self hu]

/-- **Of two lists of pairs, one behind the other, the second overrides the first.** -/
theorem ofList_append (l m : List (String × α)) : ofList (l ++ m) = override (ofList l) (ofList m) := by
  refine eq_of_get? (inOrder_ofList _) (inOrder_foldl_insert _ (inOrder_ofList l)) fun n => ?_
  rw [get?_override (inOrder_ofList m), ofList, List.foldl_append, get?_foldl_insert, get?_ofList m]
  rfl

end QueryPress.Table
