import QueryPress.Proofs.Resource.Answers

/-!
# Proofs/Resource/Following — what is found for the references of one text

Following a list of references finds texts that were not known, each once, each the answer to a
candidate (`follow_found`); afterwards every reference has a candidate that is known or found, unless
it is optional and there is none (`follow_settled`).  It fails only for a candidate that cannot be
asked for, or for a reference that needs a candidate and has none (`follow_error`).
-/

namespace QueryPress.Answers

variable {A : Answers} {known known' : List String} {names : List String} {r : Resource}
  {ref : Reference} {refs : List Reference} {found : List Resource} {e : Error}

/-- What there is under a name bears that name. -/
def IsNamed (A : Answers) : Prop := ∀ n r, A n = .ok (some r) → r.name = n

/-! ## The first candidate there is -/

theorem first_eq_none : A.first names = .ok none ↔ ∀ n ∈ names, A n = .ok none := by
  induction names with
  | nil => simp [first]
  | cons n ns ih =>
    rw [first, List.forall_mem_cons]
    rcases A n with e | _ | r <;> simp [ih]

/-- **The first of some names under which there is something** — there is nothing under those in
front of it. -/
theorem first_eq_some (h : A.first names = .ok (some r)) :
    ∃ before n after, names = before ++ n :: after ∧ (∀ m ∈ before, A m = .ok none) ∧
      A n = .ok (some r) := by
  induction names with
  | nil => simp [first] at h
  | cons n ns ih =>
    rw [first] at h
    rcases hn : A n with e | _ | s <;> rw [hn] at h
    · cases h
    · obtain ⟨before, m, after, rfl, hb, hm⟩ := ih h
      exact ⟨n :: before, m, after, rfl, List.forall_mem_cons.2 ⟨hn, hb⟩, hm⟩
    · obtain rfl : s = r := by simpa using h
      exact ⟨[], n, ns, rfl, by simp, hn⟩

theorem exists_of_first_eq_error (h : A.first names = .error e) : ∃ n ∈ names, A n = .error e := by
  induction names with
  | nil => cases h
  | cons n ns ih =>
    rw [first] at h
    rcases hn : A n with e' | _ | s <;> rw [hn] at h
    · exact ⟨n, List.mem_cons_self, hn.trans h⟩
    · obtain ⟨m, hm, hA⟩ := ih h
      exact ⟨m, List.mem_cons_of_mem _ hm, hA⟩
    · cases h

/-! ## One reference -/

/-- **A reference is settled already, cannot be asked for, is passed over, is missing, or brings in
a text.** -/
theorem follow_cases (A : Answers) (known : List String) (ref : Reference)
    (refs : List Reference) :
    ((∃ n ∈ ref.candidates, n ∈ known) ∧
      A.follow known (ref :: refs) = A.follow known refs) ∨
    ((∀ n ∈ ref.candidates, n ∉ known) ∧
      ((∃ e, A.first ref.candidates = .error e ∧ A.follow known (ref :: refs) = .error e) ∨
       (A.first ref.candidates = .ok none ∧ ref.optional = true ∧
          A.follow known (ref :: refs) = A.follow known refs) ∨
       (A.first ref.candidates = .ok none ∧ ref.optional = false ∧
          A.follow known (ref :: refs) = .error (.notFound ref.described)) ∨
       (∃ r, A.first ref.candidates = .ok (some r) ∧
          A.follow known (ref :: refs) = (A.follow (r.name :: known) refs).map (r :: ·)))) := by
  rw [follow]
  by_cases hany : ref.candidates.any (known.contains ·) = true
  · exact .inl ⟨by simpa using hany, if_pos hany⟩
  · refine .inr ⟨by simpa using hany, ?_⟩
    rw [if_neg hany]
    rcases A.first ref.candidates with e | _ | r
    · exact .inl ⟨e, rfl, rfl⟩
    · cases ho : ref.optional
      · exact .inr (.inr (.inl ⟨rfl, rfl, rfl⟩))
      · exact .inr (.inl ⟨rfl, rfl, rfl⟩)
    · exact .inr (.inr (.inr ⟨r, rfl, rfl⟩))

/-! ## All references of a text -/

/-- Which names are known is all that counts. -/
theorem follow_congr (h : ∀ n, n ∈ known ↔ n ∈ known') :
    A.follow known refs = A.follow known' refs := by
  induction refs generalizing known known' with
  | nil => rfl
  | cons ref refs ih =>
    have hany : ref.candidates.any (known.contains ·) = ref.candidates.any (known'.contains ·) := by
      simp [h]
    have hcons : ∀ r : Resource, A.follow (r.name :: known) refs
        = A.follow (r.name :: known') refs := fun r => ih fun n => by simp [h]
    simp only [follow, hany, hcons, ih h]

/-- **What is found** is new, each name once, and the answer to a candidate. -/
theorem follow_found (hA : A.IsNamed) (h : A.follow known refs = .ok found) :
    (found.map Resource.name).Nodup ∧
      ∀ r ∈ found, r.name ∉ known ∧ A r.name = .ok (some r) ∧
        ∃ ref ∈ refs, r.name ∈ ref.candidates := by
  induction refs generalizing known found with
  | nil =>
    obtain rfl : [] = found := by simpa [follow] using h
    simp
  | cons ref refs ih =>
    have skip : A.follow known refs = .ok found →
        (found.map Resource.name).Nodup ∧
          ∀ r ∈ found, r.name ∉ known ∧ A r.name = .ok (some r) ∧
            ∃ ref' ∈ ref :: refs, r.name ∈ ref'.candidates := by
      intro h
      obtain ⟨hnodup, hmem⟩ := ih h
      refine ⟨hnodup, fun r hr => ?_⟩
      obtain ⟨hnew, hans, ref', hr', hc⟩ := hmem r hr
      exact ⟨hnew, hans, ref', List.mem_cons_of_mem _ hr', hc⟩
    obtain ⟨-, hf⟩ | ⟨hnew, ⟨e, -, hf⟩ | ⟨-, -, hf⟩ | ⟨-, -, hf⟩ | ⟨s, hs, hf⟩⟩ :=
      follow_cases A known ref refs <;> rw [hf] at h
    · exact skip h
    · cases h
    · exact skip h
    · cases h
    · obtain ⟨rest, hrest, rfl⟩ := map_eq_ok.1 h
      obtain ⟨before, n, after, hcand, -, hn⟩ := first_eq_some hs
      obtain rfl : s.name = n := hA n s hn
      have hin : s.name ∈ ref.candidates := by simp [hcand]
      obtain ⟨hnodup, hmem⟩ := ih hrest
      refine ⟨?_, fun r hr => ?_⟩
      · rw [List.map_cons, List.nodup_cons]
        refine ⟨fun hs' => ?_, hnodup⟩
        obtain ⟨r, hr, hname⟩ := List.mem_map.1 hs'
        exact (hmem r hr).1 (by simp [hname])
      · rcases List.mem_cons.1 hr with rfl | hr
        · exact ⟨hnew _ hin, hn, ref, List.mem_cons_self, hin⟩
        · obtain ⟨hnew', hans, ref', hr', hc⟩ := hmem r hr
          exact ⟨fun hk => hnew' (List.mem_cons_of_mem _ hk), hans, ref',
            List.mem_cons_of_mem _ hr', hc⟩

/-- A reference is settled by some names: one of its candidates is among them, or it is optional and
there is none of them. -/
def Settles (A : Answers) (names : List String) (ref : Reference) : Prop :=
  (∃ n ∈ ref.candidates, n ∈ names) ∨
    (ref.optional = true ∧ ∀ n ∈ ref.candidates, A n = .ok none)

theorem Settles.mono {names' : List String} (h : A.Settles names ref) (hsub : names ⊆ names') :
    A.Settles names' ref :=
  h.imp (fun ⟨n, hn, hin⟩ => ⟨n, hn, hsub hin⟩) id

/-- **Every reference that was followed is settled** by what was known and what was found. -/
theorem follow_settled (hA : A.IsNamed) (h : A.follow known refs = .ok found) :
    ∀ ref ∈ refs, A.Settles (found.map Resource.name ++ known) ref := by
  induction refs generalizing known found with
  | nil => simp
  | cons ref refs ih =>
    rw [List.forall_mem_cons]
    obtain ⟨⟨n, hn, hk⟩, hf⟩ | ⟨hnew, ⟨e, -, hf⟩ | ⟨hs, ho, hf⟩ | ⟨-, -, hf⟩ | ⟨s, hs, hf⟩⟩ :=
      follow_cases A known ref refs <;> rw [hf] at h
    · exact ⟨.inl ⟨n, hn, List.mem_append_right _ hk⟩, ih h⟩
    · cases h
    · exact ⟨.inr ⟨ho, first_eq_none.1 hs⟩, ih h⟩
    · cases h
    · obtain ⟨rest, hrest, rfl⟩ := map_eq_ok.1 h
      obtain ⟨before, n, after, hcand, -, hn⟩ := first_eq_some hs
      obtain rfl : s.name = n := hA n s hn
      refine ⟨.inl ⟨s.name, by simp [hcand], by simp⟩, fun ref' hr' => ?_⟩
      refine (ih hrest ref' hr').mono fun m hm => ?_
      simp only [List.mem_append, List.mem_cons, List.map_cons] at hm ⊢
      rcases hm with hm | hm | hm <;> simp [hm]

/-- A reference is missing beyond some names: it needs a candidate, and there is none of them. -/
def Misses (A : Answers) (names : List String) (ref : Reference) : Prop :=
  ref.optional = false ∧ ∀ n ∈ ref.candidates, n ∉ names ∧ A n = .ok none

theorem Misses.anti {names' : List String} (h : A.Misses names ref) (hsub : names' ⊆ names) :
    A.Misses names' ref :=
  ⟨h.1, fun n hn => ⟨fun hn' => (h.2 n hn).1 (hsub hn'), (h.2 n hn).2⟩⟩

/-- **Why following fails** — a candidate cannot be asked for, or a reference is missing. -/
theorem follow_error (h : A.follow known refs = .error e) :
    ∃ ref ∈ refs, (∃ n ∈ ref.candidates, n ∉ known ∧ A n = .error e) ∨
      (A.Misses known ref ∧ e = .notFound ref.described) := by
  induction refs generalizing known with
  | nil => cases h
  | cons ref refs ih =>
    have later : ∀ known', known ⊆ known' → A.follow known' refs = .error e →
        ∃ ref' ∈ ref :: refs, (∃ n ∈ ref'.candidates, n ∉ known ∧ A n = .error e) ∨
          (A.Misses known ref' ∧ e = .notFound ref'.described) := by
      intro known' hsub h
      obtain ⟨ref', hr', hwhy⟩ := ih h
      refine ⟨ref', List.mem_cons_of_mem ref hr', hwhy.imp ?_ (And.imp_left (·.anti hsub))⟩
      rintro ⟨n, hn, hnew, hans⟩
      exact ⟨n, hn, fun hk => hnew (hsub hk), hans⟩
    obtain ⟨-, hf⟩ | ⟨hnew, ⟨e', hs, hf⟩ | ⟨-, -, hf⟩ | ⟨hs, ho, hf⟩ | ⟨s, hs, hf⟩⟩ :=
      follow_cases A known ref refs <;> rw [hf] at h
    · exact later known (List.Subset.refl _) h
    · obtain rfl : e' = e := by simpa using h
      obtain ⟨n, hn, hans⟩ := exists_of_first_eq_error hs
      exact ⟨ref, List.mem_cons_self, .inl ⟨n, hn, hnew n hn, hans⟩⟩
    · exact later known (List.Subset.refl _) h
    · obtain rfl : Error.notFound ref.described = e := by simpa using h
      have hmiss : A.Misses known ref := ⟨ho, fun n hn => ⟨hnew n hn, first_eq_none.1 hs n hn⟩⟩
      exact ⟨ref, List.mem_cons_self, .inr ⟨hmiss, rfl⟩⟩
    · refine later _ (List.subset_cons_self s.name known) ?_
      rcases hrest : A.follow (s.name :: known) refs with e' | rest <;> rw [hrest] at h
      · simpa [Except.map] using h
      · cases h

end QueryPress.Answers
