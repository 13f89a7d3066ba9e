import QueryPress.Proofs.Resource.Walk

/-!
# Proofs/Resource/Ending — every walk through references comes to an end

`Walks` is a walk without a bound on the number of its texts.  Every text it takes after the first
ones stands on the disk or in a loader's table, so every name it finds occurs in one of finitely many
texts; what it finds is new each time, and so the names that have not been seen bound what is still to
come (`walks_collectFrom`).  How it ends is told by how far a walk through the answers comes
(`ends_collectFrom`).
-/

namespace QueryPress

/-! ## Names that have not been seen -/

/-- The names among `all` that are not known. -/
def unseen (all known : List String) : List String := all.filter (! known.contains ·)

theorem length_unseen_cons {all known : List String} {n : String} (hn : n ∈ all)
    (hnew : n ∉ known) : (unseen all (n :: known)).length < (unseen all known).length := by
  have hfilter : unseen all (n :: known) = (unseen all known).filter (! · == n) := by
    rw [unseen, unseen, List.filter_filter]
    refine List.filter_congr fun m _ => ?_
    rw [List.contains_cons, Bool.not_or]
  rw [hfilter, List.length_filter_lt_length_iff_exists]
  exact ⟨n, List.mem_filter.2 ⟨hn, by simpa using hnew⟩, by simp⟩

/-- **Each new name leaves fewer unseen.** -/
theorem length_unseen_append {all known : List String} : ∀ {new : List String}, new.Nodup →
    (∀ n ∈ new, n ∈ all ∧ n ∉ known) →
      new.length + (unseen all (new ++ known)).length ≤ (unseen all known).length
  | [], _, _ => by simp
  | n :: new, hnodup, hnew => by
    obtain ⟨hn, hnodup⟩ := List.nodup_cons.1 hnodup
    obtain ⟨⟨hall, hfresh⟩, hnew⟩ := List.forall_mem_cons.1 hnew
    have hrest := length_unseen_append hnodup hnew
    have hstep : (unseen all (n :: (new ++ known))).length < (unseen all (new ++ known)).length :=
      length_unseen_cons hall (by simp [hn, hfresh])
    rw [List.length_cons, List.cons_append]
    omega

/-! ## What loaders answer comes from finitely many texts -/

namespace Loader

variable {w : World} {l : Loader} {name : String} {r : Resource}

/-- What a loader answers stands in its table or on the disk. -/
theorem source_of_load (h : (l.load w name).1 = .ok (some r)) :
    r ∈ Table.values l.copies ∨ r.source ∈ w.texts := by
  rw [fst_load] at h
  cases hk : l.kept? w name with
  | some copy =>
    obtain rfl : copy = r := by simpa [hk] using h
    exact .inl (Table.mem_values_of_get? (get?_of_kept? hk))
  | none =>
    simp only [hk, found] at h
    cases hl : l.locate? w name with
    | none => simp [hl] at h
    | some path =>
      rw [hl] at h
      obtain ⟨found, hread, hfound⟩ := map_eq_ok.1 h
      obtain rfl := Option.some.inj hfound
      exact .inr (World.mem_texts_of_readText (read_eq_ok hread).1)

end Loader

namespace Chain

variable {w : World} {c c' : Chain} {known given : List String} {start waiting : List Resource}
  {r : Resource}

/-- **What a chain answers is one of its reachable texts.** -/
theorem source_of_answer {name : String} (h : answer w c name = .ok (some r)) :
    r.source ∈ c.reachableTexts w := by
  induction c with
  | nil => simp [answer, find] at h
  | cons l ls ih =>
    rw [reachableTexts, List.flatMap_cons, List.append_assoc, List.mem_append]
    rw [answer_cons] at h
    cases hload : (l.load w name).1 with
    | error e => simp [hload] at h
    | ok a =>
      cases a with
      | none => exact .inr (ih (by simpa [hload] using h))
      | some r' =>
        obtain rfl : r' = r := by simpa [hload] using h
        rcases Loader.source_of_load hload with hcopy | htext
        · exact .inl (List.mem_map_of_mem hcopy)
        · exact .inr (List.mem_append_right _ htext)

/-! ## A walk without a bound -/

/-- **A walk from what is known and what is waiting** to an answer and the loaders afterwards — it
goes on until nothing waits or something fails. -/
inductive Walks (w : World) : (known : List String) → (waiting : List Resource) → Chain →
    Except Error (List Resource) → Chain → Prop
  | nothing {known : List String} {c : Chain} : Walks w known [] c (.ok []) c
  | failed {known : List String} {r : Resource} {waiting : List Resource} {c c' : Chain}
      {e : Error} :
      follow w known (Reference.ofText r.source) c = (.error e, c') →
      Walks w known (r :: waiting) c (.error e) c'
  | onward {known : List String} {r : Resource} {waiting found : List Resource}
      {c c' c'' : Chain} {a : Except Error (List Resource)} :
      follow w known (Reference.ofText r.source) c = (.ok found, c') →
      Walks w (found.map Resource.name ++ known) (waiting ++ found) c' a c'' →
      Walks w known (r :: waiting) c (a.map (r :: ·)) c''

/-- **A walk asks for names that are not known** — those of all that it takes beyond the first texts,
and all candidates of a reference that brings in nothing. -/
theorem Walks.asks {a : Except Error (List Resource)} (h : Walks w known waiting c a c')
    (hc : c.IsSound) :
    ∃ asked, Asks w asked c c' ∧ (∀ n ∈ asked, n ∉ known) ∧ ∀ members, a = .ok members →
      (∀ n ∈ asked, ∃ a, answer w c n = .ok a) ∧ waiting ⊆ members ∧
      (∀ r ∈ members, r ∈ waiting ∨ (r.name ∈ asked ∧ answer w c r.name = .ok (some r))) ∧
      ∀ r ∈ members, ∀ ref ∈ Reference.ofText r.source,
        ref.IsDealtWith (members.map Resource.name ++ known) asked := by
  induction h with
  | nothing =>
    refine ⟨[], .nothing, by simp, fun members h => ?_⟩
    obtain rfl : [] = members := by simpa using h
    simp
  | @failed known r waiting c c' e hf =>
    obtain ⟨asked, hasks, hnew, -⟩ := asks_follow (w := w) hc (Reference.ofText r.source) known
    rw [hf] at hasks
    exact ⟨asked, hasks, hnew, by simp⟩
  | @onward known r waiting found c c' c'' a hf _ ih =>
    obtain ⟨asked, hasks, hnew, hok⟩ := asks_follow (w := w) hc (Reference.ofText r.source) known
    obtain ⟨-, hkeep⟩ := fst_follow (w := w) (Reference.ofText r.source) known c
    have hsound := hc.follow w known (Reference.ofText r.source)
    rw [hf] at hasks hok hkeep hsound
    have hc' : answer w c' = answer w c := hkeep found rfl
    obtain ⟨asked', hasks', hnew', hok'⟩ := ih hsound
    have haccounts := hok found rfl
    refine ⟨asked ++ asked', hasks.append hasks', fun n hn => ?_, fun members h => ?_⟩
    · rcases List.mem_append.1 hn with hn | hn
      · exact hnew n hn
      · exact fun hk => hnew' n hn (List.mem_append_right _ hk)
    · obtain ⟨rest, rfl, rfl⟩ := map_eq_ok.1 h
      obtain ⟨hall', hsub, hcome, hsettled⟩ := hok' rest rfl
      rw [hc'] at hall' hcome
      obtain ⟨hwaiting, hnext⟩ := List.append_subset.1 hsub
      -- what has been found waits, and so comes to be a member
      have hseen : found.map Resource.name ++ known ⊆ (r :: rest).map Resource.name ++ known :=
        List.append_subset.2 ⟨List.subset_append_of_subset_left _
          (List.map_subset _ (List.subset_cons_of_subset r hnext)), List.subset_append_right _ _⟩
      refine ⟨fun n hn => (List.mem_append.1 hn).elim (haccounts.answered n) (hall' n),
        List.cons_subset_cons r hwaiting, ?_, ?_⟩
      · refine List.forall_mem_cons.2 ⟨.inl List.mem_cons_self, fun s hs => ?_⟩
        rcases hcome s hs with hs | hs
        · rcases List.mem_append.1 hs with hs | hs
          · exact .inl (List.mem_cons_of_mem r hs)
          · exact .inr ((haccounts.brings s hs).imp_left (List.mem_append_left _))
        · exact .inr (hs.imp_left (List.mem_append_right _))
      · refine List.forall_mem_cons.2 ⟨fun ref href =>
          (haccounts.dealtWith ref href).mono hseen (List.subset_append_left _ _), fun s hs ref href =>
          (hsettled s hs ref href).mono (List.append_subset.2 ⟨?_, hseen⟩)
            (List.subset_append_right _ _)⟩
        exact List.subset_append_of_subset_left _ (List.subset_cons_self _ _)

theorem collectTo_of_follow_ok {n : Nat} {found : List Resource}
    (h : follow w known (Reference.ofText r.source) c = (.ok found, c')) :
    collectTo w (n + 1) known (r :: waiting) c
      = (((collectTo w n (found.map Resource.name ++ known) (waiting ++ found) c').1).map (r :: ·),
          (collectTo w n (found.map Resource.name ++ known) (waiting ++ found) c').2) := by
  simp only [collectTo, h]
  rcases collectTo w n (found.map Resource.name ++ known) (waiting ++ found) c' with
    ⟨(e | members), c''⟩ <;> rfl

/-- **A bound that no walk comes to** — the texts that wait and the names that have not been seen,
where `all` holds the names in every text the walk can take. -/
theorem walks_collectTo (all : List String) : ∀ (n : Nat) (known : List String)
    (waiting : List Resource) (c : Chain), c.IsSound →
    (∀ name r, answer w c name = .ok (some r) → namesIn r.source ⊆ all) →
    (∀ r ∈ waiting, namesIn r.source ⊆ all) →
    waiting.length + (unseen all known).length ≤ n →
      Walks w known waiting c (collectTo w n known waiting c).1 (collectTo w n known waiting c).2
  | n, known, [], c, _, _, _, _ => by
    rw [show collectTo w n known [] c = (.ok [], c) by cases n <;> rfl]
    exact .nothing
  | 0, known, r :: waiting, c, _, _, _, hn => by simp at hn
  | n + 1, known, r :: waiting, c, hc, hanswer, hwaiting, hn => by
    obtain ⟨hr, hwaiting⟩ := List.forall_mem_cons.1 hwaiting
    obtain ⟨hfst, hkeep⟩ := fst_follow (w := w) (Reference.ofText r.source) known c
    have hsound := hc.follow w known (Reference.ofText r.source)
    rcases hf : follow w known (Reference.ofText r.source) c with ⟨(e | found), c'⟩ <;>
      rw [hf] at hfst hkeep hsound
    · rw [show collectTo w (n + 1) known (r :: waiting) c = (.error e, c') by rw [collectTo, hf]]
      exact .failed hf
    · have hc' : answer w c' = answer w c := hkeep found rfl
      obtain ⟨hnodup, hfound⟩ :=
        Answers.follow_found (fun _ _ h => hc.name_of_answer h) hfst.symm
      have hnew : ∀ m ∈ found.map Resource.name, m ∈ all ∧ m ∉ known := by
        intro m hm
        obtain ⟨s, hs, rfl⟩ := List.mem_map.1 hm
        obtain ⟨hfresh, -, ref, href, hcand⟩ := hfound s hs
        exact ⟨hr (List.mem_flatMap.2 ⟨ref, href, hcand⟩), hfresh⟩
      have hless := length_unseen_append hnodup hnew
      rw [collectTo_of_follow_ok hf]
      refine .onward hf (walks_collectTo all n _ _ c' hsound (fun name s h => ?_) (fun s hs => ?_) ?_)
      · exact hanswer name s (by rwa [hc'] at h)
      · rcases List.mem_append.1 hs with hs | hs
        · exact hwaiting s hs
        · exact hanswer s.name s (hfound s hs).2.1
      · rw [List.length_map] at hless
        rw [List.length_cons] at hn
        rw [List.length_append]
        omega

/-- **Every walk ends, and `collectFrom` is where it ends.** -/
theorem walks_collectFrom (hc : c.IsSound) (w : World) (known : List String)
    (start : List Resource) :
    Walks w known start c (c.collectFrom w known start).1 (c.collectFrom w known start).2 := by
  refine walks_collectTo ((start.map Resource.source ++ c.reachableTexts w).flatMap namesIn) _ known
    start c hc (fun name r h => ?_) (fun r hr => ?_) ?_
  · exact fun n hn => List.mem_flatMap.2 ⟨_, List.mem_append_right _ (source_of_answer h), hn⟩
  · exact fun n hn => List.mem_flatMap.2
      ⟨_, List.mem_append_left _ (List.mem_map_of_mem hr), hn⟩
  · exact Nat.add_le_add_left (List.length_filter_le _ _) _

end Chain

end QueryPress
