import QueryPress.Proofs.Resource.Following

/-!
# Proofs/Resource/Walk — how far a walk through references comes

A walk takes the text that has waited longest, follows its references, and lets what is found wait
behind the others.  `Reaches` says how far it comes: what is done and what still waits.  Whatever it
has reached bears a name of its own and was referred to by an earlier text, and the references of all
that is done are settled; there is only one way to go on, so what a finished walk has reached
includes every earlier stage (`Reaches.prefix_of_finished`).
-/

namespace QueryPress.Answers

/-- **How far a walk comes** from the texts of `start`, where the names in `given` are known beside
those of the texts it reaches. -/
inductive Reaches (A : Answers) (given : List String) (start : List Resource) :
    (done waiting : List Resource) → Prop
  | start : Reaches A given start [] start
  | onward {done waiting found : List Resource} {r : Resource} :
      Reaches A given start done (r :: waiting) →
      A.follow (given ++ (done ++ r :: waiting).map Resource.name) (Reference.ofText r.source)
        = .ok found →
      Reaches A given start (done ++ [r]) (waiting ++ found)

variable {A : Answers} {given : List String} {start done waiting done' waiting' : List Resource}
  {members : List Resource}

namespace Reaches

/-! ## What has been reached -/

/-- The texts a walk starts with come first. -/
theorem prefix_start (h : Reaches A given start done waiting) : start <+: done ++ waiting := by
  induction h with
  | start => simp
  | @onward done waiting found r _ _ ih => exact ih.trans ⟨found, by simp⟩

/-- **Every name is reached once.** -/
theorem nodup (hA : A.IsNamed) (hstart : (start.map Resource.name).Nodup)
    (h : Reaches A given start done waiting) : ((done ++ waiting).map Resource.name).Nodup := by
  induction h with
  | start => simpa using hstart
  | @onward done waiting found r _ hf ih =>
    obtain ⟨hnodup, hmem⟩ := follow_found hA hf
    have hnew : ∀ n ∈ (done ++ r :: waiting).map Resource.name,
        ∀ m ∈ found.map Resource.name, n ≠ m := by
      rintro n hn m hm rfl
      obtain ⟨s, hs, hname⟩ := List.mem_map.1 hm
      exact (hmem s hs).1 (List.mem_append_right _ (hname ▸ hn))
    have happ : done ++ [r] ++ (waiting ++ found) = (done ++ r :: waiting) ++ found := by simp
    rw [happ, List.map_append]
    exact List.nodup_append.2 ⟨ih, hnodup, hnew⟩

/-- **What is reached beyond the start was referred to by an earlier text**, is the answer to its own
name, and was not known before. -/
theorem comes (hA : A.IsNamed) (h : Reaches A given start done waiting) :
    ∀ r ∈ done ++ waiting, r ∈ start ∨ ∃ earlier, earlier ++ [r] <+: done ++ waiting ∧
      (∃ s ∈ earlier, ∃ ref ∈ Reference.ofText s.source, r.name ∈ ref.candidates) ∧
      A r.name = .ok (some r) ∧ r.name ∉ given := by
  induction h with
  | start => exact fun r hr => .inl (by simpa using hr)
  | @onward done waiting found s _ hf ih =>
    have happ : done ++ [s] ++ (waiting ++ found) = (done ++ s :: waiting) ++ found := by simp
    rw [happ]
    intro r hr
    rcases List.mem_append.1 hr with hr | hr
    · refine (ih r hr).imp id ?_
      rintro ⟨earlier, hpre, hrest⟩
      exact ⟨earlier, hpre.trans (List.prefix_append _ _), hrest⟩
    · obtain ⟨front, back, rfl⟩ := List.append_of_mem hr
      obtain ⟨hnew, hans, ref, href, hcand⟩ := (follow_found hA hf).2 r hr
      refine .inr ⟨(done ++ s :: waiting) ++ front, ⟨back, by simp⟩, ?_, hans, ?_⟩
      · exact ⟨s, by simp, ref, href, hcand⟩
      · exact fun hg => hnew (List.mem_append_left _ hg)

/-- **The references of all that is done are settled** by what is known and what is reached. -/
theorem settled (hA : A.IsNamed) (h : Reaches A given start done waiting) :
    ∀ r ∈ done, ∀ ref ∈ Reference.ofText r.source,
      A.Settles (given ++ (done ++ waiting).map Resource.name) ref := by
  induction h with
  | start => simp
  | @onward done waiting found s _ hf ih =>
    have happ : done ++ [s] ++ (waiting ++ found) = (done ++ s :: waiting) ++ found := by simp
    rw [happ]
    intro r hr ref href
    rcases List.mem_append.1 hr with hr | hr
    · refine (ih r hr ref href).mono fun n hn => ?_
      rw [List.map_append, ← List.append_assoc]
      exact List.mem_append_left _ hn
    · obtain rfl : r = s := by simpa using hr
      refine (follow_settled hA hf ref href).mono fun n hn => ?_
      rw [List.map_append, ← List.append_assoc]
      exact List.mem_append.2 (List.mem_append.1 hn).symm

/-! ## There is one way to go on -/

theorem unique (h : Reaches A given start done waiting)
    (h' : Reaches A given start done' waiting') (hlen : done.length = done'.length) :
    done = done' ∧ waiting = waiting' := by
  induction h generalizing done' waiting' with
  | start =>
    cases h' with
    | start => exact ⟨rfl, rfl⟩
    | onward => simp at hlen
  | onward _ hf ih =>
    cases h' with
    | start => simp at hlen
    | onward h' hf' =>
      obtain ⟨rfl, hcons⟩ := ih h' (by simpa using hlen)
      obtain ⟨rfl, rfl⟩ := List.cons.inj hcons
      obtain rfl := Except.ok.inj (hf.symm.trans hf')
      exact ⟨rfl, rfl⟩

theorem length_le_of_finished (h : Reaches A given start done waiting)
    (hm : Reaches A given start members []) : done.length ≤ members.length := by
  induction h with
  | start => simp
  | onward h _ ih =>
    have hne : _ ≠ members.length := fun heq => by simpa using (h.unique hm heq).2
    rw [List.length_append, List.length_singleton]
    omega

theorem prefix_of_le (h' : Reaches A given start done' waiting')
    (h : Reaches A given start done waiting) (hlen : done.length ≤ done'.length) :
    done ++ waiting <+: done' ++ waiting' := by
  induction h' with
  | start =>
    obtain ⟨rfl, rfl⟩ := h.unique .start (Nat.le_zero.1 hlen)
    exact List.prefix_refl _
  | @onward d wt found r h' hf ih =>
    rcases Nat.lt_or_ge d.length done.length with hlt | hge
    · have heq : done.length = (d ++ [r]).length := by
        rw [List.length_append, List.length_singleton] at hlen ⊢
        omega
      obtain ⟨rfl, rfl⟩ := h.unique (h'.onward hf) heq
      exact List.prefix_refl _
    · exact (ih hge).trans ⟨found, by simp⟩

/-- **A finished walk has reached all that was reached on the way.** -/
theorem prefix_of_finished (h : Reaches A given start done waiting)
    (hm : Reaches A given start members []) : done ++ waiting <+: members := by
  simpa using hm.prefix_of_le h (h.length_le_of_finished hm)

end Reaches

end QueryPress.Answers
