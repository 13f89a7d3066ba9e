import QueryPress.Proofs.Disk.Beside

/-!
# Proofs/Disk/Denoting — two spellings of one file

Two paths *denote* the same if they are written out from the root with the same steps: a `.` more or
less, or a slash more or less, makes no difference.  What a path leads to, its steps lead to
(`IsRooted.walk_steps`); the other way round a segment that stays needs a directory to stay in, which is
there if the path goes on to a name behind it (`IsRooted.place_of_walk_steps`).  So where one spelling
finds a file, every spelling finds it that ends in a name (`isFile_of_denotes`).
-/

namespace QueryPress

namespace Disk

variable {d : Disk} {q r : Place} {s : String} {ss : List String}

/-- A walk takes its first segment in a directory. -/
theorem directory_of_walk (h : d.walk q (s :: ss) = .ok r) : d.entry? q = some .directory := by
  rw [walk] at h
  split at h
  · cases h
  · cases h
  · assumption

/-- To stay in a directory is to go on from it. -/
theorem walk_cons_of_isStay (hs : Path.isStay s = true) (hq : d.entry? q = some .directory) :
    d.walk q (s :: ss) = d.walk q ss := by
  simp [walk, hq, hs]

/-- **The steps of a walk lead where it leads.** -/
theorem walk_filter : ∀ {ss : List String} {q : Place}, d.walk q ss = .ok r →
    d.walk q (ss.filter (! Path.isStay ·)) = .ok r
  | [], _, h => h
  | s :: ss, q, h => by
    have hq := directory_of_walk h
    by_cases hs : Path.isStay s = true
    · rw [walk_cons_of_isStay hs hq] at h
      rw [List.filter_cons_of_neg (by simp [hs])]
      exact walk_filter h
    · rw [List.filter_cons_of_pos (by simp [hs])]
      simp only [walk, hq, if_neg hs] at h ⊢
      split <;> rename_i hup
      · rw [if_pos hup] at h
        exact walk_filter h
      · rw [if_neg hup] at h
        exact walk_filter h

/-- **A walk that ends in a name leads where its steps lead.** -/
theorem walk_of_filter {name : String} (hname : Path.isStay name = false) :
    ∀ {ss : List String} {q : Place}, ss.getLast? = some name →
      d.walk q (ss.filter (! Path.isStay ·)) = .ok r → d.walk q ss = .ok r
  | [], _, hlast, _ => by cases hlast
  | s :: ss, q, hlast, h => by
    by_cases hs : Path.isStay s = true
    · -- behind a segment that stays comes a name, and it is looked for in a directory
      have hne : ss ≠ [] := by
        rintro rfl
        obtain rfl : s = name := by simpa using hlast
        rw [hs] at hname
        cases hname
      rw [List.getLast?_cons_of_ne_nil hne] at hlast
      rw [List.filter_cons_of_neg (by simp [hs])] at h
      have hin : name ∈ ss.filter (! Path.isStay ·) :=
        List.mem_filter.2 ⟨List.mem_of_getLast? hlast, by simp [hname]⟩
      obtain ⟨t, ts, hsteps⟩ := List.exists_cons_of_ne_nil (List.ne_nil_of_mem hin)
      have hq : d.entry? q = some .directory := directory_of_walk (hsteps ▸ h)
      rw [walk_cons_of_isStay hs hq]
      exact walk_of_filter hname hlast h
    · rw [List.filter_cons_of_pos (by simp [hs])] at h
      have hq := directory_of_walk h
      by_cases hne : ss = []
      · rwa [hne] at h ⊢
      · rw [List.getLast?_cons_of_ne_nil hne] at hlast
        simp only [walk, hq, if_neg hs] at h ⊢
        split <;> rename_i hup
        · rw [if_pos hup] at h
          exact walk_of_filter hname hlast h
        · rw [if_neg hup] at h
          exact walk_of_filter hname hlast h

/-- **On a tree the names of a directory lead to it.** -/
theorem IsTree.walk_straight (h : d.IsTree) : ∀ {ss : List String} {q : Place},
    (∀ s ∈ ss, Path.isStay s = false ∧ s ≠ "..") → d.entry? (q ++ ss) = some .directory →
      d.walk q ss = .ok (q ++ ss)
  | [], q, _, _ => by simp [walk]
  | s :: ss, q, hss, hdir => by
    obtain ⟨⟨hstay, hup⟩, hss⟩ := List.forall_mem_cons.1 hss
    have hq : d.entry? q = some .directory :=
      h.directory_of_below rfl (by rw [hdir]; simp) (List.cons_ne_nil s ss)
    have happ : q ++ s :: ss = q ++ [s] ++ ss := by simp
    rw [happ] at hdir ⊢
    simp only [walk, hq, hstay, hup, Bool.false_eq_true, if_false]
    exact h.walk_straight hss hdir

end Disk

namespace World

variable {w w' : World} {p q : Path} {at_ : Place} {name : String}

/-- **Two paths denote the same** — written out from the root they have the same steps. -/
def Denotes (w : World) (p q : Path) : Prop := (w.absolute p).steps = (w.absolute q).steps

instance : Decidable (w.Denotes p q) := inferInstanceAs (Decidable (_ = _))

theorem Denotes.congr (h : w.Denotes p q) (hcwd : w'.workingDirectory = w.workingDirectory) :
    w'.Denotes p q := by
  rwa [Denotes, absolute_congr hcwd, absolute_congr hcwd]

/-- The steps of an absolute path are those behind its first slash. -/
theorem steps_of_isAbsolute (hp : p.isAbsolute = true) :
    p.steps = (p.segments.drop 1).filter (! Path.isStay ·) := by
  obtain ⟨s, ss, hsegments⟩ := Path.segments_of_isAbsolute hp
  rw [Path.steps, hsegments]
  rfl

theorem IsRooted.congr (hw : w.IsRooted) (hcwd : w'.workingDirectory = w.workingDirectory) :
    w'.IsRooted := ⟨hcwd ▸ hw.absolute, hcwd ▸ hw.straight⟩

theorem IsRooted.isAbsolute (hw : w.IsRooted) (p : Path) : (w.absolute p).isAbsolute = true := by
  unfold World.absolute
  split
  · assumption
  · exact Path.isAbsolute_join hw.absolute

/-- The directory a program works in is where its steps lead. -/
theorem IsRooted.straight_steps (hw : w.IsRooted) :
    ∀ s ∈ w.workingDirectory.steps, Path.isStay s = false ∧ s ≠ ".." := by
  intro s hs
  obtain ⟨hin, hstay⟩ := List.mem_filter.1 hs
  exact ⟨by simpa using hstay, fun heq => hw.straight (heq ▸ hin)⟩

/-- **What a path leads to, its steps lead to** when it is written out from the root. -/
theorem IsRooted.walk_steps (hw : w.IsRooted) (htree : w.disk.IsTree) (h : w.place p = .ok at_) :
    w.disk.walk [] (w.absolute p).steps = .ok at_ := by
  unfold place at h
  split at h
  · cases h
  · rw [World.absolute, start] at *
    cases habs : p.isAbsolute with
    | true =>
      rw [habs] at h
      simpa [steps_of_isAbsolute habs] using Disk.walk_filter h
    | false =>
      rw [habs] at h
      simp only [Bool.false_eq_true, if_false] at h ⊢
      obtain ⟨s, ss, hsegments⟩ := List.exists_cons_of_ne_nil (Path.segments_ne_nil p)
      have hdir : w.disk.entry? ([] ++ w.workingDirectory.steps) = some .directory :=
        Disk.directory_of_walk (hsegments ▸ h)
      rw [Path.steps_join habs, Disk.walk_append, htree.walk_straight hw.straight_steps hdir]
      exact Disk.walk_filter h

/-- **A path that ends in a name leads where its steps lead** when it is written out from the root. -/
theorem IsRooted.place_of_walk_steps (hw : w.IsRooted) (hends : p.EndsIn name)
    (hname : Path.isStay name = false) (h : w.disk.walk [] (w.absolute p).steps = .ok at_) :
    w.place p = .ok at_ := by
  have hp : p ≠ "" := by
    rintro rfl
    obtain rfl : "" = name := by simpa [Path.EndsIn, Path.segments, Path.split] using hends
    cases hname
  have habs := hw.isAbsolute p
  have hends : (w.absolute p).EndsIn name := by
    unfold World.absolute
    split
    · exact hends
    · exact Path.endsIn_join.2 hends
  obtain ⟨s, ss, hsegments⟩ := Path.segments_of_isAbsolute habs
  refine place_of_absolute hw hp ?_
  have hne := Path.ne_empty_of_isAbsolute habs
  rw [steps_of_isAbsolute habs] at h
  rw [Path.EndsIn, hsegments, List.getLast?_cons_cons] at hends
  simp only [place, start, habs, beq_false_of_ne hne, Bool.false_eq_true, if_false, if_true]
  rw [hsegments] at h ⊢
  exact Disk.walk_of_filter hname hends h

/-- **Where one spelling finds a file, every spelling finds it** that ends in a name. -/
theorem isFile_of_denotes (htree : w.disk.IsTree) (hw : w.IsRooted) (hends : q.EndsIn name)
    (hname : Path.isStay name = false) (hd : w.Denotes p q) (hp : w.isFile p = true) :
    w.isFile q = true := by
  obtain ⟨bytes, t, hentry⟩ := isFile_iff.1 hp
  obtain ⟨at_, hplace, hfile⟩ := entry_eq_ok.1 hentry
  have hplace' := hw.place_of_walk_steps hends hname (hd ▸ hw.walk_steps htree hplace)
  exact isFile_iff.2 ⟨bytes, t, entry_eq_ok.2 ⟨at_, hplace', hfile⟩⟩

end World

end QueryPress
