import QueryPress.Proofs.Disk.Writing

/-!
# Proofs/Disk/Changing — files that are written later and later, or deleted

`Rewrites` says of two worlds that no file came up from one to the other but with a time later than
all that was known, and no directory.  A file that is written, new or not, and one that is deleted are
the ways to get from one world to such another, because they make no directory
(`entry_of_directories`).
-/

namespace QueryPress

namespace Disk

variable {d d' : Disk} {at_ q r : Place} {e : Entry}

theorem lookup_filter {β : Type} (keep : Place → Bool) (q : Place) : ∀ l : List (Place × β),
    (l.filter fun p => keep p.1).lookup q = if keep q then l.lookup q else none
  | [] => by simp
  | (k, b) :: l => by
    have ih := lookup_filter keep q l
    by_cases hk : keep k = true
    · rw [List.filter_cons_of_pos (by simpa using hk), List.lookup_cons, List.lookup_cons, ih]
      by_cases hq : q = k
      · subst hq
        simp [hk]
      · simp [beq_false_of_ne hq]
    · rw [List.filter_cons_of_neg (by simpa using hk), ih, List.lookup_cons]
      by_cases hq : q = k
      · subst hq
        simp [hk]
      · simp [beq_false_of_ne hq]

/-- A place that was cleared has nothing at it or below it. -/
theorem entry?_clear (at_ q : Place) :
    Disk.entry? (d.clear at_) q = if q ≠ [] ∧ at_ <+: q then none else d.entry? q := by
  unfold entry? clear
  by_cases hq : q = []
  · simp [hq]
  · rw [if_neg hq, if_neg hq, lookup_filter (fun k => ! at_.isPrefixOf k)]
    by_cases hp : at_ <+: q
    · simp [hq, hp, List.isPrefixOf_iff_prefix.2 hp]
    · have hnot : at_.isPrefixOf q = false :=
        Bool.eq_false_iff.2 fun h => hp (List.isPrefixOf_iff_prefix.1 h)
      simp [hp, hnot]

theorem directory_of_clear (h : Disk.entry? (d.clear at_) q = some .directory) :
    d.entry? q = some .directory := by
  rw [entry?_clear] at h
  split at h
  · cases h
  · exact h

theorem directory_of_put {bytes : ByteArray} {t : Instant} (hne : at_ ≠ [])
    (h : Disk.entry? (d.put at_ (.file bytes t)) q = some .directory) :
    d.entry? q = some .directory := by
  rw [lookup_put hne] at h
  split at h
  · cases h
  · exact h

end Disk

namespace World

variable {w w' : World} {p q : Path} {bytes : ByteArray} {t time latest latest' : Instant} {d : Disk}
  {e : Disk.Entry}

/-- **What is seen on a disk without new directories** is seen at a place that the path led to before. -/
theorem entry_of_directories
    (hdirs : ∀ q, d.entry? q = some .directory → w.disk.entry? q = some .directory)
    (h : World.entry { w with disk := d } p = .ok e) :
    ∃ at_, w.place p = .ok at_ ∧ d.entry? at_ = some e := by
  obtain ⟨at_, hplace, he⟩ := entry_eq_ok.1 h
  exact ⟨at_, place_of_directories hdirs hplace, he⟩

/-- **To delete a file** is to clear its place. -/
theorem removeFile_eq_ok (h : w.removeFile p = .ok w') :
    ∃ at_ bytes t, w.place p = .ok at_ ∧ w.disk.entry? at_ = some (.file bytes t) ∧
      w' = { w with disk := w.disk.clear at_ } := by
  obtain ⟨at_, hp, h⟩ := bind_eq_ok.1 h
  split at h
  · cases h
  · cases h
  · rename_i bytes t hfile
    exact ⟨at_, bytes, t, hp, hfile, (Except.ok.inj h).symm⟩

/-! ## Files that come up -/

/-- No file has a later time. -/
def IsDatedBy (w : World) (latest : Instant) : Prop :=
  ∀ p bytes t, w.entry p = .ok (.file bytes t) → t ≤ latest

theorem isDatedBy_of_entries
    (h : ∀ q bytes t, (q, .file bytes t) ∈ w.disk.entries → t ≤ latest) : w.IsDatedBy latest := by
  intro p bytes t hp
  obtain ⟨at_, -, he⟩ := entry_eq_ok.1 hp
  unfold Disk.entry? at he
  split at he
  · cases he
  · obtain ⟨l₁, l₂, hl, -⟩ := List.lookup_eq_some_iff.1 he
    exact h at_ bytes t (by simp [hl])

/-- **Files have been written and deleted** — every file was there before or has a time later than
`latest` and not later than `latest'`, and every directory was there before. -/
structure Rewrites (latest : Instant) (w : World) (latest' : Instant) (w' : World) : Prop where
  le : latest ≤ latest'
  file : ∀ {p bytes t}, w'.entry p = .ok (.file bytes t) →
    w.entry p = .ok (.file bytes t) ∨ (latest < t ∧ t ≤ latest')
  directory : ∀ {p}, w'.entry p = .ok .directory → w.entry p = .ok .directory

theorem IsDatedBy.rewrites (h : w.IsDatedBy latest) (hw : Rewrites latest w latest' w') :
    w'.IsDatedBy latest' := by
  intro p bytes t hp
  rcases hw.file hp with hp | ⟨-, hle⟩
  · exact Nat.le_trans (h p bytes t hp) hw.le
  · exact hle

/-- **A file is written**, where there was one or not. -/
theorem rewrites_write (hlater : latest < time) (h : w.writeAt p bytes time = .ok w') :
    Rewrites latest w time w' := by
  obtain ⟨at_, -, hne, -, -, rfl⟩ := writeAt_eq_ok h
  have hdirs : ∀ q, Disk.entry? (w.disk.put at_ (.file bytes time)) q = some .directory →
      w.disk.entry? q = some .directory := fun q => Disk.directory_of_put hne
  refine ⟨Nat.le_of_lt hlater, fun {q bytes' t'} hq => ?_, fun {q} hq => ?_⟩
  · obtain ⟨place, hplace, he⟩ := entry_of_directories hdirs hq
    rw [Disk.lookup_put hne] at he
    split at he
    · obtain ⟨rfl, rfl⟩ : bytes = bytes' ∧ time = t' := by simpa using he
      exact .inr ⟨hlater, Nat.le_refl _⟩
    · exact .inl (entry_eq_ok.2 ⟨place, hplace, he⟩)
  · obtain ⟨place, hplace, he⟩ := entry_of_directories hdirs hq
    exact entry_eq_ok.2 ⟨place, hplace, hdirs place he⟩

/-- **A file is deleted.** -/
theorem rewrites_remove (latest : Instant) (h : w.removeFile p = .ok w') :
    Rewrites latest w latest w' := by
  obtain ⟨at_, -, -, -, -, rfl⟩ := removeFile_eq_ok h
  have hdirs : ∀ q, Disk.entry? (w.disk.clear at_) q = some .directory →
      w.disk.entry? q = some .directory := fun q => Disk.directory_of_clear
  have hold : ∀ {q e}, World.entry { w with disk := w.disk.clear at_ } q = .ok e →
      w.entry q = .ok e := by
    intro q e hq
    obtain ⟨place, hplace, he⟩ := entry_of_directories hdirs hq
    rw [Disk.entry?_clear] at he
    split at he
    · cases he
    · exact entry_eq_ok.2 ⟨place, hplace, he⟩
  exact ⟨Nat.le_refl _, fun h => .inl (hold h), hold⟩

end World

end QueryPress
