import QueryPress.Proofs.Disk.Reading

/-!
# Proofs/Disk/Writing — what is seen after a file was written over

Writing over a file changes what stands at its place and nothing else: every path leads where it led
before (`place_overwrite`), and only the paths that lead to the file see another one
(`entry_overwrite`).  In general a disk on which no directory is new leads nowhere that the old one did
not lead (`walk_of_directories`).
-/

namespace QueryPress

namespace Disk

variable {d d' : Disk} {at_ r : Place} {bytes old : ByteArray} {t time : Instant}

theorem lookup_put (h : at_ ≠ []) (e : Entry) (q : Place) :
    Disk.entry? (d.put at_ e) q = if q = at_ then some e else d.entry? q := by
  unfold entry? put
  by_cases hq : q = []
  · subst hq
    rw [if_pos rfl, if_neg (Ne.symm h), if_pos rfl]
  · rw [if_neg hq]
    by_cases hqa : q = at_
    · subst hqa
      rw [List.lookup_cons_self, if_pos rfl]
    · rw [List.lookup_cons, beq_false_of_ne hqa, if_neg hqa]
      induction d.entries with
      | nil => simp [hq]
      | cons p rest ih =>
        simp only [hq, if_false] at ih ⊢
        obtain ⟨k, b⟩ := p
        by_cases hk : k = at_
        · subst hk
          simpa [List.lookup_cons, beq_false_of_ne hqa] using ih
        · by_cases hqk : q = k
          · subst hqk
            simp [hqa]
          · simpa [hk, List.lookup_cons, beq_false_of_ne hqk] using ih

/-- A file that is written over leads nowhere else. -/
theorem walk_put (h : d.entry? at_ = some (.file old t)) :
    ∀ (ss : List String) (q : Place), (d.put at_ (.file bytes time)).walk q ss = d.walk q ss
  | [], q => rfl
  | s :: ss, q => by
    have hne : at_ ≠ [] := by
      rintro rfl
      unfold Disk.entry? at h
      simp at h
    rw [walk, walk, lookup_put hne, walk_put h ss, walk_put h ss, walk_put h ss]
    by_cases hq : q = at_
    · subst hq
      rw [if_pos rfl, h]
    · rw [if_neg hq]

/-- **Without new directories there is no new way.** -/
theorem walk_of_directories
    (h : ∀ q, d'.entry? q = some .directory → d.entry? q = some .directory) :
    ∀ {ss : List String} {q : Place}, d'.walk q ss = .ok r → d.walk q ss = .ok r
  | [], _, hwalk => hwalk
  | s :: ss, q, hwalk => by
    rw [walk] at hwalk ⊢
    split at hwalk
    · cases hwalk
    · cases hwalk
    · rename_i hq
      rw [h q hq]
      dsimp only
      split
      · rw [if_pos ‹_›] at hwalk
        exact walk_of_directories h hwalk
      · rw [if_neg ‹_›] at hwalk
        split
        · rw [if_pos ‹_›] at hwalk
          exact walk_of_directories h hwalk
        · rw [if_neg ‹_›] at hwalk
          exact walk_of_directories h hwalk

end Disk

namespace World

variable {w w' : World} {p q : Path} {at_ : Place} {bytes old : ByteArray} {t time : Instant}

/-- Without new directories there is no new way for a path. -/
theorem place_of_directories {d d' : Disk}
    (hdirs : ∀ q, d'.entry? q = some .directory → d.entry? q = some .directory)
    (h : World.place { w with disk := d' } p = .ok at_) :
    World.place { w with disk := d } p = .ok at_ := by
  unfold place start at h ⊢
  split at h
  · cases h
  · rw [if_neg ‹_›]
    exact Disk.walk_of_directories hdirs h

/-- **To write a file** is to put it at a place where no directory is. -/
theorem writeAt_eq_ok (h : w.writeAt p bytes time = .ok w') :
    ∃ at_, w.place p = .ok at_ ∧ at_ ≠ [] ∧ w.disk.entry? at_ ≠ some .directory ∧
      w.disk.entry? at_.dropLast = some .directory ∧
      w' = { w with disk := w.disk.put at_ (.file bytes time) } := by
  obtain ⟨at_, hp, h⟩ := bind_eq_ok.1 h
  split at h
  · cases h
  · rename_i hdir hd
    refine ⟨at_, hp, ?_, hd, hdir, (Except.ok.inj h).symm⟩
    rintro rfl
    exact hd rfl
  · cases h
  · cases h

/-- **To write over a file** is to put other bytes and another time at its place. -/
theorem overwrite_eq_ok (hfile : w.entry p = .ok (.file old t))
    (h : w.writeAt p bytes time = .ok w') :
    ∃ at_, w.place p = .ok at_ ∧ at_ ≠ [] ∧ w.disk.entry? at_ = some (.file old t) ∧
      w' = { w with disk := w.disk.put at_ (.file bytes time) } := by
  obtain ⟨at_, hp, hne, -, -, hw'⟩ := writeAt_eq_ok h
  obtain ⟨place, hplace, hentry⟩ := entry_eq_ok.1 hfile
  obtain rfl := Except.ok.inj (hp.symm.trans hplace)
  exact ⟨at_, hp, hne, hentry, hw'⟩

theorem place_overwrite (hfile : w.entry p = .ok (.file old t))
    (h : w.writeAt p bytes time = .ok w') (q : Path) : w'.place q = w.place q := by
  obtain ⟨at_, -, -, hentry, rfl⟩ := overwrite_eq_ok hfile h
  unfold place start
  rw [Disk.walk_put hentry]

/-- **What stands at a path after a file was written over** — the new file where the path leads to
the same place, and elsewhere what stood there before. -/
theorem entry_overwrite (hfile : w.entry p = .ok (.file old t))
    (h : w.writeAt p bytes time = .ok w') (q : Path) :
    (w.place q ≠ w.place p ∧ w'.entry q = w.entry q) ∨
      (w.place q = w.place p ∧ w.entry q = .ok (.file old t) ∧
        w'.entry q = .ok (.file bytes time)) := by
  have hplace := place_overwrite hfile h q
  obtain ⟨at_, hp, hne, hentry, rfl⟩ := overwrite_eq_ok hfile h
  rw [hp]
  cases hq : w.place q with
  | error e =>
    refine .inl ⟨by simp, ?_⟩
    rw [hq] at hplace
    simp [entry, hplace, hq, bind, Except.bind]
  | ok place =>
    rw [hq] at hplace
    by_cases heq : place = at_
    · subst heq
      refine .inr ⟨rfl, ?_, ?_⟩
      · simp [entry, hq, hentry, bind, Except.bind]
      · simp [entry, hplace, Disk.lookup_put hne, bind, Except.bind]
    · refine .inl ⟨by simpa using heq, ?_⟩
      simp [entry, hplace, hq, Disk.lookup_put hne, heq, bind, Except.bind]

/-- The same paths lead to files. -/
theorem isFile_overwrite (hfile : w.entry p = .ok (.file old t))
    (h : w.writeAt p bytes time = .ok w') (q : Path) : w'.isFile q = w.isFile q := by
  obtain ⟨-, hq⟩ | ⟨-, hq, hq'⟩ := entry_overwrite hfile h q
  · rw [isFile, isFile, hq]
  · rw [isFile, isFile, hq, hq']

/-- The only text that is new is the one that was written. -/
theorem texts_overwrite (hfile : w.entry p = .ok (.file old t))
    (h : w.writeAt p bytes time = .ok w') :
    ∀ text ∈ w'.texts, String.fromUTF8? bytes = some text ∨ text ∈ w.texts := by
  obtain ⟨at_, -, -, -, rfl⟩ := overwrite_eq_ok hfile h
  intro text htext
  obtain ⟨⟨place, e⟩, hmem, he⟩ := List.mem_filterMap.1 htext
  rcases List.mem_cons.1 hmem with heq | hmem
  · obtain ⟨rfl, rfl⟩ := Prod.mk.inj heq
    exact .inl he
  · exact .inr (List.mem_filterMap.2 ⟨_, (List.mem_filter.1 hmem).1, he⟩)

end World

end QueryPress
