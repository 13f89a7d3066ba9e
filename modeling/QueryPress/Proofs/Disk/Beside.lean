import QueryPress.Proofs.Disk.Filing

/-!
# Proofs/Disk/Beside — two worlds that differ in one file

Two worlds are *beside* each other at a place if they are alike but for the file that stands there, or
does not.  A walk comes to a file only with its last segment, so a path that ends in another name does
not lead there, however it is spelled (`endsIn_of_place`), and finds the same in both worlds
(`Beside.entry_eq_ok`).
-/

namespace QueryPress

namespace Path

variable {dir p : Path} {name : String}

/-- **A path ends in a name** if that is its last segment. -/
def EndsIn (p : Path) (name : String) : Prop := p.segments.getLast? = some name

instance : Decidable (p.EndsIn name) := inferInstanceAs (Decidable (_ = _))

/-- Where a path is seen from makes no difference to how it ends. -/
theorem endsIn_join : EndsIn (dir.join p) name ↔ EndsIn p name := by
  by_cases hp : p.isAbsolute = true
  · rw [join_of_isAbsolute hp]
  · have hrel : p.isAbsolute = false := by simpa using hp
    by_cases hdir : dir = ""
    · simp [hdir, join, hrel]
    · obtain ⟨front, hjoin, -⟩ := segments_join hdir hrel
      rw [EndsIn, EndsIn, hjoin, List.getLast?_append,
        List.getLast?_eq_some_getLast (segments_ne_nil p), Option.some_or]

end Path

namespace Disk

variable {d : Disk} {home : Place} {name : String}

/-- **A walk comes to a file with its last segment.** -/
theorem IsTree.getLast?_of_walk (h : d.IsTree) (hat : d.entry? (home ++ [name]) ≠ some .directory) :
    ∀ {ss : List String} {q : Place}, ss ≠ [] → d.walk q ss = .ok (home ++ [name]) →
      ss.getLast? = some name
  | [], _, hne, _ => absurd rfl hne
  | s :: ss, q, _, hwalk => by
    rw [walk] at hwalk
    split at hwalk
    · cases hwalk
    · cases hwalk
    · rename_i hq
      by_cases hss : ss = []
      · subst hss
        simp only [walk] at hwalk
        split at hwalk
        · exact absurd (Except.ok.inj hwalk ▸ hq) hat
        · split at hwalk
          · -- the directory above a directory is no file
            have hup : q.dropLast = home ++ [name] := Except.ok.inj hwalk
            have hne : q ≠ [] := by
              rintro rfl
              simp at hup
            exact absurd (hup ▸ h q hne (by simp [hq])) hat
          · have hstep : q ++ [s] = home ++ [name] := Except.ok.inj hwalk
            simp [(List.append_singleton_inj.1 hstep).2]
      · rw [List.getLast?_cons_of_ne_nil hss]
        split at hwalk
        · exact h.getLast?_of_walk hat hss hwalk
        · split at hwalk <;> exact h.getLast?_of_walk hat hss hwalk

end Disk

namespace World

variable {v w : World} {home : Place} {name : String} {p : Path} {e : Disk.Entry}

/-- **Only a path that ends in its name leads to a file.** -/
theorem endsIn_of_place (htree : w.disk.IsTree)
    (hat : w.disk.entry? (home ++ [name]) ≠ some .directory) (h : w.place p = .ok (home ++ [name])) :
    p.EndsIn name := by
  unfold place at h
  split at h
  · cases h
  · cases habs : p.isAbsolute with
    | false => exact htree.getLast?_of_walk hat (Path.segments_ne_nil p) (by simpa [habs] using h)
    | true =>
      obtain ⟨s, ss, hsegments⟩ := Path.segments_of_isAbsolute habs
      rw [Path.EndsIn, hsegments, List.getLast?_cons_cons]
      exact htree.getLast?_of_walk hat (List.cons_ne_nil s ss) (by simpa [habs, hsegments] using h)

/-- **Two worlds are beside each other** — they are alike but for the file at a place. -/
structure Beside (at_ : Place) (v w : World) : Prop where
  tree : v.disk.IsTree
  tree' : w.disk.IsTree
  entries : ∀ q, q ≠ at_ → w.disk.entry? q = v.disk.entry? q
  file : v.disk.entry? at_ ≠ some .directory
  file' : w.disk.entry? at_ ≠ some .directory
  workingDirectory : w.workingDirectory = v.workingDirectory
  home : w.home = v.home
  now : w.now = v.now
  outside : w.outside = v.outside

theorem Beside.symm {at_ : Place} (h : Beside at_ v w) : Beside at_ w v where
  tree := h.tree'
  tree' := h.tree
  entries q hq := (h.entries q hq).symm
  file := h.file'
  file' := h.file
  workingDirectory := h.workingDirectory.symm
  home := h.home.symm
  now := h.now.symm
  outside := h.outside.symm

/-- Worlds that are beside each other stay so while a template is merged. -/
theorem Beside.later {at_ : Place} (h : Beside at_ v w) (asked : Nat) :
    Beside at_ (v.later asked) (w.later asked) where
  tree := h.tree
  tree' := h.tree'
  entries := h.entries
  file := h.file
  file' := h.file'
  workingDirectory := h.workingDirectory
  home := h.home
  now := by rw [World.later, World.later, h.now, h.outside]
  outside := h.outside

theorem Beside.directory {at_ q : Place} (h : Beside at_ v w)
    (hq : v.disk.entry? q = some .directory) : w.disk.entry? q = some .directory := by
  by_cases hat : q = at_
  · exact absurd (hat ▸ hq) h.file
  · rw [h.entries q hat, hq]

theorem Beside.entry_eq_ok (h : Beside (home ++ [name]) v w) (hp : ¬ p.EndsIn name)
    (he : v.entry p = .ok e) : w.entry p = .ok e := by
  obtain ⟨q, hplace, hq⟩ := World.entry_eq_ok.1 he
  have hne : q ≠ home ++ [name] := fun heq => hp (endsIn_of_place h.tree h.file (heq ▸ hplace))
  refine World.entry_eq_ok.2 ⟨q, ?_, by rw [h.entries q hne, hq]⟩
  unfold place start at hplace ⊢
  split at hplace
  · cases hplace
  · rw [if_neg ‹_›, h.workingDirectory]
    exact Disk.walk_of_directories (fun q => h.directory) hplace

/-- What a path that ends in another name finds, or it finds nothing in either world. -/
theorem Beside.entry_cases (h : Beside (home ++ [name]) v w) (hp : ¬ p.EndsIn name) :
    (∃ e, v.entry p = .ok e ∧ w.entry p = .ok e) ∨
      ∃ x x', v.entry p = .error x ∧ w.entry p = .error x' := by
  cases hv : v.entry p with
  | ok e => exact .inl ⟨e, rfl, h.entry_eq_ok hp hv⟩
  | error x =>
    cases hw : w.entry p with
    | ok e => rw [h.symm.entry_eq_ok hp hw] at hv; cases hv
    | error x' => exact .inr ⟨x, x', rfl, rfl⟩

theorem Beside.isFile (h : Beside (home ++ [name]) v w) (hp : ¬ p.EndsIn name) :
    w.isFile p = v.isFile p := by
  obtain ⟨e, hv, hw⟩ | ⟨x, x', hv, hw⟩ := h.entry_cases hp <;> simp only [World.isFile, hv, hw]

theorem Beside.modified (h : Beside (home ++ [name]) v w) (hp : ¬ p.EndsIn name) :
    (∃ t, v.modified p = .ok t ∧ w.modified p = .ok t ∧ w.readText p = v.readText p) ∨
      ∃ x x', v.modified p = .error x ∧ w.modified p = .error x' := by
  obtain ⟨e, hv, hw⟩ | ⟨x, x', hv, hw⟩ := h.entry_cases hp
  · have htext : w.readText p = v.readText p := by simp only [readText, readBytes, hv, hw]
    cases e with
    | directory =>
      exact .inl ⟨v.now, by simp [World.modified, hv, bind, Except.bind],
        by simp [World.modified, hw, h.now, bind, Except.bind], htext⟩
    | file bytes t => exact .inl ⟨t, modified_of_entry hv, modified_of_entry hw, htext⟩
  · exact .inr ⟨x, x', by simp [World.modified, hv, bind, Except.bind],
      by simp [World.modified, hw, bind, Except.bind]⟩

/-- **A file that is written where nothing stood** makes a world beside the old one. -/
theorem IsHome.beside {dir : Path} {body : String} {disk : Disk} {serial : Nat} (h : v.IsHome dir home)
    (hfree : v.disk.entry? (home ++ [name]) = none)
    (hwritten : World.IsHome { v with disk, serial } dir home)
    (hentry : ∀ q, disk.entry? q
      = if q = home ++ [name] then some (.file body.toUTF8 v.now) else v.disk.entry? q) :
    Beside (home ++ [name]) v { v with disk, serial } where
  tree := h.tree
  tree' := hwritten.tree
  entries q hq := by rw [hentry, if_neg hq]
  file := by simp [hfree]
  file' := by simp [hentry]
  workingDirectory := rfl
  home := rfl
  now := rfl
  outside := rfl

end World

end QueryPress
