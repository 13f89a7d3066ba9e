import QueryPress.Proofs.Disk.Writing

/-!
# Proofs/Disk/Leading — where joined paths lead

A path below a directory is the directory's path, opened with a slash, and the rest: so joining is
associative (`join_join`), and the segments and the file name of a joined path are what one expects.
A program sees the same places whether it writes a path out from the root or not
(`place_of_absolute`), and what it has written to a path stands there (`entry_of_writeAt`).
-/

namespace QueryPress

namespace Path

variable {a b p name : Path}

/-! ## A directory opened with a slash -/

/-- The path of a directory with a slash behind it; the empty path is open already. -/
def opened (base : Path) : Path :=
  if base == "" || base.toList.getLast? == some '/' then base else base ++ "/"

theorem join_eq (hp : p.isAbsolute = false) : a.join p = opened a ++ p := by
  rw [join, hp, if_neg Bool.false_ne_true, opened]
  split <;> rfl

/-- What is open is empty or ends with a slash. -/
theorem opened_cases (a : Path) :
    (a = "" ∧ opened a = "") ∨ ∃ front : String, opened a = front ++ "/" ∧
      (a = front ∨ a = front ++ "/") := by
  unfold opened
  by_cases ha : a = ""
  · exact .inl ⟨ha, by simp [ha]⟩
  · refine .inr ?_
    by_cases hslash : a.toList.getLast? = some '/'
    · obtain ⟨front, hfront⟩ := List.getLast?_eq_some_iff.1 hslash
      have heq : a = String.ofList front ++ "/" := by
        apply String.toList_inj.1
        rw [hfront, String.toList_append, String.toList_ofList]
        rfl
      exact ⟨String.ofList front, by simpa [hslash] using heq, .inr heq⟩
    · exact ⟨a, by simp [ha, hslash], .inl rfl⟩

theorem opened_append (ha : a = "" ∨ ∃ front : String, a = front ++ "/") :
    opened (a ++ b) = a ++ opened b := by
  by_cases hb : b = ""
  · subst hb
    rcases ha with rfl | ⟨front, rfl⟩
    · rfl
    · simp [opened]
  · have hlast : (a ++ b).toList.getLast? = b.toList.getLast? := by
      have hne : b.toList ≠ [] := by simpa using hb
      rw [String.toList_append, List.getLast?_append, List.getLast?_eq_some_getLast hne]
      rfl
    unfold opened
    rw [hlast]
    split <;> simp_all [String.append_assoc]

/-- **Joining is associative.** -/
theorem join_join {c : Path} (hb : b.isAbsolute = false) (hc : c.isAbsolute = false)
    (hbc : (b.join c).isAbsolute = false) : (a.join b).join c = a.join (b.join c) := by
  have ha : opened a = "" ∨ ∃ front : String, opened a = front ++ "/" := by
    rcases opened_cases a with ⟨-, h⟩ | ⟨front, h, -⟩
    · exact .inl h
    · exact .inr ⟨front, h⟩
  rw [join_eq hc, join_eq hbc, join_eq hb, join_eq hc, opened_append ha, String.append_assoc]

/-! ## Segments of a joined path -/

theorem split_ne_nil : ∀ cs : List Char, split cs ≠ []
  | [] => by simp [split]
  | c :: cs => by
    rw [split]
    split
    · simp
    · split <;> simp

theorem split_append (cs : List Char) : ∀ front : List Char,
    split (front ++ '/' :: cs) = split front ++ split cs
  | [] => by simp [split]
  | c :: front => by
    have ih := split_append cs front
    rw [List.cons_append, split, split, ih]
    split
    · rfl
    · cases hs : split front with
      | nil => exact absurd hs (split_ne_nil front)
      | cons s ss => rfl

theorem split_of_not_mem : ∀ {cs : List Char}, '/' ∉ cs → split cs = [cs]
  | [], _ => rfl
  | c :: cs, h => by
    obtain ⟨hc, hcs⟩ : c ≠ '/' ∧ '/' ∉ cs := by
      rw [List.mem_cons] at h
      exact ⟨fun heq => h (.inl heq.symm), fun hin => h (.inr hin)⟩
    rw [split, if_neg hc, split_of_not_mem hcs]

theorem segments_ne_nil (p : Path) : p.segments ≠ [] := by
  simpa [segments] using split_ne_nil p.toList

theorem segments_of_not_mem (h : '/' ∉ p.toList) : segments p = [p] := by
  rw [segments, split_of_not_mem h, List.map_singleton, String.ofList_toList]

theorem segments_slash (front p : String) :
    segments (front ++ "/" ++ p) = segments front ++ segments p := by
  have hlist : (front ++ "/" ++ p).toList = front.toList ++ '/' :: p.toList := by
    rw [String.toList_append, String.toList_append, List.append_assoc]
    rfl
  rw [segments, hlist, split_append, List.map_append]
  rfl

/-- **The segments of joined paths** — those of the directory, but for an empty last one, and then those
of whatever is joined to it. -/
theorem exists_segments_join (ha : a ≠ "") :
    ∃ front, (∀ p : Path, p.isAbsolute = false → segments (a.join p) = front ++ segments p) ∧
      (segments a = front ∨ segments a = front ++ [""]) := by
  rcases opened_cases a with ⟨hempty, -⟩ | ⟨front, hopen, hor⟩
  · exact absurd hempty ha
  · refine ⟨segments front, fun p hp => by rw [join_eq hp, hopen, segments_slash], ?_⟩
    rcases hor with rfl | rfl
    · exact .inl rfl
    · have hslash := segments_slash front ""
      rw [String.append_empty] at hslash
      exact .inr hslash

theorem segments_join (ha : a ≠ "") (hp : p.isAbsolute = false) :
    ∃ front, segments (a.join p) = front ++ segments p ∧
      (segments a = front ∨ segments a = front ++ [""]) := by
  obtain ⟨front, hjoin, hor⟩ := exists_segments_join ha
  exact ⟨front, hjoin p hp, hor⟩

theorem steps_join (hp : p.isAbsolute = false) : (a.join p).steps = a.steps ++ p.steps := by
  by_cases ha : a = ""
  · subst ha
    simp [join, hp]
    rfl
  · obtain ⟨front, hjoin, hor⟩ := segments_join ha hp
    rw [steps, steps, steps, hjoin, List.filter_append]
    rcases hor with hor | hor <;> rw [hor]
    rw [List.filter_append]
    simp [isStay]

/-- A name without a slash that goes down is the file name of every path that ends with it. -/
theorem fileName?_join (hname : segments name = [name]) (hstay : isStay name = false)
    (hup : name ≠ "..") (hp : isAbsolute name = false) : (a.join name).fileName? = some name := by
  have hsteps : steps name = [name] := by simp [steps, hname, hstay]
  rw [fileName?, steps_join hp, hsteps, List.getLast?_concat]
  split
  · simp_all
  · rfl

/-- The first segment of an absolute path is empty, and it is not the only one. -/
theorem segments_of_isAbsolute (ha : a.isAbsolute = true) :
    ∃ s ss, segments a = "" :: s :: ss := by
  have hhead : a.toList.head? = some '/' := by simpa [isAbsolute] using ha
  obtain ⟨cs, hcs⟩ := List.head?_eq_some_iff.1 hhead
  obtain ⟨s, ss, hs⟩ := List.exists_cons_of_ne_nil (split_ne_nil cs)
  exact ⟨String.ofList s, ss.map String.ofList, by simp [segments, hcs, split, hs]⟩

theorem ne_empty_of_isAbsolute (ha : a.isAbsolute = true) : a ≠ "" := by
  rintro rfl
  cases ha

/-- An absolute path goes on beginning with an empty segment without a slash at its end. -/
theorem front_of_isAbsolute {front : List String} (ha : a.isAbsolute = true)
    (hor : segments a = front ∨ segments a = front ++ [""]) : ∃ rest, front = "" :: rest := by
  obtain ⟨s, ss, hsegments⟩ := segments_of_isAbsolute ha
  rcases hor with hor | hor <;> rw [hsegments] at hor
  · exact ⟨_, hor.symm⟩
  · cases front with
    | nil => simp at hor
    | cons t ts => exact ⟨ts, by rw [List.cons_append] at hor; rw [(List.cons.inj hor).1]⟩

theorem isAbsolute_join (ha : a.isAbsolute = true) : (a.join p).isAbsolute = true := by
  by_cases hp : p.isAbsolute = true
  · rwa [join_of_isAbsolute hp]
  · rw [join_eq (by simpa using hp)]
    have hhead : a.toList.head? = some '/' := by simpa [isAbsolute] using ha
    have hopen : (opened a).toList.head? = some '/' := by
      unfold opened
      split
      · exact hhead
      · rw [String.toList_append, List.head?_append, hhead]
        rfl
    rw [isAbsolute, String.toList_append, List.head?_append, hopen]
    rfl

theorem not_isAbsolute_join (ha : a.isAbsolute = false) (hp : p.isAbsolute = false) :
    (a.join p).isAbsolute = false := by
  rw [join_eq hp]
  by_cases hempty : a = ""
  · subst hempty
    simpa [opened] using hp
  · have hne : a.toList ≠ [] := by simpa using hempty
    have hopen : (opened a).toList.head? = a.toList.head? := by
      unfold opened
      split
      · rfl
      · rw [String.toList_append, List.head?_append, List.head?_eq_some_head hne]
        rfl
    rw [isAbsolute, String.toList_append, List.head?_append, hopen, List.head?_eq_some_head hne]
    simpa [isAbsolute, List.head?_eq_some_head hne] using ha

end Path

/-! ## Places -/

namespace Disk

variable {d : Disk} {at_ q r : Place} {ss ts : List String} {bytes : ByteArray} {time : Instant}

theorem walk_append : ∀ (ss : List String) (q : Place),
    d.walk q (ss ++ ts) = (d.walk q ss).bind (d.walk · ts)
  | [], q => rfl
  | s :: ss, q => by
    rw [List.cons_append, walk, walk]
    cases d.entry? q with
    | none => rfl
    | some e =>
      cases e with
      | file => rfl
      | directory =>
        dsimp only
        split
        · exact walk_append ss q
        · split <;> exact walk_append ss _

/-- A walk that never goes up ends where its steps lead. -/
theorem eq_of_walk : ∀ {ss : List String} {q : Place}, ".." ∉ ss → d.walk q ss = .ok r →
    r = q ++ ss.filter (! Path.isStay ·)
  | [], q, _, h => by
    obtain rfl : q = r := by simpa [walk] using h
    simp
  | s :: ss, q, hup, h => by
    obtain ⟨hs, hss⟩ : s ≠ ".." ∧ ".." ∉ ss := by
      rw [List.mem_cons] at hup
      exact ⟨fun heq => hup (.inl heq.symm), fun hin => hup (.inr hin)⟩
    rw [walk] at h
    split at h
    · cases h
    · cases h
    · by_cases hstay : Path.isStay s = true
      · rw [if_pos hstay] at h
        rw [eq_of_walk hss h, List.filter_cons_of_neg (by simp [hstay])]
      · rw [if_neg hstay, if_neg hs] at h
        rw [eq_of_walk hss h, List.filter_cons_of_pos (by simp [hstay]), List.append_assoc]
        rfl

end Disk

namespace World

variable {w w' : World} {p : Path} {at_ : Place} {bytes : ByteArray} {time : Instant}

theorem absolute_congr (hcwd : w'.workingDirectory = w.workingDirectory) (p : Path) :
    w'.absolute p = w.absolute p := by
  rw [World.absolute, World.absolute, hcwd]

/-- **The directory a program works in is written out from the root**, and does not go up. -/
structure IsRooted (w : World) : Prop where
  absolute : w.workingDirectory.isAbsolute = true
  straight : ".." ∉ w.workingDirectory.segments

/-- **A path leads where it leads when it is written out from the root.** -/
theorem place_of_absolute (hw : w.IsRooted) (hp : p ≠ "") (h : w.place (w.absolute p) = .ok at_) :
    w.place p = .ok at_ := by
  unfold World.absolute at h
  split at h
  · exact h
  · rename_i habs
    have hrel : p.isAbsolute = false := by simpa using habs
    have hjoinabs := Path.isAbsolute_join (p := p) hw.absolute
    obtain ⟨front, hjoin, hor⟩ := Path.segments_join (Path.ne_empty_of_isAbsolute hw.absolute) hrel
    obtain ⟨front, rfl⟩ := Path.front_of_isAbsolute hw.absolute hor
    have hsteps : w.workingDirectory.steps = front.filter (! Path.isStay ·) := by
      rw [Path.steps]
      rcases hor with hor | hor <;> simp [hor, Path.isStay]
    have hup : ".." ∉ front := by
      have hstraight := hw.straight
      rcases hor with hor | hor <;> rw [hor] at hstraight
      · exact fun hin => hstraight (List.mem_cons_of_mem _ hin)
      · exact fun hin => hstraight (List.mem_append_left _ (List.mem_cons_of_mem _ hin))
    have hjoinne := Path.ne_empty_of_isAbsolute hjoinabs
    simp only [place, start, hjoinabs, hjoin, beq_false_of_ne hjoinne, if_true, List.cons_append,
      List.drop_succ_cons, List.drop_zero, Bool.false_eq_true, if_false] at h
    simp only [place, start, hrel, beq_false_of_ne hp, Bool.false_eq_true, if_false]
    rw [Disk.walk_append] at h
    obtain ⟨r, hwalk, h⟩ := bind_eq_ok.1 h
    rwa [hsteps, ← List.nil_append (List.filter _ front), ← Disk.eq_of_walk hup hwalk]

/-- **What has been written to a path stands there.** -/
theorem entry_of_writeAt (h : w.writeAt p bytes time = .ok w') :
    w'.workingDirectory = w.workingDirectory ∧ ∃ at_, w'.place p = .ok at_ ∧
      w'.disk.entry? at_ = some (.file bytes time) := by
  obtain ⟨at_, hp, hne, hd, -, rfl⟩ := writeAt_eq_ok h
  refine ⟨rfl, at_, place_of_directories (fun q hq => ?_) hp, by rw [Disk.lookup_put hne, if_pos rfl]⟩
  have hother : q ≠ at_ := fun heq => hd (heq ▸ hq)
  rw [Disk.lookup_put hne, if_neg hother, hq]

end World

end QueryPress
