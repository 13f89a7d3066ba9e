import QueryPress.Proofs.Disk.Leading
import QueryPress.Proofs.Resource.Holdings

/-!
# Proofs/Resource/Confinement — what a loader finds lies below one of its directories

A loader checks a name when it looks for its file, and never again: a copy is handed out and a file is
read again under the path that was found first.  So what is to hold is a property of the resources
themselves: a resource is *confined* if its name stays below a directory and its path is one of the
loader's directories with that name behind it (`Resource.IsConfined`).  This is a regular property
(`isRegular_isConfined`), and the file of a confined resource stands below the directory
(`IsConfined.place_eq`).  A loader whose copies are confined has nothing under any other name, whatever
stands on the disk (`Chain.find_of_not_staysBelow`).
-/

namespace QueryPress

namespace Path

variable {cs s : List Char} {n a p : String}

/-! ## Names that stay below a directory -/

/-- A name goes up if one of the pieces between its slashes is `..`. -/
def GoesUp (n : String) : Prop :=
  ∃ front back, n.toList = front ++ ['.', '.'] ++ back ∧
    (front = [] ∨ ∃ f, front = f ++ ['/']) ∧ (back = [] ∨ ∃ b, back = '/' :: b)

/-- **A name that stays below a directory** — it is not empty, has no root, and nowhere goes up. -/
structure StaysBelow (n : String) : Prop where
  ne_empty : n ≠ ""
  noRoot : n.toList.head? ≠ some '/'
  straight : ¬ GoesUp n

/-- The first piece of a text has no slash, and behind it the text ends or goes on with a slash. -/
theorem of_split_eq_cons {ss : List (List Char)} (h : split cs = s :: ss) :
    '/' ∉ s ∧ (cs = s ∧ ss = [] ∨ ∃ back, cs = s ++ '/' :: back ∧ ss = split back) := by
  induction cs generalizing s with
  | nil =>
    obtain ⟨rfl, rfl⟩ := List.cons.inj h
    simp
  | cons c cs ih =>
    rw [split] at h
    split at h
    · rename_i hc
      obtain ⟨rfl, rfl⟩ := List.cons.inj h
      exact ⟨by simp, .inr ⟨cs, by rw [hc]; rfl, rfl⟩⟩
    · rename_i hc
      obtain ⟨t, ts, hts⟩ := List.exists_cons_of_ne_nil (split_ne_nil cs)
      rw [hts] at h
      obtain ⟨rfl, rfl⟩ := List.cons.inj h
      obtain ⟨hslash, hrest⟩ := ih hts
      refine ⟨fun hin => (List.mem_cons.1 hin).elim (fun heq => hc heq.symm) hslash, ?_⟩
      rcases hrest with ⟨rfl, rfl⟩ | ⟨back, rfl, rfl⟩
      · exact .inl ⟨rfl, rfl⟩
      · exact .inr ⟨back, rfl, rfl⟩

/-- **A piece of a text** has no slash, and stands between slashes or at an end. -/
theorem mem_split_iff : s ∈ split cs ↔ '/' ∉ s ∧ ∃ front back, cs = front ++ s ++ back ∧
    (front = [] ∨ ∃ f, front = f ++ ['/']) ∧ (back = [] ∨ ∃ b, back = '/' :: b) := by
  constructor
  · intro h
    -- a piece is the first one or a piece of what stands behind the first slash
    induction hlen : cs.length using Nat.strongRecOn generalizing cs with
    | ind len ih =>
      obtain ⟨t, ts, hts⟩ := List.exists_cons_of_ne_nil (split_ne_nil cs)
      obtain ⟨hslash, hrest⟩ := of_split_eq_cons hts
      rw [hts] at h
      rcases List.mem_cons.1 h with rfl | h
      · refine ⟨hslash, [], ?_⟩
        rcases hrest with ⟨rfl, -⟩ | ⟨back, rfl, -⟩
        · exact ⟨[], by simp, .inl rfl, .inl rfl⟩
        · exact ⟨'/' :: back, by simp, .inl rfl, .inr ⟨back, rfl⟩⟩
      · rcases hrest with ⟨-, rfl⟩ | ⟨rest, rfl, rfl⟩
        · cases h
        · obtain ⟨hs, front, back, rfl, hfront, hback⟩ :=
            ih rest.length (by simp [← hlen]; omega) h rfl
          refine ⟨hs, t ++ '/' :: front, back, by simp, .inr ?_, hback⟩
          rcases hfront with rfl | ⟨f, rfl⟩
          · exact ⟨t, rfl⟩
          · exact ⟨t ++ '/' :: f, by simp⟩
  · rintro ⟨hs, front, back, rfl, hfront, hback⟩
    have hin : s ∈ split (s ++ back) := by
      rcases hback with rfl | ⟨b, rfl⟩
      · simp [split_of_not_mem hs]
      · simp [split_append, split_of_not_mem hs]
    rcases hfront with rfl | ⟨f, rfl⟩
    · exact hin
    · have heq : f ++ ['/'] ++ s ++ back = f ++ '/' :: (s ++ back) := by simp
      rw [heq, split_append]
      exact List.mem_append_right _ hin

theorem goesUp_iff : GoesUp n ↔ ".." ∈ segments n := by
  have hmem : ".." ∈ segments n ↔ ['.', '.'] ∈ split n.toList := by
    constructor
    · intro h
      obtain ⟨s, hs, heq⟩ := List.mem_map.1 h
      obtain rfl : s = ['.', '.'] := by simpa using congrArg String.toList heq
      exact hs
    · exact fun h => List.mem_map.2 ⟨_, h, rfl⟩
  rw [hmem, mem_split_iff, GoesUp]
  exact (and_iff_right (by decide)).symm

/-- **The check of a name** says whether the name stays below a directory. -/
theorem isConfined_iff : isConfined n = true ↔ StaysBelow n := by
  simp only [isConfined, isAbsolute, Bool.and_eq_true, bne_iff_ne, Bool.not_eq_true',
    beq_eq_false_iff_ne, List.contains_eq_mem, decide_eq_false_iff_not, ← goesUp_iff, and_assoc]
  constructor
  · rintro ⟨hne, hroot, hup⟩
    exact ⟨hne, hroot, hup⟩
  · intro h
    exact ⟨h.ne_empty, h.noRoot, h.straight⟩

end Path

/-! ## Where the file of a name stands -/

/-- **Where joined paths lead** — first to the directory, and from there on. -/
theorem World.exists_place_join (w : World) (directory : Path) :
    ∃ start front, ∀ n : Path, n ≠ "" → n.isAbsolute = false →
      w.place (directory.join n) = w.disk.walk start (front ++ n.segments) := by
  by_cases hempty : directory = ""
  · refine ⟨w.workingDirectory.steps, [], fun n hne hrel => ?_⟩
    have hjoin : directory.join n = n := by simp [hempty, Path.join, hrel]
    simp [World.place, hjoin, World.start, hrel, hne]
  · obtain ⟨front, hjoin, hor⟩ := Path.exists_segments_join hempty
    refine ⟨w.start directory, if directory.isAbsolute then front.drop 1 else front,
      fun n hne hrel => ?_⟩
    have hjoinne : directory.join n ≠ "" := by
      rw [Path.join_eq hrel]
      exact fun heq => hne (String.append_eq_empty_iff.1 heq).2
    cases habs : directory.isAbsolute with
    | true =>
      obtain ⟨front, rfl⟩ := Path.front_of_isAbsolute habs hor
      simp [World.place, World.start, hjoinne, Path.isAbsolute_join habs, habs, hjoin n hrel]
    | false =>
      simp [World.place, World.start, hjoinne, Path.not_isAbsolute_join habs hrel, habs, hjoin n hrel]

/-- **Below a directory** — a name that stays below a directory leads from it to where the steps of the
name lead. -/
theorem World.place_join {w : World} {directory n : Path} {at_ : Place}
    (hn : Path.isConfined n = true) (h : w.place (directory.join n) = .ok at_) :
    ∃ base, w.place (directory.join ".") = .ok base ∧ at_ = base ++ n.steps := by
  simp only [Path.isConfined, Bool.and_eq_true, bne_iff_ne, Bool.not_eq_true',
    List.contains_eq_mem, decide_eq_false_iff_not] at hn
  obtain ⟨⟨hne, hrel⟩, hup⟩ := hn
  obtain ⟨start, front, hplace⟩ := w.exists_place_join directory
  rw [hplace n hne hrel, Disk.walk_append] at h
  obtain ⟨base, hbase, hrest⟩ := bind_eq_ok.1 h
  refine ⟨base, ?_, Disk.eq_of_walk hup hrest⟩
  -- a walk that goes on from somewhere has come to a directory there
  have hstay : w.disk.walk base ["."] = .ok base := by
    obtain ⟨s, ss, hsegments⟩ := List.exists_cons_of_ne_nil (Path.segments_ne_nil n)
    rw [hsegments, Disk.walk] at hrest
    rw [Disk.walk]
    split at hrest
    · cases hrest
    · cases hrest
    · rfl
  rw [hplace "." (by decide) rfl, Disk.walk_append]
  exact bind_eq_ok.2 ⟨base, hbase, hstay⟩

/-! ## Confined resources -/

/-- **A resource is confined** by the settings of a loader — its name stays below a directory, and its
path is one of the loader's directories with the name behind it. -/
structure Resource.IsConfined (settings : LoaderSettings) (r : Resource) : Prop where
  name : Path.StaysBelow r.name
  path : ∃ directory ∈ settings.paths, r.path = directory.join r.name

variable {w : World} {settings : LoaderSettings} {r : Resource}

/-- **The file of a confined resource stands below the directory**, wherever that is. -/
theorem Resource.IsConfined.place_eq (h : r.IsConfined settings) :
    ∃ directory ∈ settings.paths, r.path = directory.join r.name ∧
      ∀ (w : World) (at_ : Place), w.place r.path = .ok at_ →
        ∃ base, w.place (directory.join ".") = .ok base ∧ base <+: at_ := by
  obtain ⟨directory, hin, hpath⟩ := h.path
  refine ⟨directory, hin, hpath, fun w at_ hplace => ?_⟩
  rw [hpath] at hplace
  obtain ⟨base, hbase, rfl⟩ := World.place_join (Path.isConfined_iff.2 h.name) hplace
  exact ⟨base, hbase, List.prefix_append base _⟩

/-- **What is found is confined, and so is what is read again.** -/
theorem Resource.isRegular_isConfined (w : World) : Trait.IsRegular w Resource.IsConfined where
  found {l n path r} hloc hread := by
    rw [Loader.locate?] at hloc
    split at hloc
    · rename_i hn
      obtain ⟨directory, hin, hpath⟩ := List.mem_map.1 (List.mem_of_find?_eq_some hloc)
      rw [(Loader.read_eq_ok hread).2]
      exact ⟨Path.isConfined_iff.1 hn, directory, hin, hpath.symm⟩
    · cases hloc
  reread {l s r} hs hread := by
    rw [(Loader.read_eq_ok hread).2]
    exact ⟨hs.name, hs.path⟩

/-! ## Names that lead out -/

namespace Loader

variable {l : Loader} {n : String}

/-- A loader whose copies are confined has none under a name that leads out. -/
theorem Keeps.get?_eq_none (hs : l.IsSound) (hk : l.Keeps Resource.IsConfined)
    (hn : ¬ Path.StaysBelow n) : Table.get? l.copies n = none := by
  cases hcopy : Table.get? l.copies n with
  | none => rfl
  | some y =>
    have hname := (hk n y hcopy).name
    rw [hs.name_eq hcopy] at hname
    exact absurd hname hn

/-- **A loader has nothing under a name that leads out**, and does not look at the disk for it. -/
theorem load_of_not_staysBelow (hs : l.IsSound) (hk : l.Keeps Resource.IsConfined)
    (hn : ¬ Path.StaysBelow n) : l.load w n = (.ok none, l.evict n) := by
  have hcopy : l.copy? n = none := by simp [copy?, hk.get?_eq_none hs hn]
  have hloc : l.locate? w n = none := by simp [locate?, mt Path.isConfined_iff.1 hn]
  rw [load, hcopy, search, hloc]

/-- **A loader has nothing later of a text in memory** whose name leads out. -/
theorem fst_refresh_of_not_staysBelow (hs : l.IsSound) (hk : l.Keeps Resource.IsConfined)
    (hr : r.IsGiven) (hn : ¬ Path.StaysBelow r.name) : (l.refresh w r).1 = .ok none := by
  obtain ⟨-, hl⟩ | ⟨-, -, hl⟩ | ⟨-, -, hl⟩ := refresh_cases w l r <;> rw [hl]
  · simp [copy?, hk.get?_eq_none hs hn]
  · rw [reread, hr.modified]

end Loader

namespace Chain

variable {n : String}

/-- **A chain has nothing under a name that leads out** — whatever stands on the disk, every loader
says so, and forgets the name. -/
theorem find_of_not_staysBelow (hn : ¬ Path.StaysBelow n) : ∀ {c : Chain}, c.IsSound →
    Keeps Resource.IsConfined c → find w n c = (.ok none, c.evict n)
  | [], _, _ => rfl
  | l :: ls, hs, hk => by
    obtain ⟨hl, hls⟩ := List.forall_mem_cons.1 hs
    obtain ⟨hkl, hkls⟩ := List.forall_mem_cons.1 hk
    rw [find, Loader.load_of_not_staysBelow hl hkl hn]
    dsimp only
    rw [find_of_not_staysBelow hn hls hkls]
    rfl

theorem fst_refresh_of_not_staysBelow (hr : r.IsGiven) (hn : ¬ Path.StaysBelow r.name) :
    ∀ {c : Chain}, c.IsSound → Keeps Resource.IsConfined c → (refresh w r c).1 = .ok none
  | [], _, _ => rfl
  | l :: ls, hs, hk => by
    obtain ⟨hl, hls⟩ := List.forall_mem_cons.1 hs
    obtain ⟨hkl, hkls⟩ := List.forall_mem_cons.1 hk
    obtain ⟨-, hf⟩ | ⟨-, hf⟩ := refresh_cons w r l ls <;> rw [hf]
    · rw [Loader.fst_refresh_of_not_staysBelow hl hkl hr hn]
      rfl
    · exact fst_refresh_of_not_staysBelow hr hn hls hkls

end Chain

end QueryPress
