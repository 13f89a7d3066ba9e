import QueryPress.Proofs.Disk.Changing
import QueryPress.Proofs.Disk.Leading

/-!
# Proofs/Disk/Filing — files that come and go in one directory

A directory that a path leads to goes on being there while files are written into it and deleted from
it (`IsHome.write`, `IsHome.delete`), and each of these changes what stands at one place in it and
nothing else.  A file gets a name that no file in the directory has (`exists_freeNumber?`): of more
names than there are files one is free.

All this holds on a disk that is a tree, where whatever stands below a place stands in directories.
-/

namespace QueryPress

namespace Disk

variable {d : Disk} {at_ q : Place} {bytes : ByteArray} {t : Instant}

/-- **A disk is a tree** — whatever stands somewhere stands in a directory. -/
def IsTree (d : Disk) : Prop :=
  ∀ q, q ≠ [] → d.entry? q ≠ none → d.entry? q.dropLast = some .directory

theorem isTree_of_entries
    (h : ∀ entry ∈ d.entries, d.entry? entry.1.dropLast = some .directory) : d.IsTree := by
  intro q hq hthere
  cases he : d.entry? q with
  | none => exact absurd he hthere
  | some e =>
    unfold entry? at he
    rw [if_neg hq] at he
    obtain ⟨l₁, l₂, hl, -⟩ := List.lookup_eq_some_iff.1 he
    exact h (q, e) (by simp [hl])

/-- Whatever something stands below is a directory. -/
theorem IsTree.directory_of_below (h : d.IsTree) : ∀ {n : Nat} {ss : List String}, ss.length = n →
    d.entry? (at_ ++ ss) ≠ none → ss ≠ [] → d.entry? at_ = some .directory
  | 0, ss, hn, _, hne => absurd (List.length_eq_zero_iff.1 hn) hne
  | n + 1, ss, hn, hthere, hne => by
    obtain ⟨front, last, rfl⟩ := List.eq_nil_or_concat ss |>.resolve_left hne
    have hparent := h _ (by simp) hthere
    rw [List.concat_eq_append, ← List.append_assoc, List.dropLast_concat] at hparent
    by_cases hfront : front = []
    · simpa [hfront] using hparent
    · refine h.directory_of_below (n := n) (by simpa using hn) ?_ hfront
      rw [hparent]
      simp

/-- Nothing stands below a file, or below a place where nothing stands. -/
theorem IsTree.eq_of_prefix (h : d.IsTree) (hat : d.entry? at_ ≠ some .directory)
    (hthere : d.entry? q ≠ none) (hpre : at_ <+: q) : q = at_ := by
  obtain ⟨ss, rfl⟩ := hpre
  by_cases hss : ss = []
  · simp [hss]
  · exact absurd (h.directory_of_below rfl hthere hss) hat

/-- **What stands where after a file was deleted** — nothing at its place, and elsewhere what stood
there. -/
theorem IsTree.entry?_clear (h : d.IsTree) (hat : d.entry? at_ = some (.file bytes t)) (q : Place) :
    Disk.entry? (d.clear at_) q = if q = at_ then none else d.entry? q := by
  have hne : at_ ≠ [] := by
    rintro rfl
    unfold entry? at hat
    simp at hat
  rw [Disk.entry?_clear]
  by_cases hq : q = at_
  · subst hq
    simp [hne]
  · rw [if_neg hq]
    split
    · rename_i hbelow
      by_cases hthere : d.entry? q = none
      · exact hthere.symm
      · exact absurd (h.eq_of_prefix (by simp [hat]) hthere hbelow.2) hq
    · rfl

theorem IsTree.put (h : d.IsTree) (hat : d.entry? at_ ≠ some .directory)
    (hin : d.entry? at_.dropLast = some .directory) : (d.put at_ (.file bytes t)).IsTree := by
  have hne : at_ ≠ [] := by
    rintro rfl
    exact hat rfl
  intro q hq hthere
  rw [lookup_put hne] at hthere ⊢
  by_cases heq : q = at_
  · subst heq
    have hself : q.dropLast ≠ q := fun heq => by
      rw [heq] at hin
      exact hat hin
    rw [if_neg hself, hin]
  · rw [if_neg heq] at hthere
    have hparent := h q hq hthere
    have hother : q.dropLast ≠ at_ := fun heq => hat (heq ▸ hparent)
    rw [if_neg hother, hparent]

theorem IsTree.clear (h : d.IsTree) (hat : d.entry? at_ = some (.file bytes t)) :
    (d.clear at_).IsTree := by
  intro q hq hthere
  rw [h.entry?_clear hat] at hthere ⊢
  split at hthere
  · exact absurd rfl hthere
  · have hparent := h q hq hthere
    have hother : q.dropLast ≠ at_ := fun heq => by
      rw [heq, hat] at hparent
      cases hparent
    rw [if_neg hother, hparent]

/-- **What was put where nothing stood is cleared away without a trace.** -/
theorem IsTree.clear_put (h : d.IsTree) (hne : at_ ≠ []) (hnone : d.entry? at_ = none) (e : Entry) :
    Disk.clear (d.put at_ e) at_ = d := by
  have habove : ∀ p ∈ d.entries, ¬ at_ <+: p.1 := by
    intro p hp hpre
    by_cases hnil : p.1 = []
    · exact hne (List.prefix_nil.1 (hnil ▸ hpre))
    · have hthere : d.entry? p.1 ≠ none := by
        unfold entry?
        rw [if_neg hnil]
        exact fun hlookup => by simpa using List.lookup_eq_none_iff.1 hlookup p hp
      have heq := h.eq_of_prefix (by simp [hnone]) hthere hpre
      exact hthere (heq ▸ hnone)
  have hother : d.entries.filter (·.1 != at_) = d.entries := List.filter_eq_self.2 fun p hp => by
    rw [bne_iff_ne]
    rintro rfl
    exact habove p hp List.prefix_rfl
  have hkept : d.entries.filter (! at_.isPrefixOf ·.1) = d.entries :=
    List.filter_eq_self.2 fun p hp => by
      rw [Bool.not_eq_true', ← Bool.not_eq_true, List.isPrefixOf_iff_prefix]
      exact habove p hp
  have hself : at_.isPrefixOf at_ = true := List.isPrefixOf_iff_prefix.2 List.prefix_rfl
  unfold Disk.clear Disk.put
  rw [hother, List.filter_cons_of_neg (by simp [hself]), hkept]

end Disk

namespace World

variable {w w' : World} {dir : Path} {home q : Place} {name : String} {p : Path}

/-- **A path leads to a directory** on a disk that is a tree. -/
structure IsHome (w : World) (dir : Path) (home : Place) : Prop where
  tree : w.disk.IsTree
  place : w.place dir = .ok home
  directory : w.disk.entry? home = some .directory

/-- A name is plain if it is one segment that goes down. -/
structure IsName (name : String) : Prop where
  segments : Path.segments name = [name]
  goes : Path.isStay name = false
  down : name ≠ ".."
  relative : Path.isAbsolute name = false

/-- To take a name in a directory is to walk on from it; a slash behind the directory changes nothing. -/
theorem IsHome.walk_name (h : w.IsHome dir home) (hn : IsName name) {from_ : Place}
    {front : List String}
    (hor : w.disk.walk from_ front = .ok home ∨ w.disk.walk from_ (front ++ [""]) = .ok home) :
    w.disk.walk from_ (front ++ [name]) = .ok (home ++ [name]) := by
  have hfront : w.disk.walk from_ front = .ok home := by
    rcases hor with hfront | hslash
    · exact hfront
    · rw [Disk.walk_append] at hslash
      obtain ⟨r, hwalk, hslash⟩ := bind_eq_ok.1 hslash
      rw [hwalk]
      simp only [Disk.walk] at hslash
      split at hslash
      · cases hslash
      · cases hslash
      · simpa [Path.isStay] using hslash
  rw [Disk.walk_append, hfront]
  simp [Except.bind, Disk.walk, h.directory, hn.goes, hn.down]

/-- To look for a name in a directory is to walk to the directory, with or without the slash behind it,
and on by the name. -/
theorem exists_walk_join (w : World) (dir : Path) : ∃ from_ front,
    (∀ name, IsName name → w.place (dir.join name) = w.disk.walk from_ (front ++ [name])) ∧
    (dir ≠ "" → w.place dir = w.disk.walk from_ front ∨
      w.place dir = w.disk.walk from_ (front ++ [""])) := by
  have hjoin : ∀ name, IsName name → dir.join name ≠ "" := by
    intro name hn hempty
    have hfile := Path.fileName?_join (a := dir) hn.segments hn.goes hn.down hn.relative
    rw [hempty] at hfile
    cases hfile
  by_cases hdir : dir = ""
  · subst hdir
    refine ⟨w.workingDirectory.steps, [], fun name hn => ?_, fun h => absurd rfl h⟩
    have hname : Path.join "" name = name := by simp [Path.join, hn.relative]
    have hne := hjoin name hn
    rw [hname] at hne ⊢
    simp only [World.place, start, hn.relative, beq_false_of_ne hne, hn.segments,
      Bool.false_eq_true, if_false, List.nil_append]
  · obtain ⟨front, hseg, hor⟩ := Path.exists_segments_join hdir
    cases habs : dir.isAbsolute with
    | false =>
      refine ⟨w.workingDirectory.steps, front, fun name hn => ?_, fun _ => ?_⟩
      · have hrel := Path.not_isAbsolute_join habs hn.relative
        simp only [World.place, start, hrel, beq_false_of_ne (hjoin name hn), hseg name hn.relative,
          hn.segments, Bool.false_eq_true, if_false]
      · simp only [World.place, start, habs, beq_false_of_ne hdir, Bool.false_eq_true, if_false]
        exact hor.imp (congrArg _) (congrArg _)
    | true =>
      obtain ⟨front, rfl⟩ := Path.front_of_isAbsolute habs hor
      refine ⟨[], front, fun name hn => ?_, fun _ => ?_⟩
      · have hjoinabs := Path.isAbsolute_join (p := name) habs
        simp only [World.place, start, hjoinabs, beq_false_of_ne (hjoin name hn),
          hseg name hn.relative, hn.segments, Bool.false_eq_true, if_false, if_true,
          List.cons_append, List.drop_succ_cons, List.drop_zero]
      · simp only [World.place, start, habs, beq_false_of_ne hdir, Bool.false_eq_true, if_false,
          if_true]
        rcases hor with hor | hor <;> rw [hor]
        · exact .inl rfl
        · exact .inr rfl

/-- **A name in a directory leads to a place just below it.** -/
theorem IsHome.place_join (h : w.IsHome dir home) (hn : IsName name) :
    w.place (dir.join name) = .ok (home ++ [name]) := by
  have hdir : dir ≠ "" := by
    rintro rfl
    have hplace := h.place
    simp [World.place] at hplace
  obtain ⟨from_, front, hwalk, hor⟩ := w.exists_walk_join dir
  rw [hwalk name hn]
  have hplace := h.place
  refine h.walk_name hn ?_
  rcases hor hdir with hor | hor <;> rw [hor] at hplace
  · exact .inl hplace
  · exact .inr hplace

theorem isThere_of_place (h : w.place p = .ok q) : w.isThere p = (w.disk.entry? q).isSome := by
  unfold isThere entry
  rw [h]
  cases hentry : w.disk.entry? q <;> simp [hentry, bind, Except.bind, Except.isOk, Except.toBool]

/-- What is looked for under a name in a directory is what stands just below the directory. -/
theorem IsHome.isThere_join (h : w.IsHome dir home) (hn : IsName name) :
    w.isThere (dir.join name) = (w.disk.entry? (home ++ [name])).isSome :=
  isThere_of_place (h.place_join hn)

/-- **Names lead to places just below one directory**, or nothing is there under any of them. -/
theorem place_join_cases (w : World) (dir : Path) :
    (∃ home, ∀ name, IsName name → w.place (dir.join name) = .ok (home ++ [name])) ∨
      ∀ name, IsName name → w.isThere (dir.join name) = false := by
  obtain ⟨from_, front, hwalk, -⟩ := w.exists_walk_join dir
  have hstep : ∀ name, IsName name →
      w.place (dir.join name) = (w.disk.walk from_ front).bind (w.disk.walk · [name]) :=
    fun name hn => by rw [hwalk name hn, Disk.walk_append]
  have hnowhere : ∀ name x, w.place (dir.join name) = .error x → w.isThere (dir.join name) = false := by
    intro name x hplace
    simp [isThere, entry, hplace, bind, Except.bind, Except.isOk, Except.toBool]
  cases hfront : w.disk.walk from_ front with
  | error x => exact .inr fun name hn => hnowhere name x (by rw [hstep name hn, hfront]; rfl)
  | ok home =>
    cases hentry : w.disk.entry? home with
    | none =>
      refine .inr fun name hn => hnowhere name .notFound ?_
      simp [hstep name hn, hfront, Except.bind, Disk.walk, hentry]
    | some e =>
      cases e with
      | file bytes t =>
        refine .inr fun name hn => hnowhere name .notADirectory ?_
        simp [hstep name hn, hfront, Except.bind, Disk.walk, hentry]
      | directory =>
        refine .inl ⟨home, fun name hn => ?_⟩
        simp [hstep name hn, hfront, Except.bind, Disk.walk, hentry, hn.goes, hn.down]

/-! ## Changes in a directory -/

/-- **A directory is still there** on a disk that has the directories of the old one. -/
theorem IsHome.of_directories {d : Disk} (h : w.IsHome dir home) (htree : d.IsTree)
    (hdirs : ∀ q, w.disk.entry? q = some .directory → d.entry? q = some .directory) :
    World.IsHome { w with disk := d } dir home where
  tree := htree
  directory := hdirs home h.directory
  place := by
    have hplace := h.place
    unfold World.place start at hplace ⊢
    split at hplace
    · cases hplace
    · rw [if_neg ‹_›]
      exact Disk.walk_of_directories hdirs hplace

theorem IsHome.serial (h : w.IsHome dir home) (serial : Nat) : World.IsHome { w with serial } dir home :=
  ⟨h.tree, h.place, h.directory⟩

/-- **A file is written into a directory** where nothing stood. -/
theorem IsHome.write (body : String) (h : w.IsHome dir home) (hn : IsName name)
    (hfree : w.disk.entry? (home ++ [name]) = none) :
    ∃ w', w.writeText (dir.join name) body = .ok w' ∧ w'.IsHome dir home ∧ w'.serial = w.serial ∧
      w'.workingDirectory = w.workingDirectory ∧
      ∀ q, w'.disk.entry? q
        = if q = home ++ [name] then some (.file body.toUTF8 w.now) else w.disk.entry? q := by
  have hparent : w.disk.entry? (home ++ [name]).dropLast = some .directory := by
    rw [List.dropLast_concat, h.directory]
  have hne : home ++ [name] ≠ [] := by simp
  have hdir : w.disk.entry? (home ++ [name]) ≠ some .directory := by simp [hfree]
  refine ⟨{ w with disk := w.disk.put (home ++ [name]) (.file body.toUTF8 w.now) }, ?_, ?_, rfl, rfl,
    fun q => Disk.lookup_put hne _ q⟩
  · simp only [writeText, writeAt, h.place_join hn, hfree, hparent, bind, Except.bind]
  · refine h.of_directories (h.tree.put hdir hparent) fun q hq => ?_
    have hq' : q ≠ home ++ [name] := fun heq => hdir (heq ▸ hq)
    rw [Disk.lookup_put hne, if_neg hq', hq]

/-- **A file is deleted from a directory.** -/
theorem IsHome.delete {bytes : ByteArray} {t : Instant} (h : w.IsHome dir home) (hn : IsName name)
    (hfile : w.disk.entry? (home ++ [name]) = some (.file bytes t)) :
    ∃ w', w.removeFile (dir.join name) = .ok w' ∧ w'.IsHome dir home ∧ w'.serial = w.serial ∧
      w'.workingDirectory = w.workingDirectory ∧
      ∀ q, w'.disk.entry? q = if q = home ++ [name] then none else w.disk.entry? q := by
  refine ⟨{ w with disk := w.disk.clear (home ++ [name]) }, ?_, ?_, rfl, rfl,
    h.tree.entry?_clear hfile⟩
  · simp only [removeFile, h.place_join hn, hfile, bind, Except.bind]
  · refine h.of_directories (h.tree.clear hfile) fun q hq => ?_
    have hq' : q ≠ home ++ [name] := fun heq => by
      rw [heq, hfile] at hq
      cases hq
    rw [h.tree.entry?_clear hfile, if_neg hq', hq]

/-! ## Free names -/

variable {names : Nat → String} {serial k : Nat}

theorem mem_keys_of_entry? {d : Disk} (hq : q ≠ []) (h : d.entry? q ≠ none) :
    q ∈ d.entries.map Prod.fst := by
  cases he : d.entry? q with
  | none => exact absurd he h
  | some e =>
    unfold Disk.entry? at he
    rw [if_neg hq] at he
    obtain ⟨l₁, l₂, hl, -⟩ := List.lookup_eq_some_iff.1 he
    simp [hl]

/-- The numbers that were tried in vain are names of something. -/
theorem freeNumber?_cases (path : Nat → Path) : ∀ (n serial : Nat),
    (∃ k, w.freeNumber? path serial n = some k ∧ serial ≤ k ∧ w.isThere (path k) = false) ∨
    (w.freeNumber? path serial n = none ∧
      ∀ k ∈ List.range' serial n, w.isThere (path k) = true)
  | 0, serial => .inr ⟨rfl, by simp⟩
  | n + 1, serial => by
    by_cases hthere : w.isThere (path serial) = true
    · rw [freeNumber?, if_pos hthere]
      rcases freeNumber?_cases path n (serial + 1) with ⟨k, hk, hle, hfree⟩ | ⟨hnone, hall⟩
      · exact .inl ⟨k, hk, Nat.le_of_succ_le hle, hfree⟩
      · refine .inr ⟨hnone, fun k hk => ?_⟩
        rw [List.range'_succ] at hk
        rcases List.mem_cons.1 hk with rfl | hk
        · exact hthere
        · exact hall k hk
    · rw [freeNumber?, if_neg hthere]
      exact .inl ⟨serial, rfl, Nat.le_refl _, by simpa using hthere⟩

/-- **Of more names than there are files one is free.** -/
theorem exists_freeNumber? {path : Nat → Path} (hplace : ∀ n, w.place (path n) = .ok (home ++ [names n]))
    (hinj : ∀ m n, names m = names n → m = n) (serial : Nat) :
    ∃ k, w.freeNumber? path serial (w.disk.entries.length + 1) = some k ∧ serial ≤ k ∧
      w.isThere (path k) = false := by
  rcases freeNumber?_cases (w := w) path (w.disk.entries.length + 1) serial with hfound | ⟨-, hall⟩
  · exact hfound
  · have hnodup : ((List.range' serial (w.disk.entries.length + 1)).map
        fun k => home ++ [names k]).Nodup := by
      refine List.pairwise_map.2 (List.Pairwise.imp (fun hne heq => hne (hinj _ _ ?_)) List.nodup_range')
      simpa using heq
    have hsub : ((List.range' serial (w.disk.entries.length + 1)).map fun k => home ++ [names k]) ⊆
        w.disk.entries.map Prod.fst := by
      intro q hq
      obtain ⟨k, hk, rfl⟩ := List.mem_map.1 hq
      have hthere := hall k hk
      rw [isThere_of_place (hplace k)] at hthere
      exact mem_keys_of_entry? (by simp) (Option.isSome_iff_ne_none.1 hthere)
    have hlen := hnodup.length_le_of_subset hsub
    rw [List.length_map, List.length_map, List.length_range'] at hlen
    exact absurd hlen (Nat.not_succ_le_self _)

/-- **A fresh path leads to nothing**, whatever directory it is in, if it is one. -/
theorem isThere_freshPath (w : World) (dir : Path) (hn : ∀ n, IsName (names n))
    (hinj : ∀ m n, names m = names n → m = n) :
    w.isThere (w.freshPath fun n => dir.join (names n)).1 = false := by
  unfold World.freshPath
  dsimp only
  obtain ⟨home, hplace⟩ | hnone := w.place_join_cases dir
  · obtain ⟨k, hk, -, hfree⟩ := exists_freeNumber? (fun n => hplace _ (hn n)) hinj w.serial
    rwa [hk]
  · exact hnone _ (hn _)

/-- **A fresh path leads to a place where nothing stands**, and takes a number that was not taken. -/
theorem IsHome.freshPath (h : w.IsHome dir home) (hn : ∀ n, IsName (names n))
    (hinj : ∀ m n, names m = names n → m = n) :
    ∃ n, w.freshPath (fun n => dir.join (names n)) = (dir.join (names n), { w with serial := n + 1 }) ∧
      w.serial ≤ n ∧ w.disk.entry? (home ++ [names n]) = none := by
  obtain ⟨n, hnumber, hle, hfree⟩ := exists_freeNumber? (fun n => h.place_join (hn n)) hinj w.serial
  rw [h.isThere_join (hn n)] at hfree
  refine ⟨n, ?_, hle, by simpa using hfree⟩
  rw [World.freshPath, hnumber]
  rfl

end World

end QueryPress
