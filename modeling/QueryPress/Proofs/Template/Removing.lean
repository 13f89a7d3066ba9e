import QueryPress.Proofs.Disk.Denoting
import QueryPress.Proofs.Resource.Working
import QueryPress.Proofs.Template.Questions

/-!
# Proofs/Template/Removing — what a compiler does about a file that it deletes

A compiler deletes the file of a template that is removed, or all its files, and lets its loaders forget
one name for each (`Deletes`).  The file is gone then (`Deletes.isGone`), and so are the copies under that
name.  Whatever the compiler goes on to do is work for its loaders (`GoesOn.works`), and as long as the file
is not there again they take up no copy of it, under any name.
-/

namespace QueryPress

namespace World

variable {w v : World} {p path : Path} {name : String}

/-- **A file is gone** — in a world of the same working directory, on a disk that is a tree, the path leads
to no file. -/
structure IsGone (w : World) (path : Path) (v : World) : Prop where
  tree : v.disk.IsTree
  rooted : v.IsRooted
  workingDirectory : v.workingDirectory = w.workingDirectory
  gone : v.isFile path = false

/-- **A file that is gone is gone under every spelling** of its path. -/
theorem IsGone.isFile_of_denotes (h : IsGone w path v) (hends : path.EndsIn name)
    (hname : Path.isStay name = false) (hd : w.Denotes p path) : v.isFile p = false := by
  refine Bool.eq_false_iff.2 fun hp => ?_
  have hfile := World.isFile_of_denotes h.tree h.rooted hends hname (hd.congr h.workingDirectory) hp
  rw [h.gone] at hfile
  cases hfile

end World

namespace Compiler

variable {w w' v : World} {k k' k'' : Compiler} {W : World → Prop} {path : Path} {n : String} {c : Chain}

/-! ## A compiler at work -/

/-- **A compiler has gone on** in worlds of some kind — it has compiled texts and stored templates,
refreshed templates and removed them, or deleted all its files, and its loaders have worked besides. -/
inductive GoesOn (W : World → Prop) (k : Compiler) : Compiler → Prop
  | rest : GoesOn W k k
  | compile {k' : Compiler} {w : World} {name : Option String} {source : String}
      {options : Table String} : GoesOn W k k' →
      (∀ v, WorksIn w k' source options v → W v) →
      GoesOn W k (k'.compile w name source options).2.1
  | compileStored {k' : Compiler} {w : World} (name : String) (options : Table String) :
      GoesOn W k k' → W w → GoesOn W k (k'.compileStored w name options).2
  | refresh {k' : Compiler} {w : World} (t : Template) : GoesOn W k k' → W w →
      GoesOn W k (k'.refresh w t).2
  | remove {k' : Compiler} (w : World) (t : Template) : GoesOn W k k' → GoesOn W k (k'.remove w t).1
  | removeAll {k' : Compiler} (w : World) : GoesOn W k k' → GoesOn W k (k'.removeAll w).2.1
  | asked {k' : Compiler} {c : Chain} : GoesOn W k k' → Chain.Works W k'.chain c →
      GoesOn W k { k' with chain := c }

theorem works_remove (w : World) (t : Template) : Chain.Works W k.chain (k.remove w t).1.chain := by
  rw [remove]
  split
  · exact .rest W k.chain
  · split
    · exact (Chain.Works.rest W k.chain).evict _
    · exact .rest W k.chain

theorem works_removePaths : ∀ (paths : List Path) {c c' : Chain} (w : World), Chain.Works W c c' →
    Chain.Works W c (removePaths w c' paths).1
  | [], _, _, _, h => h
  | path :: paths, c, c', w, h => by
    rw [removePaths]
    refine works_removePaths paths _ ?_
    cases path.fileName? with
    | none => exact h
    | some name => exact h.evict name

/-- **Whatever a compiler goes on to do is work for its loaders.** -/
theorem GoesOn.works (h : GoesOn W k k') (hk : k.chain.IsSound) :
    Chain.Works W k.chain k'.chain := by
  induction h with
  | rest => exact .rest W k.chain
  | @compile k' w name source options _ hW ih =>
    obtain ⟨v, asked, c, hv, hasks, hc⟩ := asks_compile (ih.isSound hk) w name source options
    have hworks := ih.asks (hW v hv) hasks
    rcases hc with hc | hc <;> rw [hc]
    · exact hworks
    · exact hworks.evict _
  | @compileStored k' w name options _ hw ih =>
    obtain ⟨asked, hasks, -⟩ := asks_compileNamed (ih.isSound hk) w name name
    exact ih.asks hw hasks
  | @refresh k' w t _ hw ih =>
    have hchain : (k'.refresh w t).2.chain = (k'.chain.collectChanges w t.bundle.resources).2 :=
      (Bundle.refresh_cases w t.bundle k'.chain).1
    rw [hchain]
    exact ih.collectChanges hk hw _
  | remove w t _ ih => exact ih.trans (works_remove w t)
  | @removeAll k' w _ ih => exact works_removePaths k'.tracked w ih
  | asked _ hworks ih => exact ih.trans hworks

/-! ## The world after a file is deleted -/

/-- A file is deleted, or there is none. -/
theorem delete_cases (w : World) (path : Path) :
    (∃ w', w.removeFile path = .ok w' ∧ delete w path = w') ∨
      (w.isFile path = false ∧ delete w path = w) := by
  rw [delete]
  cases hremove : w.removeFile path with
  | ok w' => exact .inl ⟨w', rfl, rfl⟩
  | error x =>
    refine .inr ⟨Bool.eq_false_iff.2 fun hfile => ?_, rfl⟩
    obtain ⟨bytes, t, hentry⟩ := World.isFile_iff.1 hfile
    obtain ⟨at_, hplace, hat⟩ := World.entry_eq_ok.1 hentry
    simp [World.removeFile, hplace, hat, bind, Except.bind] at hremove

/-- Where there is a file after one was deleted, there was one before. -/
theorem isFile_of_delete {p : Path} (h : (delete w path).isFile p = true) : w.isFile p = true := by
  obtain ⟨w', hremove, heq⟩ | ⟨-, heq⟩ := delete_cases w path <;> rw [heq] at h
  · obtain ⟨bytes, t, hentry⟩ := World.isFile_iff.1 h
    rcases (World.rewrites_remove 0 hremove).file hentry with hentry | ⟨hlt, hle⟩
    · exact World.isFile_iff.2 ⟨bytes, t, hentry⟩
    · exact absurd (Nat.lt_of_lt_of_le hlt hle) (Nat.lt_irrefl 0)
  · exact h

/-- **A file that was deleted is not there.** -/
theorem isFile_delete (w : World) (path : Path) : (delete w path).isFile path = false := by
  obtain ⟨w', hremove, heq⟩ | ⟨hnone, heq⟩ := delete_cases w path <;> rw [heq]
  · obtain ⟨at_, bytes, t, hplace, hat, rfl⟩ := World.removeFile_eq_ok hremove
    refine Bool.eq_false_iff.2 fun hfile => ?_
    obtain ⟨bytes', t', hentry⟩ := World.isFile_iff.1 hfile
    obtain ⟨q, hq, he⟩ := World.entry_of_directories (fun _ => Disk.directory_of_clear) hentry
    obtain rfl := Except.ok.inj (hplace.symm.trans hq)
    rw [Disk.entry?_clear] at he
    split at he
    · cases he
    · rename_i hroot
      have hnil : at_ = [] := by simpa using hroot
      subst hnil
      unfold Disk.entry? at hat
      simp at hat
  · exact hnone

/-- **What deleting leaves as it is** — the disk is a tree, and the working directory is the same. -/
theorem delete_kept (htree : w.disk.IsTree) (path : Path) :
    (delete w path).disk.IsTree ∧ (delete w path).workingDirectory = w.workingDirectory := by
  obtain ⟨w', hremove, heq⟩ | ⟨-, heq⟩ := delete_cases w path <;> rw [heq]
  · obtain ⟨at_, bytes, t, -, hat, rfl⟩ := World.removeFile_eq_ok hremove
    exact ⟨htree.clear hat, rfl⟩
  · exact ⟨htree, rfl⟩

theorem removePaths_kept : ∀ (paths : List Path) {w : World} (c : Chain), w.disk.IsTree →
    (removePaths w c paths).2.disk.IsTree ∧
      (removePaths w c paths).2.workingDirectory = w.workingDirectory
  | [], _, _, h => ⟨h, rfl⟩
  | path :: paths, w, c, h => by
    obtain ⟨htree, hcwd⟩ := delete_kept h path
    rw [removePaths]
    obtain ⟨htree', hcwd'⟩ := removePaths_kept paths (w := delete w path) _ htree
    exact ⟨htree', hcwd'.trans hcwd⟩

theorem isFile_of_removePaths {p : Path} : ∀ (paths : List Path) {w : World} (c : Chain),
    (removePaths w c paths).2.isFile p = true → w.isFile p = true
  | [], _, _, h => h
  | _ :: paths, _, _, h => isFile_of_delete (isFile_of_removePaths paths _ h)

/-- What loaders keep when files are deleted they kept before. -/
theorem kept_of_removePaths (paths : List Path) (w : World) (c : Chain) :
    ∀ l ∈ (removePaths w c paths).1, ∃ l₀ ∈ c, Loader.TakesNone (fun _ => True) l₀ l := by
  intro l hl
  have hworks : Chain.Works (fun _ => False) c (removePaths w c paths).1 :=
    works_removePaths paths w (.rest _ c)
  obtain ⟨l₀, hl₀, hwork⟩ := hworks l hl
  exact ⟨l₀, hl₀, hwork.takesNone fun _ hnone => hnone.elim⟩

/-- **All files that were to be deleted are gone**, and no copy is kept under their names. -/
theorem removePaths_gone : ∀ (paths : List Path) (w : World) (c : Chain), ∀ path ∈ paths,
    (removePaths w c paths).2.isFile path = false ∧ ∀ n, path.fileName? = some n →
      ∀ l ∈ (removePaths w c paths).1, Table.get? l.copies n = none
  | [], _, _, _, hin => by cases hin
  | q :: paths, w, c, path, hin => by
    rcases List.mem_cons.1 hin with rfl | hin
    · refine ⟨Bool.eq_false_iff.2 fun hfile => ?_, fun n hn l hl => ?_⟩
      · have hthere := isFile_of_removePaths paths _ hfile
        rw [isFile_delete] at hthere
        cases hthere
      · rw [removePaths, hn] at hl
        obtain ⟨l', hl', hkept⟩ := kept_of_removePaths paths (delete w path) (c.evict n) l hl
        obtain ⟨m, -, rfl⟩ := List.mem_map.1 hl'
        refine Option.eq_none_iff_forall_ne_some.2 fun r hr => ?_
        have hold := hkept.copies trivial hr
        rw [Loader.get?_copies_evict, if_pos rfl] at hold
        cases hold
    · exact removePaths_gone paths _ _ path hin

/-! ## What is deleted, and what is forgotten with it -/

/-- **A file is deleted** — with a template that was written to it, and the loaders forget the entry of the
template; or with all files of the compiler, and they forget the name of the file. -/
inductive Deletes (w : World) (k : Compiler) (path : Path) : String → Compiler → World → Prop
  | removed {t : Template} : t.path? = some path → path ∈ k.tracked →
      Deletes w k path t.bundle.entry (k.remove w t).1 (k.remove w t).2
  | shutDown {n : String} : path ∈ k.tracked → path.fileName? = some n →
      Deletes w k path n (k.removeAll w).2.1 (k.removeAll w).2.2

namespace Deletes

theorem of_remove {t : Template} (hpath : t.path? = some path) (hin : path ∈ k.tracked) :
    k.remove w t = ({ k with
        chain := k.chain.evict t.bundle.entry, tracked := k.tracked.erase path }, delete w path) := by
  have hcontains : k.tracked.contains path = true := by simpa using hin
  simp only [remove, hpath, hcontains, if_true]

/-- The file is gone. -/
theorem isGone (h : Deletes w k path n k' w') (htree : w.disk.IsTree) (hw : w.IsRooted) :
    World.IsGone w path w' := by
  cases h with
  | @removed t hpath hin =>
    rw [of_remove hpath hin]
    obtain ⟨htree', hcwd⟩ := delete_kept htree path
    exact ⟨htree', hw.congr hcwd, hcwd, isFile_delete w path⟩
  | shutDown hin _ =>
    obtain ⟨htree', hcwd⟩ := removePaths_kept k.tracked k.chain htree
    exact ⟨htree', hw.congr hcwd, hcwd, (removePaths_gone k.tracked w k.chain path hin).1⟩

/-- **The loaders keep what they kept**, but no copy under the name that they forget. -/
theorem kept (h : Deletes w k path n k' w') : ∀ l ∈ k'.chain, Table.get? l.copies n = none ∧
    ∃ l₀ ∈ k.chain, Loader.TakesNone (fun _ => True) l₀ l := by
  cases h with
  | @removed t hpath hin =>
    rw [of_remove hpath hin]
    intro l hl
    obtain ⟨l₀, hl₀, rfl⟩ := List.mem_map.1 hl
    exact ⟨by simp, l₀, hl₀, Loader.takesNone_evict _⟩
  | shutDown hin hn =>
    intro l hl
    obtain ⟨-, hgone⟩ := removePaths_gone k.tracked w k.chain path hin
    exact ⟨hgone n hn l hl, kept_of_removePaths k.tracked w k.chain l hl⟩

theorem isSound (h : Deletes w k path n k' w') (hk : k.chain.IsSound) : k'.chain.IsSound := by
  have hworks : Chain.Works (fun _ => False) k.chain k'.chain := by
    cases h with
    | @removed t _ _ => exact works_remove w t
    | shutDown _ _ => exact works_removePaths k.tracked w (.rest _ k.chain)
  exact hworks.isSound hk

variable {m name : String} {r : Resource} {l : Loader}

/-- **What loaders hand out of a file that was deleted** is a copy that one of them kept when it was
deleted, under another name than the one that they forgot. -/
theorem copy?_of_load (h : Deletes w k path n k' w') (hk : k.chain.IsSound) (hends : path.EndsIn name)
    (hname : Path.isStay name = false) (hon : GoesOn (World.IsGone w path) k' k'')
    (hv : World.IsGone w path v) (hl : l ∈ k''.chain) (hload : (l.load v m).1 = .ok (some r))
    (hd : w.Denotes r.path path) : m ≠ n ∧ ∃ l₀ ∈ k.chain, l₀.copy? m = some r := by
  obtain ⟨l₁, hl₁, hcopy⟩ := (hon.works (h.isSound hk)).copy?_of_load (P := (w.Denotes · path))
    (fun _ hv p hp => hv.isFile_of_denotes hends hname hp) hv hl hd hload
  obtain ⟨hforgotten, l₀, hl₀, htakes⟩ := h.kept l₁ hl₁
  refine ⟨?_, l₀, hl₀, htakes.copy?_eq trivial hcopy⟩
  rintro rfl
  rw [Loader.get?_of_copy? hcopy] at hforgotten
  cases hforgotten

end Deletes

end Compiler

end QueryPress
