import QueryPress.Proofs.Press.Describing
import QueryPress.Proofs.Template.Removing

/-!
# Proofs/Press/Removal — a template that was removed is gone from the loaders

When a template is removed or all files are deleted, the loaders forget the copies that they keep of a file
under its own name, and from then on take up no other (`removed_is_gone`).  That is enough if they keep no
copy of it under another: a reference may spell the name in other ways, with a `.` or a slash more, and the
first loader keeps for good what it has found under each of them (`not_removedIsGone`).

The files that a compiler deletes have names of one segment, by which every spelling of their paths ends in
one name (`Usage.Run.isNumbered`).
-/

namespace QueryPress

variable {w w' w₀ : World} {k k' : Compiler} {u u' : Usage} {path : Path} {n : String}

/-! ## The files of a compiler -/

namespace Compiler

/-- **The files of a compiler are numbered** — each of their paths is that of a numbered file in some
directory. -/
def IsNumbered (k : Compiler) : Prop := ∀ path ∈ k.tracked, ∃ dir n, path = numbered dir n

/-- A compile takes down a numbered file, if any. -/
theorem tracked_compile (w : World) (k : Compiler) (name : Option String) (source : String)
    (options : Table String) : (k.compile w name source options).2.1.tracked = k.tracked ∨
      (k.compile w name source options).2.1.tracked = k.nextPath w :: k.tracked := by
  obtain ⟨n, h⟩ | ⟨asked, -, ⟨-, h⟩ | ⟨-, h⟩⟩ := compile_ways w k name source options <;> rw [h]
  · exact .inl rfl
  · dsimp only
    exact .inl (kept_compileEphemeral w k name (Strategy.classify k.marker source).2 options).1
  · obtain ⟨serial, hm | ⟨v, -, ⟨e, c, -, hm⟩ | ⟨bundle, c, -, hm⟩⟩⟩ :=
      k.compileMaterialized_ways w name (Strategy.classify k.marker source).2 options <;> rw [hm]
    · exact .inl rfl
    · exact .inl rfl
    · exact .inr rfl

theorem IsNumbered.compile (h : k.IsNumbered) (w : World) (name : Option String) (source : String)
    (options : Table String) : (k.compile w name source options).2.1.IsNumbered := by
  intro path hin
  obtain htracked | htracked := tracked_compile w k name source options <;> rw [htracked] at hin
  · exact h path hin
  · rcases List.mem_cons.1 hin with rfl | hin
    · exact ⟨w.absolute k.workingDirectory, _, rfl⟩
    · exact h path hin

theorem IsNumbered.remove (h : k.IsNumbered) (w : World) (t : Template) :
    (k.remove w t).1.IsNumbered := by
  rw [Compiler.remove]
  split
  · exact h
  · split
    · exact fun path hin => h path (List.mem_of_mem_erase hin)
    · exact h

/-- The path of a numbered file ends in its name. -/
theorem endsIn_numbered (dir : Path) (n : Nat) : (numbered dir n).EndsIn (fileName n) := by
  refine Path.endsIn_join.2 ?_
  rw [Path.EndsIn, (isName_fileName n).segments]
  rfl

end Compiler

/-- **Whatever a host does, the files of its compiler are numbered.** -/
theorem Usage.Run.isNumbered (hrun : Usage.Run u u') (h : u.compiler.IsNumbered) :
    u'.compiler.IsNumbered := by
  induction hrun with
  | start => exact h
  | step _ hstep ih =>
    cases hstep with
    | compile w name source options _ => exact ih.compile w name source options
    | remove w t => exact ih.remove w t
    | removeAll w => exact fun path hin => by cases hin
    | _ => exact ih

/-- A new press has written nothing. -/
theorem Press.tracked_of_ofSettings {s : Settings} {directory : Path} {p : Press}
    (h : Press.ofSettings w s directory = .ok p) : p.compiler.tracked = [] := by
  simp only [Press.ofSettings] at h
  split at h
  · cases h
  · rw [← Except.ok.inj h]

/-! ## A file that was deleted -/

/-- **A template that was removed is gone from the loaders.**

Settings make a press, and a host does with its compiler and its loaders what it likes, while files change
as they like.  Then a file that the compiler has written is deleted, with its template or with all others.
Unless a loader keeps a copy of the file under another name than the one that is forgotten, the file is gone:
whatever the compiler and its loaders go on to do, as long as there is no file at its place again, no loader
hands out under any name, and the chain has under no name, a resource whose path denotes the file. -/
theorem removed_is_gone {s : Settings} {directory : Path} {p : Press}
    (hpress : Press.ofSettings w₀ s directory = .ok p) (hrun : Usage.Run { compiler := p.compiler } u)
    (htree : w.disk.IsTree) (hw : w.IsRooted) (hdeletes : u.compiler.Deletes w path n k w')
    (hkept : ∀ l ∈ u.chain, ∀ m r, l.copy? m = some r → w.Denotes r.path path → m = n) :
    World.IsGone w path w' ∧ ∀ (k' : Compiler) (v : World),
      Compiler.GoesOn (World.IsGone w path) k k' → World.IsGone w path v →
        (∀ l ∈ k'.chain, ∀ m r, (l.load v m).1 = .ok (some r) → ¬ w.Denotes r.path path) ∧
        ∀ m r, (k'.chain.resolve v m).1 = .ok r → ¬ w.Denotes r.path path := by
  have hnumbered : u.compiler.IsNumbered := by
    refine hrun.isNumbered fun path hin => ?_
    rw [Press.tracked_of_ofSettings hpress] at hin
    cases hin
  have hin : path ∈ u.compiler.tracked := by cases hdeletes <;> assumption
  obtain ⟨dir, number, hpath⟩ := hnumbered path hin
  have hends : path.EndsIn (Compiler.fileName number) := hpath ▸ Compiler.endsIn_numbered dir number
  have hgone : ∀ (k' : Compiler) (v : World), Compiler.GoesOn (World.IsGone w path) k k' →
      World.IsGone w path v → ∀ l ∈ k'.chain, ∀ m r, (l.load v m).1 = .ok (some r) →
        ¬ w.Denotes r.path path := by
    intro k' v hon hv l hl m r hload hd
    obtain ⟨hne, l₀, hl₀, hcopy⟩ := hdeletes.copy?_of_load (hrun.isSound hpress) hends
      (Compiler.isName_fileName number).goes hon hv hl hload hd
    exact hne (hkept l₀ hl₀ m r hcopy hd)
  refine ⟨hdeletes.isGone htree hw, fun k' v hon hv =>
    ⟨hgone k' v hon hv, fun m r hr => ?_⟩⟩
  obtain ⟨l, hl, hload⟩ := Chain.exists_load_of_answer (Chain.answer_of_resolve (Prod.ext hr rfl)).1
  exact hgone k' v hon hv l hl m r hload

/-! ## A file under two names -/

namespace Removal

/-- A directory to work in. -/
def workWorld : World where
  disk := { entries := [(["work"], .directory)] }

/-- A text is put in a file if its first line is "cached". -/
def filingSettings : Settings where
  configDirectory := "/press"
  bufferPoolSize := 0
  cacheMarker := "cached"

/-- The press of these settings. -/
def filingPress : Press :=
  (Press.ofSettings workWorld filingSettings "/work").toOption.get (by decide +kernel)

theorem ofSettings_filingPress : Press.ofSettings workWorld filingSettings "/work" = .ok filingPress :=
  eq_ok_get _

/-- What compiling a text in a file comes to. -/
@[irreducible]
def filed : Except Error Template × Compiler × World :=
  filingPress.compiler.compile workWorld none "cached\nx" []

/-- The template of the text. -/
def filedTemplate : Template := filed.1.toOption.get (by decide +kernel)

/-- What compiling another text comes to then. -/
@[irreducible]
def referring (text : String) : Except Error Template × Compiler × World :=
  filed.2.1.compile filed.2.2 none text []

/-- A host that has had the text compiled. -/
def filedUsage : Usage := Usage.made { compiler := filingPress.compiler } filed.2.1 []

/-- A host that has had both texts compiled. -/
def referringUsage (text : String) : Usage := filedUsage.made (referring text).2.1 []

/-- To have a text compiled is a step of a host. -/
theorem run_made {source : String} {made : Except Error Template × Compiler × World}
    (hrun : Usage.Run u u') (hmade : u'.compiler.compile w none source [] = made) :
    Usage.Run u (u'.made made.2.1 []) := by
  subst hmade
  exact .step hrun (.compile w none source [] (by simp))

theorem run_filedUsage : Usage.Run { compiler := filingPress.compiler } filedUsage := by
  have hfiled : filingPress.compiler.compile workWorld none "cached\nx" [] = filed := by
    unfold filed
    rfl
  exact run_made .start hfiled

theorem compile_referring (text : String) :
    filedUsage.compiler.compile filed.2.2 none text [] = referring text := by
  unfold referring
  rfl

theorem run_referringUsage (text : String) :
    Usage.Run { compiler := filingPress.compiler } (referringUsage text) :=
  run_made run_filedUsage (compile_referring text)

/-- The compiler and the world when the template of the file has been removed. -/
def removed (text : String) : Compiler × World :=
  (referringUsage text).compiler.remove filed.2.2 filedTemplate

/-- Where the file of the text is, and that its disk is a tree. -/
theorem filed_stands : filedTemplate.path? = some "/work/tmpl-0.tera" ∧
    filed.2.2.workingDirectory = "/" ∧
    ∀ entry ∈ filed.2.2.disk.entries, filed.2.2.disk.entry? entry.1.dropLast = some .directory := by
  decide +kernel

theorem isTree_filed : filed.2.2.disk.IsTree := Disk.isTree_of_entries filed_stands.2.2

theorem isRooted_filed : filed.2.2.IsRooted :=
  ⟨by rw [filed_stands.2.1]; decide, by rw [filed_stands.2.1]; decide⟩

theorem deletes_removed {text : String}
    (h : "/work/tmpl-0.tera" ∈ (referringUsage text).compiler.tracked) :
    (referringUsage text).compiler.Deletes filed.2.2 "/work/tmpl-0.tera" filedTemplate.bundle.entry
      (removed text).1 (removed text).2 :=
  .removed filed_stands.1 h

/-- A text that refers to the file by its own name. -/
def plainText : String := "\x7b% include 'tmpl-0.tera' %\x7d"

/-- A text that spells the name in another way. -/
def dottedText : String := "\x7b% include './tmpl-0.tera' %\x7d"

end Removal

open Removal

/-- Another template has included the file by its name; and when it has been removed the name is asked for
again. -/
theorem removed_is_gone_plain :
    ((referringUsage plainText).chain.resolve filed.2.2 "tmpl-0.tera").1.toOption.map Resource.path
        = some "/work/tmpl-0.tera" ∧
      ∀ m r, (((removed plainText).1.compileStored (removed plainText).2 "tmpl-0.tera" []).2.chain.resolve
        (removed plainText).2 m).1 = .ok r → ¬ filed.2.2.Denotes r.path "/work/tmpl-0.tera" := by
  obtain ⟨htracked, hresolve, hkept⟩ : "/work/tmpl-0.tera" ∈ (referringUsage plainText).compiler.tracked ∧
      ((referringUsage plainText).chain.resolve filed.2.2 "tmpl-0.tera").1.toOption.map Resource.path
        = some "/work/tmpl-0.tera" ∧
      ∀ l ∈ (referringUsage plainText).chain, ∀ e ∈ l.copies,
        filed.2.2.Denotes e.2.path "/work/tmpl-0.tera" → e.1 = filedTemplate.bundle.entry := by
    decide +kernel
  obtain ⟨hgone, hnever⟩ := removed_is_gone ofSettings_filingPress (run_referringUsage plainText)
    isTree_filed isRooted_filed (deletes_removed htracked) fun l hl m r hcopy =>
      hkept l hl (m, r) (Table.mem_of_get? (Loader.get?_of_copy? hcopy))
  exact ⟨hresolve, (hnever _ _ (.compileStored "tmpl-0.tera" [] .rest hgone) hgone).2⟩

/-- What one would say of every press: when the file of a template has been deleted, the loaders have it
under no name. -/
def RemovedIsGone : Prop :=
  ∀ (w₀ w w' : World) (s : Settings) (directory : Path) (p : Press) (u : Usage) (path : Path)
    (n : String) (k k' : Compiler) (v : World), Press.ofSettings w₀ s directory = .ok p →
    Usage.Run { compiler := p.compiler } u → w.disk.IsTree → w.IsRooted →
    u.compiler.Deletes w path n k w' → Compiler.GoesOn (World.IsGone w path) k k' →
    World.IsGone w path v → ∀ m r, (k'.chain.resolve v m).1 = .ok r → ¬ w.Denotes r.path path

/-- **A copy under another name outlives the file.** -/
theorem not_removedIsGone : ¬ RemovedIsGone := by
  intro hall
  obtain ⟨htracked, houtlives⟩ : "/work/tmpl-0.tera" ∈ (referringUsage dottedText).compiler.tracked ∧
      ((removed dottedText).1.chain.resolve (removed dottedText).2 "./tmpl-0.tera").1.toOption.any
        (fun r => filed.2.2.Denotes r.path "/work/tmpl-0.tera") = true := by
    decide +kernel
  obtain ⟨outliving, hresolve, hdenotes⟩ := (Option.any_eq_true _ _).1 houtlives
  have hdeletes : (referringUsage dottedText).compiler.Deletes filed.2.2 "/work/tmpl-0.tera"
      filedTemplate.bundle.entry (removed dottedText).1 (removed dottedText).2 :=
    deletes_removed htracked
  exact hall _ _ _ _ _ _ _ _ _ _ _ _ ofSettings_filingPress (run_referringUsage dottedText)
    isTree_filed isRooted_filed hdeletes .rest (hdeletes.isGone isTree_filed isRooted_filed)
    "./tmpl-0.tera" outliving (eq_ok_of_toOption hresolve) (of_decide_eq_true hdenotes)

end QueryPress
