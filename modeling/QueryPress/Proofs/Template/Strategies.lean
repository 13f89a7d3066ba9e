import QueryPress.Proofs.Engine.Materialized
import QueryPress.Proofs.Template.Twins

/-!
# Proofs/Template/Strategies — a text compiles to the same in memory and in a file

A text that is compiled in memory is the root of its bundle; one that is compiled in a file is written to
a new file first, found there by the first loader, and read back (`compileMaterialized_eq`).  The two
roots are a pair (`CanWrite.isPair`), and the loaders behind them are paired around the new file.  So both
ways fail alike or make twins (`compile_strategies`) — unless some loader goes by the name that texts in
memory have for theirs, and would look for later copies of such a text.
-/

namespace QueryPress

open Answers (Leads)

variable {w w' : World} {home : Place} {entry file n body : String} {t : Instant}

/-- **A file is new to a chain** — no loader keeps a copy under its name, or one that was read from a file
of that name. -/
def Chain.IsNew (file : String) (c : Chain) : Prop :=
  ∀ l ∈ c, ∀ n r, Table.get? l.copies n = some r → n ≠ file ∧ ¬ r.path.EndsIn file

/-- A loader of one directory reads what stands there, and keeps it. -/
theorem Loader.load_written {l : Loader} {directory : Path} (hpaths : l.settings.paths = [directory])
    (hn : Path.isConfined n = true) (hcopy : l.copy? n = none)
    (hentry : w.entry (directory.join n) = .ok (.file body.toUTF8 t)) :
    l.load w n = (.ok (some ⟨n, l.name, directory.join n, body, some t⟩),
      l.remember w.now ⟨n, l.name, directory.join n, body, some t⟩) := by
  have hlocate : l.locate? w n = some (directory.join n) := by
    simp [Loader.locate?, hn, hpaths, World.isFile_iff.2 ⟨_, _, hentry⟩]
  have hread : l.read w n (directory.join n) = .ok ⟨n, l.name, directory.join n, body, some t⟩ :=
    read_eq_ok_iff.2 ⟨_, _, hentry, World.fromUTF8?_toUTF8 body, rfl⟩
  simp only [Loader.load, hcopy, Loader.search, hlocate, hread]

/-- **The first loader finds what was written to its directory**, if it has no copy of that name. -/
theorem Chain.find_written {directory : Path} {others : List LoaderSettings} {c : Chain}
    (hsettings : c.map Loader.settings =
      { name := Settings.ephemeralLoader, paths := [directory], cache := true, checkInterval := .never }
        :: others)
    (hn : Path.isConfined n = true) (hcopy : ∀ l ∈ c, l.copy? n = none)
    (hentry : w.entry (directory.join n) = .ok (.file body.toUTF8 t)) : ∃ l ls, c = l :: ls ∧
      c.find w n = (.ok (some ⟨n, Settings.ephemeralLoader, directory.join n, body, some t⟩),
        l.remember w.now ⟨n, Settings.ephemeralLoader, directory.join n, body, some t⟩ :: ls) := by
  cases c with
  | nil => cases hsettings
  | cons l ls =>
    obtain ⟨hset, -⟩ := List.cons.inj hsettings
    have hpaths : l.settings.paths = [directory] := by rw [hset]
    have hname : l.name = Settings.ephemeralLoader := by rw [Loader.name, hset]
    have hload := Loader.load_written hpaths hn (hcopy l List.mem_cons_self) hentry
    rw [hname] at hload
    exact ⟨l, ls, rfl, by rw [find, hload]⟩

/-- What is remembered of a file leaves loaders paired around it. -/
theorem Loader.IsPaired.remember_file {l l' : Loader} (h : IsPaired entry file l l')
    (hends : Path.EndsIn file file) (now : Instant) {r : Resource} (hr : r.name = file) :
    IsPaired entry file l (l'.remember now r) where
  settings := by simp [h.settings]
  same n hn := by
    have hne : n ≠ r.name := hr ▸ hn.ne hends
    obtain ⟨hsettings, hcopies, hchecks⟩ := h.same n hn
    exact ⟨by simp [hsettings], by simp [hcopies, hne], by simp [hchecks, hne]⟩
  elsewhere := h.elsewhere

theorem Chain.IsNew.isPaired {c : Chain} (h : c.IsNew file) (entry : String) :
    ∀ l ∈ c, Loader.IsPaired entry file l l := fun l hl =>
  ⟨rfl, fun _ _ => ⟨rfl, rfl, rfl⟩, fun n r _ hr => (h l hl n r hr).2⟩

namespace Compiler

variable {k k' : Compiler}

/-- **A compiler can write a file** — its working directory is there, its loaders are in a state that
loaders come to, the first of them reads the working directory, and the next file is new to them. -/
structure CanWrite (w : World) (home : Place) (k : Compiler) : Prop extends k.IsFitted where
  nodup : k.chain.names.Nodup
  rooted : w.IsRooted
  isHome : w.IsHome (w.absolute k.workingDirectory) home
  new : k.chain.IsNew (k.nextFile w)

/-- A text as the first loader finds it in its file. -/
def fileResource (k : Compiler) (file body : String) (t : Instant) : Resource where
  name := file
  loader := Settings.ephemeralLoader
  path := k.workingDirectory.join file
  source := body
  modified := some t

theorem name_inlineResource (n body : String) : (inlineResource n body).name = n := rfl

theorem name_fileResource (k : Compiler) (file body : String) (t : Instant) :
    (k.fileResource file body t).name = file := rfl

/-- **What a text is written to** — a file whose name is new, in a world that differs in nothing else. -/
theorem CanWrite.written (h : k.CanWrite w home) (body : String) : ∃ n serial w',
    w.freshPath (fun n => (w.absolute k.workingDirectory).join (fileName n))
      = (k.nextPath w, { w with serial }) ∧
    (k.nextPath w).fileName? = some (fileName n) ∧ k.nextFile w = fileName n ∧
    World.writeText { w with serial } (k.nextPath w) body = .ok w' ∧
    World.Beside (home ++ [fileName n]) w w' ∧
    w'.entry (k.workingDirectory.join (fileName n)) = .ok (.file body.toUTF8 w.now) := by
  obtain ⟨n, hfresh, -, hfree⟩ := h.isHome.freshPath isName_fileName fun _ _ => eq_of_fileName
  have hpath : k.nextPath w = (w.absolute k.workingDirectory).join (fileName n) := by
    rw [nextPath, hfresh]
  have hname : (k.nextPath w).fileName? = some (fileName n) := by
    rw [hpath, fileName?_join_fileName]
  obtain ⟨w', hwrite, hhome, -, -, hentry⟩ :=
    (h.isHome.serial (n + 1)).write body (isName_fileName n) hfree
  have hbeside : World.Beside (home ++ [fileName n]) w w' := by
    obtain ⟨at_, -, -, -, -, rfl⟩ := World.writeAt_eq_ok hwrite
    exact h.isHome.beside hfree hhome hentry
  have hrooted : World.IsRooted { w with serial := n + 1 } := ⟨h.rooted.absolute, h.rooted.straight⟩
  exact ⟨n, n + 1, w', by rw [hpath, hfresh], hname, by rw [nextFile, hname, Option.getD_some],
    by rw [hpath]; exact hwrite, hbeside,
    entry_of_written (w := { w with serial := n + 1 }) hrooted hwrite⟩

/-- The loaders before a text is found in its file, and after. -/
theorem CanWrite.find_written (h : k.CanWrite w home) {w' : World} {n : Nat}
    (hfile : k.nextFile w = fileName n)
    (hentry : w'.entry (k.workingDirectory.join (fileName n)) = .ok (.file body.toUTF8 t)) :
    ∃ c, k.chain.find w' (k.nextFile w)
        = (.ok (some (k.fileResource (k.nextFile w) body t)), c) ∧
      ∀ entry, Chain.IsPaired entry (k.nextFile w) (k.chain.map Loader.settings) k.chain c := by
  obtain ⟨others, hsettings⟩ := h.settings
  have hpaired := h.new.isPaired
  have hsound := h.reachable.isSound
  have hsound' := hsound.find w' (k.nextFile w)
  have hnew := h.new
  rw [hfile] at hsound' hpaired hnew ⊢
  have hcopy : ∀ l ∈ k.chain, l.copy? (fileName n) = none := by
    intro l hl
    cases hcopy : l.copy? (fileName n) with
    | none => rfl
    | some r => exact absurd rfl (hnew l hl _ r (Loader.get?_of_copy? hcopy)).1
  obtain ⟨l, ls, hchain, hfind⟩ := Chain.find_written hsettings (isConfined_fileName n) hcopy hentry
  rw [hfind] at hsound' ⊢
  rw [hchain] at hpaired hsound ⊢
  refine ⟨_, rfl, fun entry => ?_⟩
  obtain ⟨hl, hls⟩ := List.forall_mem_cons.1 (hpaired entry)
  refine ⟨.cons (hl.remember_file ?_ _ rfl) (List.forall₂_same.2 hls), hsound, hsound', rfl⟩
  exact congrArg List.getLast? (isName_fileName n).segments

/-- **What compiling in a file comes to** — the bundle of the text as it is found there. -/
theorem CanWrite.compileMaterialized_eq (h : k.CanWrite w home) (name : Option String) (body : String)
    (options : Table String) : ∃ w' c, World.Beside (home ++ [k.nextFile w]) w w' ∧
      (∀ entry, Chain.IsPaired entry (k.nextFile w) (k.chain.map Loader.settings) k.chain c) ∧
      k.compileMaterialized w name body options =
        match Bundle.ofRoot w' (name.getD namelessLabel) (k.fileResource (k.nextFile w) body w.now) c with
        | (.error e, chain) =>
          (.error e, { k with chain := chain.evict (k.nextFile w) }, delete w' (k.nextPath w))
        | (.ok bundle, chain) =>
          (.ok { name, strategy := .materialized, origin := .materialized (k.nextPath w), options,
                 bundle },
            { k with chain, tracked := k.nextPath w :: k.tracked }, w') := by
  obtain ⟨n, serial, w', hfresh, hname, hfile, hwrite, hbeside, hentry⟩ := h.written body
  obtain ⟨c, hfind, hpaired⟩ := h.find_written hfile hentry
  have hnamed : ∀ label, compileNamed w' label (k.nextFile w) k.chain
      = Bundle.ofRoot w' label (k.fileResource (k.nextFile w) body w.now) c := fun label => by
    rw [compileNamed, Chain.resolve, hfind]
  refine ⟨w', c, by rwa [hfile], hpaired, ?_⟩
  unfold compileMaterialized
  rw [hfresh]
  dsimp only
  rw [hwrite]
  dsimp only
  rewrite [hname, Option.getD_some, ← hfile, hnamed]
  rcases Bundle.ofRoot w' _ _ c with ⟨(e | bundle), chain⟩ <;> rfl

/-! ## Two ways to compile a text -/

theorem head_traceId (text : String) : (traceId text).toList.head? = some 'i' := by
  rw [traceId, String.toList_append]
  rfl

/-- **Texts in memory are left alone** — no loader that goes by the name which they have for theirs waits
between two looks and keeps copies. -/
def LeavesInline (c : Chain) : Prop :=
  ∀ l ∈ c, l.name = inlineLoader → l.settings.checkInterval.isTimed = true → l.settings.cache = false

/-- **The roots of a text that is compiled either way are a pair** if texts in memory are left alone. -/
theorem CanWrite.isPair (h : k.CanWrite w home) (hinline : LeavesInline k.chain)
    (body : String) : IsPair (k.chain.map Loader.settings) (inlineResource (traceId body) body)
      (k.fileResource (k.nextFile w) body w.now) := by
  obtain ⟨n, -, -, -, -, hfile, -⟩ := h.written body
  obtain ⟨others, hsettings⟩ := h.settings
  have hnames : (k.chain.map Loader.settings).map LoaderSettings.name = k.chain.names := by
    rw [List.map_map]
    rfl
  refine ⟨rfl, ?_, fun s hs hname => ?_, fun s hs hname => ?_, ?_⟩
  · rw [hfile]
    have hhead : (traceId body).toList.head? ≠ some 't' := by
      rw [head_traceId]
      decide
    exact (fileName_ne hhead).symm
  · obtain ⟨l, hl, rfl⟩ := List.mem_map.1 hs
    exact .inr ⟨rfl, hinline l hl hname⟩
  · have hnodup := h.nodup
    rw [← hnames, hsettings] at hnodup
    rw [hsettings] at hs
    rcases List.mem_cons.1 hs with rfl | hs
    · exact .inl rfl
    · exact absurd (List.mem_map.2 ⟨s, hs, hname⟩) (List.nodup_cons.1 hnodup).1
  · rw [hfile]
    exact congrArg List.getLast? (isName_fileName n).segments

/-- **A text compiles to the same in memory and in a file** — both ways fail alike, or make twins. -/
theorem compile_strategies (h : k.CanWrite w home) (hinline : LeavesInline k.chain)
    {body : String} (hsilent : ∀ r,
      Leads (Chain.answer w k.chain) (inlineResource (traceId body) body) r →
        IsSilent (traceId body) (k.nextFile w) r.source)
    (name : Option String) (options options' : Table String) :
    (∃ e e', FailAlike e e' ∧ (k.compileEphemeral w name body options).1 = .error e ∧
      (k.compileMaterialized w name body options').1 = .error e') ∨
    ∃ t t' k₁ k₂ w', k.compileEphemeral w name body options = (.ok t, k₁) ∧
      k.compileMaterialized w name body options' = (.ok t', k₂, w') ∧
      World.Beside (home ++ [k.nextFile w]) w w' ∧
      Bundle.IsTwin (inlineResource (traceId body) body) (k.fileResource (k.nextFile w) body w.now)
        t.bundle t'.bundle ∧
      Chain.IsPaired (traceId body) (k.nextFile w) (k.chain.map Loader.settings) k₁.chain k₂.chain ∧
      t.bundle.book.source? t.bundle.entry = some body := by
  obtain ⟨w', c, hbeside, hpaired, heq⟩ := h.compileMaterialized_eq name body options'
  have hpair := h.isPair hinline body
  rw [heq, compileEphemeral]
  obtain ⟨e, e', hfail, hv, hw⟩ | ⟨b, b', d, d', hv, hw, htwin, hd⟩ :=
    hpair.ofRoot (name_inlineResource _ _) (name_fileResource _ _ _ _) hbeside (hpaired _) hsilent
      (name.getD (traceId body)) (name.getD namelessLabel)
  · refine .inl ⟨e, e', hfail, ?_, ?_⟩
    · dsimp only
      rw [hv]
      rfl
    · split <;> rename_i hmade <;> rw [hmade] at hw <;> cases hw
      rfl
  · have htext := Bundle.source?_of_ofRoot h.reachable.isSound (congrArg Prod.fst hv)
    rw [hv, hw]
    exact .inr ⟨_, _, _, _, w', rfl, rfl, hbeside, htwin, hd, htext⟩

end Compiler

end QueryPress
