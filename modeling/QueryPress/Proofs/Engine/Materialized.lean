import QueryPress.Engine
import QueryPress.Proofs.Disk.Filing
import QueryPress.Proofs.Template.Making
import QueryPress.Proofs.Text.Decimal

/-!
# Proofs/Engine/Materialized — the files an engine writes, and the list it keeps of them

An engine that has its working directory to itself keeps two books of the files it writes: the directory,
and the list of the paths it tracks.  The two agree after every operation, also after one that fails on
the way (`isFiled_of_run`): in the directory there is what was there in the beginning, and of every
template that was materialized and not yet removed the file with its text.

A template is removed by its path, and no path is handed out twice: so a template that is removed takes
its own file with it and no other, however often it is removed.
-/

namespace QueryPress

namespace Compiler

variable {w w' : World} {k k' : Compiler} {dir path : Path} {home q : Place} {m n : Nat} {body : String}

/-! ## The names of the files -/

theorem eq_of_fileName (h : fileName m = fileName n) : m = n := by
  rw [fileName, fileName, String.append_left_inj, String.append_right_inj] at h
  have hdigits : Nat.toDigits 10 m = Nat.toDigits 10 n := by
    rw [← Nat.toList_repr, ← Nat.toList_repr]
    exact congrArg String.toList h
  exact Text.eq_of_toDigits hdigits

theorem isName_fileName (n : Nat) : World.IsName (fileName n) where
  segments := Path.segments_of_not_mem (not_mem_fileName n)
  goes := by
    have hne : fileName n ≠ "" := fileName_ne (by decide)
    have hdot : fileName n ≠ "." := fileName_ne (by decide)
    simp [Path.isStay, hne, hdot]
  down := fileName_ne (by decide)
  relative := not_isAbsolute_fileName n

/-- The path of a numbered file in a directory. -/
def numbered (dir : Path) (n : Nat) : Path := dir.join (fileName n)

theorem eq_of_numbered (h : numbered dir m = numbered dir n) : m = n := by
  have hname := congrArg Path.fileName? h
  rw [numbered, numbered, fileName?_join_fileName, fileName?_join_fileName] at hname
  exact eq_of_fileName (Option.some.inj hname)

/-! ## What the operations do to the directory -/

/-- **To delete a file** that is there changes nothing else in the world. -/
theorem delete_eq {bytes : ByteArray} {t : Instant} (h : w.IsHome dir home)
    (hfile : w.disk.entry? (home ++ [fileName n]) = some (.file bytes t)) :
    (delete w (numbered dir n)).IsHome dir home ∧
      (delete w (numbered dir n)).serial = w.serial ∧
      (delete w (numbered dir n)).workingDirectory = w.workingDirectory ∧
      ∀ q, Disk.entry? (delete w (numbered dir n)).disk q
        = if q = home ++ [fileName n] then none else w.disk.entry? q := by
  obtain ⟨w', hremove, hhome, hserial, hdir, hentry⟩ := h.delete (isName_fileName n) hfile
  have heq : delete w (numbered dir n) = w' := by
    rw [delete, numbered, hremove]
    rfl
  rw [heq]
  exact ⟨hhome, hserial, hdir, hentry⟩

/-- **What a compilation that writes a file comes to** — the file has a name that was free and has never
been given before; it stays if a template was made, and is gone if not. -/
theorem compileMaterialized_cases {name : Option String} {options : Table String}
    {result : Except Error Template} (h : w.IsHome dir home)
    (hdir : w.absolute k.workingDirectory = dir)
    (hk : k.compileMaterialized w name body options = (result, k', w')) :
    k'.workingDirectory = k.workingDirectory ∧ w'.workingDirectory = w.workingDirectory ∧
      w'.IsHome dir home ∧
      ∃ n, w.serial ≤ n ∧ n < w'.serial ∧ w.disk.entry? (home ++ [fileName n]) = none ∧
        ((∃ e, result = .error e ∧ k'.tracked = k.tracked ∧
            ∀ q, w'.disk.entry? q = w.disk.entry? q) ∨
          (∃ t, result = .ok t ∧ t.strategy = .materialized ∧ t.path? = some (numbered dir n) ∧
            k'.tracked = numbered dir n :: k.tracked ∧
            ∀ q, w'.disk.entry? q = if q = home ++ [fileName n] then
              some (.file body.toUTF8 w.now) else w.disk.entry? q)) := by
  obtain ⟨n, hfresh, hle, hfree⟩ := h.freshPath isName_fileName fun _ _ => eq_of_fileName
  obtain ⟨written, hwrite, hhome, hserial, hcwd, hentry⟩ :=
    (h.serial (n + 1)).write body (isName_fileName n) hfree
  have hlt : n < written.serial := by
    rw [hserial]
    exact Nat.lt_succ_self n
  have hfile : written.disk.entry? (home ++ [fileName n]) = some (.file body.toUTF8 w.now) := by
    rw [hentry, if_pos rfl]
  unfold compileMaterialized at hk
  rw [hdir, hfresh] at hk
  dsimp only at hk
  rw [hwrite] at hk
  dsimp only at hk
  rw [fileName?_join_fileName] at hk
  split at hk
  · obtain ⟨hresult, hk⟩ := Prod.mk.inj hk
    obtain ⟨hk, hw⟩ := Prod.mk.inj hk
    obtain ⟨hhome', hserial', hcwd', hentry'⟩ := delete_eq hhome hfile
    rw [numbered] at hhome' hserial' hcwd' hentry'
    rw [← hresult, ← hk, ← hw]
    refine ⟨rfl, hcwd'.trans hcwd, hhome', n, hle, by rw [hserial']; exact hlt, hfree,
      .inl ⟨_, rfl, rfl, fun q => ?_⟩⟩
    rw [hentry', hentry]
    split
    · rename_i hq
      rw [hq, hfree]
    · rfl
  · obtain ⟨hresult, hk⟩ := Prod.mk.inj hk
    obtain ⟨hk, hw⟩ := Prod.mk.inj hk
    rw [← hresult, ← hk, ← hw]
    exact ⟨rfl, hcwd, hhome, n, hle, hlt, hfree, .inr ⟨_, rfl, rfl, rfl, rfl, hentry⟩⟩

/-- The files of some numbers are deleted, and nothing else is changed. -/
theorem removePaths_numbered : ∀ {numbers : List Nat} {w : World} (c : Chain), numbers.Nodup →
    w.IsHome dir home →
    (∀ n ∈ numbers, ∃ bytes t, w.disk.entry? (home ++ [fileName n]) = some (.file bytes t)) →
    (removePaths w c (numbers.map (numbered dir))).2.IsHome dir home ∧
      (removePaths w c (numbers.map (numbered dir))).2.serial = w.serial ∧
      (removePaths w c (numbers.map (numbered dir))).2.workingDirectory = w.workingDirectory ∧
      (∀ n ∈ numbers,
        Disk.entry? (removePaths w c (numbers.map (numbered dir))).2.disk (home ++ [fileName n]) = none) ∧
      ∀ q, (∀ n ∈ numbers, q ≠ home ++ [fileName n]) →
        Disk.entry? (removePaths w c (numbers.map (numbered dir))).2.disk q = w.disk.entry? q
  | [], w, c, _, h, _ => ⟨h, rfl, rfl, by simp, fun q _ => rfl⟩
  | n :: numbers, w, c, hnodup, h, hfiles => by
    obtain ⟨hn, hnodup⟩ := List.nodup_cons.1 hnodup
    obtain ⟨bytes, t, hfile⟩ := hfiles n (by simp)
    obtain ⟨hhome, hserial, hcwd, hentry⟩ := delete_eq h hfile
    have hrest : ∀ m ∈ numbers, ∃ bytes t,
        Disk.entry? (delete w (numbered dir n)).disk (home ++ [fileName m]) = some (.file bytes t) := by
      intro m hm
      have hne : home ++ [fileName m] ≠ home ++ [fileName n] := by
        intro heq
        have hmn : m = n := eq_of_fileName (by simpa using heq)
        exact hn (hmn ▸ hm)
      obtain ⟨bytes, t, hfile⟩ := hfiles m (List.mem_cons_of_mem n hm)
      exact ⟨bytes, t, by rw [hentry, if_neg hne, hfile]⟩
    obtain ⟨hhome', hserial', hcwd', hgone, hsame⟩ :=
      removePaths_numbered (c.evict (fileName n)) hnodup hhome hrest
    have hstep : removePaths w c ((n :: numbers).map (numbered dir))
        = removePaths (delete w (numbered dir n)) (c.evict (fileName n))
            (numbers.map (numbered dir)) := by
      rw [List.map_cons, removePaths, numbered, fileName?_join_fileName]
    rw [hstep]
    refine ⟨hhome', hserial'.trans hserial, hcwd'.trans hcwd, fun m hm => ?_, fun q hq => ?_⟩
    · rcases List.mem_cons.1 hm with rfl | hm
      · rw [hsame _ fun i hi heq => hn ?_, hentry, if_pos rfl]
        have hmi : m = i := eq_of_fileName (by simpa using heq)
        exact hmi ▸ hi
      · exact hgone m hm
    · rw [hsame q fun m hm => hq m (List.mem_cons_of_mem n hm), hentry, if_neg (hq n (by simp))]

theorem kept_compileEphemeral (w : World) (k : Compiler) (name : Option String) (body : String)
    (options : Table String) :
    (k.compileEphemeral w name body options).2.tracked = k.tracked ∧
      (k.compileEphemeral w name body options).2.workingDirectory = k.workingDirectory ∧
      ∀ t, (k.compileEphemeral w name body options).1 = .ok t → t.strategy = .ephemeral := by
  simp only [compileEphemeral]
  refine ⟨trivial, trivial, fun t ht => ?_⟩
  obtain ⟨b, -, rfl⟩ := map_eq_ok.1 ht
  rfl

/-- **A compilation leaves the world and the list alone, or writes a file** to begin with. -/
theorem compile_cases {name : Option String} {source : String} {options : Table String}
    {result : Except Error Template} (hk : k.compile w name source options = (result, k', w')) :
    (w' = w ∧ k'.tracked = k.tracked ∧ k'.workingDirectory = k.workingDirectory ∧
      ∀ t, result = .ok t → t.strategy = .ephemeral) ∨
    k.compileMaterialized w name (Strategy.classify k.marker source).2 options = (result, k', w') := by
  obtain ⟨n, hway⟩ | ⟨asked, -, ⟨-, hway⟩ | ⟨-, hway⟩⟩ := k.compile_ways w name source options <;>
    rw [hway] at hk
  · cases hk
    exact .inl ⟨rfl, rfl, rfl, nofun⟩
  · obtain ⟨htracked, hdir, hstrategy⟩ :=
      kept_compileEphemeral w k name (Strategy.classify k.marker source).2 options
    obtain ⟨rfl, hrest⟩ := Prod.mk.inj hk
    obtain ⟨rfl, rfl⟩ := Prod.mk.inj hrest
    exact .inl ⟨rfl, htracked, hdir, hstrategy⟩
  · exact .inr hk

end Compiler

/-! ## An engine at work -/

/-- **An engine at work** — besides the world and the engine, what its host knows: the files that are to
be there, with their texts, and every path that was handed out. -/
structure Work where
  world : World
  engine : Engine
  standing : List (Path × String) := []
  handed : List Path := []

namespace Work

variable {w w' : World} {dir : Path} {home : Place} {s s' : Work} {t : Template}

/-- An engine with another compiler. -/
def withCompiler (e : Engine) (compiler : Compiler) : Engine :=
  { e with press := { e.press with compiler } }

/-- The file that comes with a template, if it has been materialized, and the text that it is to hold. -/
def fileOf (t : Template) (body : String) : List (Path × String) :=
  match t.strategy with
  | .ephemeral => []
  | .materialized => [(t.path?.getD "", body)]

/-- **The world changes elsewhere** — in the directory and below it everything stays, and its path goes
on leading there. -/
structure Elsewhere (dir : Path) (home : Place) (w w' : World) : Prop where
  tree : w'.disk.IsTree
  workingDirectory : w'.workingDirectory = w.workingDirectory
  way : w.place dir = .ok home → w'.place dir = .ok home
  below : ∀ q, home <+: q → w'.disk.entry? q = w.disk.entry? q
  serial : w.serial ≤ w'.serial

/-- **One step of the work** — a text is compiled, with whatever strategy and outcome, or a stored
template; a template is merged; one of this engine or another is removed; the engine is shut down; or
the world changes elsewhere. -/
inductive Step (dir : Path) (home : Place) : Work → Work → Prop
  | compiled {s : Work} {name : Option String} {source body : String} {options : Table String}
      {t : Template} {k' : Compiler} {w' : World} :
      s.engine.press.compiler.compile s.world name source options = (.ok t, k', w') →
      body = (Strategy.classify s.engine.press.compiler.marker source).2 →
      Step dir home s {
        world := w'
        engine := withCompiler s.engine k'
        standing := fileOf t body ++ s.standing
        handed := (fileOf t body).map Prod.fst ++ s.handed }
  | failed {s : Work} {name : Option String} {source : String} {options : Table String}
      {e : Error} {k' : Compiler} {w' : World} :
      s.engine.press.compiler.compile s.world name source options = (.error e, k', w') →
      Step dir home s { s with world := w', engine := withCompiler s.engine k' }
  | stored {s : Work} (name : String) (options : Table String) :
      Step dir home s { s with
        engine := withCompiler s.engine
          (s.engine.press.compiler.compileStored s.world name options).2 }
  | render {s : Work} (t : Template) (vars : Table Json) :
      Step dir home s { s with
        engine := { s.engine with press := (s.engine.press.render s.world t vars).2.2 } }
  | removed {s : Work} (t : Template) :
      Step dir home s { s with
        world := (s.engine.press.compiler.remove s.world t).2
        engine := withCompiler s.engine (s.engine.press.compiler.remove s.world t).1
        standing := s.standing.filter fun f => t.path? != some f.1 }
  | shutdown {s : Work} :
      Step dir home s { s with
        world := (s.engine.shutdown s.world).2
        engine := (s.engine.shutdown s.world).1
        standing := if s.engine.isShutDown then s.standing else [] }
  | elsewhere {s : Work} {w' : World} : Elsewhere dir home s.world w' →
      Step dir home s { s with world := w' }

/-- Any number of steps. -/
inductive Run (dir : Path) (home : Place) : Work → Work → Prop
  | start {s : Work} : Run dir home s s
  | step {s s' s'' : Work} : Run dir home s s' → Step dir home s' s'' → Run dir home s s''

/-- **The directory holds what it is to hold** — every standing file, with its text, at a place where
nothing was in the beginning; elsewhere in the directory what was there in the beginning; and the
compiler counts the standing files.  No path was handed out twice. -/
structure IsFiled (w₀ : World) (home : Place) (s : Work) : Prop where
  counted : s.engine.press.compiler.trackedCount = s.standing.length
  handed : s.handed.Nodup
  sublist : (s.standing.map Prod.fst).Sublist s.handed
  standing : ∀ path body, (path, body) ∈ s.standing → ∃ name t,
    s.world.place path = .ok (home ++ [name]) ∧
      s.world.entry path = .ok (.file body.toUTF8 t) ∧ w₀.disk.entry? (home ++ [name]) = none
  others : ∀ q, home <+: q → (∀ f ∈ s.standing, s.world.place f.1 ≠ .ok q) →
    s.world.disk.entry? q = w₀.disk.entry? q

/-! ## What every step keeps -/

open Compiler

/-- **What every step keeps** — the directory is there, the tracked paths are those of the standing files,
all paths are numbered with different numbers below the next one, and the files are where they should be. -/
structure IsKept (w₀ : World) (dir : Path) (home : Place) (s : Work) : Prop where
  workingDirectory : s.world.absolute s.engine.press.compiler.workingDirectory = dir
  isHome : s.world.IsHome dir home
  tracked : s.engine.press.compiler.tracked = s.standing.map Prod.fst
  handed : s.handed.Nodup
  numbers : ∀ path ∈ s.handed, ∃ n, n < s.world.serial ∧ path = numbered dir n
  sublist : (s.standing.map Prod.fst).Sublist s.handed
  files : ∀ n body, (numbered dir n, body) ∈ s.standing →
    (∃ t, s.world.disk.entry? (home ++ [fileName n]) = some (.file body.toUTF8 t)) ∧
      w₀.disk.entry? (home ++ [fileName n]) = none
  others : ∀ q, home <+: q → (∀ n body, (numbered dir n, body) ∈ s.standing →
    q ≠ home ++ [fileName n]) → s.world.disk.entry? q = w₀.disk.entry? q

theorem isKept_start {e : Engine}
    (hhome : w.IsHome (w.absolute e.press.compiler.workingDirectory) home)
    (hnew : e.press.compiler.tracked = []) :
    IsKept w (w.absolute e.press.compiler.workingDirectory) home { world := w, engine := e } where
  workingDirectory := rfl
  isHome := hhome
  tracked := hnew
  handed := List.nodup_nil
  numbers := by simp
  sublist := .slnil
  files := by simp
  others := fun _ _ _ => rfl

variable {w₀ : World}

/-- What is standing is numbered. -/
theorem IsKept.number (h : s.IsKept w₀ dir home) {path : Path} {body : String}
    (hin : (path, body) ∈ s.standing) : ∃ n, n < s.world.serial ∧ path = numbered dir n :=
  h.numbers path (h.sublist.subset (List.mem_map_of_mem hin))

/-- **The books agree.** -/
theorem IsKept.isFiled (h : s.IsKept w₀ dir home) : s.IsFiled w₀ home where
  counted := by rw [trackedCount, h.tracked, List.length_map]
  handed := h.handed
  sublist := h.sublist
  standing path body hin := by
    obtain ⟨n, -, rfl⟩ := h.number hin
    obtain ⟨⟨t, ht⟩, hfree⟩ := h.files n body hin
    have hplace := h.isHome.place_join (isName_fileName n)
    exact ⟨fileName n, t, hplace, World.entry_eq_ok.2 ⟨_, hplace, ht⟩, hfree⟩
  others q hq hout := by
    refine h.others q hq fun n body hin heq => hout _ hin ?_
    rw [heq]
    exact h.isHome.place_join (isName_fileName n)

/-- A step that leaves the world, the list and the directory alone. -/
theorem IsKept.of_engine (h : s.IsKept w₀ dir home) {e : Engine}
    (htracked : e.press.compiler.tracked = s.engine.press.compiler.tracked)
    (hdir : e.press.compiler.workingDirectory = s.engine.press.compiler.workingDirectory) :
    IsKept w₀ dir home { s with engine := e } where
  workingDirectory := by rw [← h.workingDirectory, hdir]
  isHome := h.isHome
  tracked := htracked.trans h.tracked
  handed := h.handed
  numbers := h.numbers
  sublist := h.sublist
  files := h.files
  others := h.others

/-- A step after which the same stands in the directory. -/
theorem IsKept.of_world (h : s.IsKept w₀ dir home) {w' : World}
    (hcwd : w'.workingDirectory = s.world.workingDirectory) (hhome : w'.IsHome dir home)
    (hserial : s.world.serial ≤ w'.serial)
    (hbelow : ∀ q, home <+: q → w'.disk.entry? q = s.world.disk.entry? q) :
    IsKept w₀ dir home { s with world := w' } where
  workingDirectory := (World.absolute_congr hcwd _).trans h.workingDirectory
  isHome := hhome
  tracked := h.tracked
  handed := h.handed
  numbers path hin := by
    obtain ⟨n, hlt, hpath⟩ := h.numbers path hin
    exact ⟨n, Nat.lt_of_lt_of_le hlt hserial, hpath⟩
  sublist := h.sublist
  files n body hin := by
    obtain ⟨hfile, hfree⟩ := h.files n body hin
    exact ⟨by rwa [hbelow _ (List.prefix_append _ _)], hfree⟩
  others q hq hout := (hbelow q hq).trans (h.others q hq hout)

/-- **A template was materialized** with a number that no path had. -/
theorem IsKept.made (h : s.IsKept w₀ dir home) {k' : Compiler} {n : Nat} {body : String} {t : Instant}
    {w' : World} (hcwd : w'.workingDirectory = s.world.workingDirectory)
    (hdir : k'.workingDirectory = s.engine.press.compiler.workingDirectory)
    (hhome : w'.IsHome dir home) (hle : s.world.serial ≤ n) (hlt : n < w'.serial)
    (hfree : s.world.disk.entry? (home ++ [fileName n]) = none)
    (htracked : k'.tracked = numbered dir n :: s.engine.press.compiler.tracked)
    (hentry : ∀ q, w'.disk.entry? q = if q = home ++ [fileName n] then some (.file body.toUTF8 t)
      else s.world.disk.entry? q) :
    IsKept w₀ dir home {
      world := w'
      engine := withCompiler s.engine k'
      standing := (numbered dir n, body) :: s.standing
      handed := numbered dir n :: s.handed } := by
  have hother : ∀ m body, (numbered dir m, body) ∈ s.standing →
      home ++ [fileName m] ≠ home ++ [fileName n] := by
    intro m body hin heq
    obtain ⟨⟨t, ht⟩, -⟩ := h.files m body hin
    rw [heq, hfree] at ht
    cases ht
  refine ⟨?_, hhome, ?_, ?_, ?_, ?_, ?_, ?_⟩
  · rw [← h.workingDirectory, ← hdir]
    exact World.absolute_congr hcwd _
  · rw [List.map_cons, ← h.tracked, ← htracked]
    rfl
  · refine List.nodup_cons.2 ⟨fun hin => ?_, h.handed⟩
    obtain ⟨m, hm, heq⟩ := h.numbers _ hin
    rw [← eq_of_numbered heq] at hm
    exact absurd hm (Nat.not_lt.2 hle)
  · intro path hin
    rcases List.mem_cons.1 hin with rfl | hin
    · exact ⟨n, hlt, rfl⟩
    · obtain ⟨m, hm, hpath⟩ := h.numbers path hin
      exact ⟨m, Nat.lt_trans (Nat.lt_of_lt_of_le hm hle) hlt, hpath⟩
  · exact h.sublist.cons_cons _
  · intro m body' hin
    rcases List.mem_cons.1 hin with heq | hin
    · obtain ⟨hpath, rfl⟩ := Prod.mk.inj heq
      obtain rfl := eq_of_numbered hpath
      refine ⟨⟨t, by rw [hentry, if_pos rfl]⟩, ?_⟩
      rw [← h.others _ (List.prefix_append _ _) fun m body hin => (hother m body hin).symm, hfree]
    · obtain ⟨⟨t', ht'⟩, hnone⟩ := h.files m body' hin
      exact ⟨⟨t', by rw [hentry, if_neg (hother m body' hin), ht']⟩, hnone⟩
  · intro q hq hout
    rw [hentry, if_neg (hout n body (by simp))]
    exact h.others q hq fun m body' hin => hout m body' (List.mem_cons_of_mem _ hin)

/-- **A file was deleted** with its template. -/
theorem IsKept.dropped (h : s.IsKept w₀ dir home) {path : Path} {body : String} (c : Chain)
    (hin : (path, body) ∈ s.standing) :
    IsKept w₀ dir home { s with
      world := delete s.world path
      engine := withCompiler s.engine { s.engine.press.compiler with
        chain := c, tracked := s.engine.press.compiler.tracked.erase path }
      standing := s.standing.filter fun f => some path != some f.1 } := by
  obtain ⟨n, -, rfl⟩ := h.number hin
  obtain ⟨⟨t, hfile⟩, hnone⟩ := h.files n body hin
  obtain ⟨hhome, hserial, hcwd, hentry⟩ := delete_eq h.isHome hfile
  refine ⟨?_, hhome, ?_, h.handed, ?_, ?_, ?_, ?_⟩
  · exact (World.absolute_congr hcwd _).trans h.workingDirectory
  · have hnodup : (s.standing.map Prod.fst).Nodup := h.sublist.nodup h.handed
    simp only [withCompiler, h.tracked, hnodup.erase_eq_filter, List.filter_map]
    congr 1
    refine List.filter_congr fun f _ => ?_
    by_cases hf : f.1 = numbered dir n
    · simp [hf]
    · simp [bne, beq_false_of_ne hf, beq_false_of_ne (Ne.symm hf)]
  · intro path hin
    obtain ⟨m, hm, hpath⟩ := h.numbers path hin
    exact ⟨m, by rwa [hserial], hpath⟩
  · exact (List.filter_sublist.map _).trans h.sublist
  · intro m body' hin'
    obtain ⟨hin', hne⟩ := List.mem_filter.1 hin'
    have hmn : home ++ [fileName m] ≠ home ++ [fileName n] := by
      intro heq
      have hmn : m = n := eq_of_fileName (by simpa using heq)
      simp [hmn] at hne
    obtain ⟨⟨t', ht'⟩, hnone'⟩ := h.files m body' hin'
    exact ⟨⟨t', by rw [hentry, if_neg hmn, ht']⟩, hnone'⟩
  · intro q hq hout
    rw [hentry]
    split
    · rename_i heq
      rw [heq, hnone]
    · rename_i hne
      refine h.others q hq fun m body' hin' heq => ?_
      by_cases hmn : m = n
      · exact hne (hmn ▸ heq)
      · refine hout m body' (List.mem_filter.2 ⟨hin', ?_⟩) heq
        simpa using fun hpath : numbered dir n = numbered dir m => hmn (eq_of_numbered hpath).symm

theorem exists_numbers {paths : List Path} (h : ∀ path ∈ paths, ∃ n, path = numbered dir n) :
    ∃ numbers : List Nat, paths = numbers.map (numbered dir) := by
  induction paths with
  | nil => exact ⟨[], rfl⟩
  | cons path paths ih =>
    obtain ⟨n, hn⟩ := h path (by simp)
    obtain ⟨numbers, hnumbers⟩ := ih fun p hp => h p (List.mem_cons_of_mem _ hp)
    exact ⟨n :: numbers, by rw [hn, hnumbers, List.map_cons]⟩

/-- **Every file was deleted** when the engine was shut down. -/
theorem IsKept.swept (h : s.IsKept w₀ dir home) (hup : s.engine.isShutDown = false) :
    IsKept w₀ dir home { s with
      world := (s.engine.shutdown s.world).2
      engine := (s.engine.shutdown s.world).1
      standing := [] } := by
  obtain ⟨numbers, hnumbers⟩ : ∃ numbers : List Nat,
      s.standing.map Prod.fst = numbers.map (numbered dir) := by
    refine exists_numbers fun path hin => ?_
    obtain ⟨n, -, hn⟩ := h.numbers path (h.sublist.subset hin)
    exact ⟨n, hn⟩
  have hnodup : numbers.Nodup := by
    have hpaths : (numbers.map (numbered dir)).Nodup := hnumbers ▸ h.sublist.nodup h.handed
    exact (List.pairwise_map.1 hpaths).imp fun hne heq => hne (congrArg _ heq)
  have hstands : ∀ n ∈ numbers, ∃ body, (numbered dir n, body) ∈ s.standing := by
    intro n hn
    have hin : numbered dir n ∈ s.standing.map Prod.fst := hnumbers ▸ List.mem_map_of_mem hn
    obtain ⟨⟨path, body⟩, hin, hpath⟩ := List.mem_map.1 hin
    exact ⟨body, by rwa [← show path = numbered dir n from hpath]⟩
  have hfiles : ∀ n ∈ numbers, ∃ bytes t,
      s.world.disk.entry? (home ++ [fileName n]) = some (.file bytes t) := by
    intro n hn
    obtain ⟨body, hin⟩ := hstands n hn
    obtain ⟨⟨t, ht⟩, -⟩ := h.files n body hin
    exact ⟨_, t, ht⟩
  obtain ⟨hhome, hserial, hcwd, hgone, hsame⟩ :=
    removePaths_numbered s.engine.press.compiler.chain hnodup h.isHome hfiles
  rw [← hnumbers, ← h.tracked] at hhome hserial hcwd hgone hsame
  simp only [Engine.shutdown, hup, Bool.false_eq_true, if_false, removeAll]
  refine ⟨?_, hhome, rfl, h.handed, ?_, List.nil_sublist _, by simp, fun q hq _ => ?_⟩
  · exact (World.absolute_congr hcwd _).trans h.workingDirectory
  · intro path hin
    obtain ⟨m, hm, hpath⟩ := h.numbers path hin
    exact ⟨m, by rwa [hserial], hpath⟩
  · by_cases hnumber : ∃ n ∈ numbers, q = home ++ [fileName n]
    · obtain ⟨n, hn, rfl⟩ := hnumber
      obtain ⟨body, hin⟩ := hstands n hn
      rw [hgone n hn, (h.files n body hin).2]
    · rw [hsame q fun n hn heq => hnumber ⟨n, hn, heq⟩]
      refine h.others q hq fun n body hin heq => hnumber ⟨n, ?_, heq⟩
      have hin : numbered dir n ∈ numbers.map (numbered dir) :=
        hnumbers ▸ List.mem_map_of_mem (f := Prod.fst) hin
      obtain ⟨m, hm, heq⟩ := List.mem_map.1 hin
      exact eq_of_numbered heq ▸ hm

/-- **A text was compiled**, and its file stands if it has been materialized. -/
theorem IsKept.compiled (h : s.IsKept w₀ dir home) {name : Option String} {source : String}
    {options : Table String} {k' : Compiler}
    (hcompile : s.engine.press.compiler.compile s.world name source options = (.ok t, k', w')) :
    IsKept w₀ dir home {
      world := w'
      engine := withCompiler s.engine k'
      standing := fileOf t (Strategy.classify s.engine.press.compiler.marker source).2 ++ s.standing
      handed := (fileOf t (Strategy.classify s.engine.press.compiler.marker source).2).map Prod.fst
        ++ s.handed } := by
  rcases compile_cases hcompile with ⟨rfl, htracked, hdir, hstrategy⟩ | hmaterialized
  · rw [fileOf, hstrategy t rfl]
    exact h.of_engine htracked hdir
  · obtain ⟨hdir, hcwd, hhome, n, hle, hlt, hfree,
      ⟨e, he, -⟩ | ⟨t', ht, hstrategy, hpath, htracked, hentry⟩⟩ :=
      compileMaterialized_cases h.isHome h.workingDirectory hmaterialized
    · cases he
    · obtain rfl := Except.ok.inj ht
      rw [fileOf, hstrategy, hpath]
      exact h.made hcwd hdir hhome hle hlt hfree htracked hentry

/-- **A compilation failed**, and the same stands as before. -/
theorem IsKept.failed (h : s.IsKept w₀ dir home) {name : Option String} {source : String}
    {options : Table String} {e : Error} {k' : Compiler}
    (hcompile : s.engine.press.compiler.compile s.world name source options = (.error e, k', w')) :
    IsKept w₀ dir home { s with world := w', engine := withCompiler s.engine k' } := by
  rcases compile_cases hcompile with ⟨rfl, htracked, hdir, -⟩ | hmaterialized
  · exact h.of_engine htracked hdir
  · obtain ⟨hdir, hcwd, hhome, n, hle, hlt, -, ⟨-, -, htracked, hentry⟩ | ⟨t, ht, -⟩⟩ :=
      compileMaterialized_cases h.isHome h.workingDirectory hmaterialized
    · exact (h.of_engine (e := withCompiler s.engine k') htracked hdir).of_world hcwd hhome
        (Nat.le_of_lt (Nat.lt_of_le_of_lt hle hlt)) fun q _ => hentry q
    · cases ht

/-- **A template was removed** — its file was deleted if it was standing, and else nothing was. -/
theorem IsKept.removed (h : s.IsKept w₀ dir home) (t : Template) :
    IsKept w₀ dir home { s with
      world := (s.engine.press.compiler.remove s.world t).2
      engine := withCompiler s.engine (s.engine.press.compiler.remove s.world t).1
      standing := s.standing.filter fun f => t.path? != some f.1 } := by
  cases hpath : t.path? with
  | none =>
    have hall : (s.standing.filter fun f => (none : Option Path) != some f.1) = s.standing :=
      List.filter_eq_self.2 fun f _ => rfl
    simp only [remove, hpath, hall]
    exact h
  | some path =>
    have hiff : s.engine.press.compiler.tracked.contains path = true ↔
        path ∈ s.standing.map Prod.fst := by
      rw [h.tracked, List.contains_iff_mem]
    by_cases htracked : s.engine.press.compiler.tracked.contains path = true
    · obtain ⟨⟨path, body⟩, hstands, rfl⟩ := List.mem_map.1 (hiff.1 htracked)
      simp only [remove, hpath, htracked, if_true]
      exact h.dropped _ hstands
    · have hall : (s.standing.filter fun f => some path != some f.1) = s.standing := by
        refine List.filter_eq_self.2 fun f hf => ?_
        have hne : path ≠ f.1 := fun heq => htracked (hiff.2 (heq ▸ List.mem_map_of_mem hf))
        simpa using hne
      simp only [remove, hpath, htracked, hall]
      exact h

theorem IsKept.step (h : s.IsKept w₀ dir home) (hstep : Step dir home s s') :
    s'.IsKept w₀ dir home := by
  cases hstep with
  | compiled hcompile hbody =>
    subst hbody
    exact h.compiled hcompile
  | failed hcompile => exact h.failed hcompile
  | stored name options => exact h.of_engine rfl rfl
  | render t vars => exact h.of_engine rfl rfl
  | removed t => exact h.removed t
  | shutdown =>
    cases hup : s.engine.isShutDown with
    | true =>
      rw [Engine.shutdown_of_isShutDown _ hup]
      exact h
    | false => exact h.swept hup
  | elsewhere hw =>
    have hhome : World.IsHome _ dir home :=
      ⟨hw.tree, hw.way h.isHome.place,
        (hw.below home (List.prefix_refl home)).trans h.isHome.directory⟩
    exact h.of_world hw.workingDirectory hhome hw.serial hw.below

theorem IsKept.run (h : s.IsKept w₀ dir home) (hrun : Run dir home s s') :
    s'.IsKept w₀ dir home := by
  induction hrun with
  | start => exact h
  | step _ hstep ih => exact ih.step hstep

/-- **The files of an engine and the list of them never drift apart.**

An engine that tracks nothing yet works in a directory that nobody else touches, while the world changes
elsewhere as it likes.  After any number of steps the directory holds, besides what was there in the
beginning, exactly the files of the templates that were materialized and are not removed, each with its
text; and so many the compiler tracks. -/
theorem isFiled_of_run {e : Engine}
    (hhome : w.IsHome (w.absolute e.press.compiler.workingDirectory) home)
    (hnew : e.press.compiler.tracked = [])
    (hrun : Run (w.absolute e.press.compiler.workingDirectory) home { world := w, engine := e } s) :
    s.IsFiled w home :=
  ((isKept_start hhome hnew).run hrun).isFiled

/-! ## A text with the marker -/

/-- Settings that name a working directory. -/
def workSettings : Settings where
  configDirectory := "/config"
  workingDirectory := some "/work"
  cacheMarker := "cached"

/-- What the settings come to. -/
@[irreducible]
def opened : Except Error Engine × World := Engine.ofSettings {} workSettings

theorem isSome_opened : opened.1.toOption.isSome = true := by decide +kernel

/-- A new engine. -/
def newEngine : Engine := opened.1.toOption.get isSome_opened

theorem isHome_opened :
    opened.2.IsHome (opened.2.absolute newEngine.press.compiler.workingDirectory) ["work"] where
  tree := Disk.isTree_of_entries (by decide +kernel)
  place := eq_ok_of_toOption (by decide +kernel)
  directory := by decide +kernel

/-- What compiling a text with the marker comes to. -/
@[irreducible]
def marked : Except Error Template × Compiler × World :=
  newEngine.press.compiler.compile opened.2 none "cached\nHello" []

theorem isSome_marked : marked.1.toOption.isSome = true := by decide +kernel

/-- The template that comes of it. -/
def markedTemplate : Template := marked.1.toOption.get isSome_marked

/-- The work when the text has been compiled. -/
def markedWork : Work where
  world := marked.2.2
  engine := withCompiler newEngine marked.2.1
  standing := fileOf markedTemplate "Hello" ++ []
  handed := (fileOf markedTemplate "Hello").map Prod.fst ++ []

theorem run_markedWork :
    Run (opened.2.absolute newEngine.press.compiler.workingDirectory) ["work"]
      { world := opened.2, engine := newEngine } markedWork := by
  have hok : marked.1 = .ok markedTemplate := eq_ok_get isSome_marked
  have hmarked : newEngine.press.compiler.compile opened.2 none "cached\nHello" []
      = (.ok markedTemplate, marked.2.1, marked.2.2) := by
    rw [← hok]
    unfold marked
    rfl
  exact .step .start (.compiled hmarked (by decide +kernel))

/-- The text without its marker is in the directory, and the engine tracks it. -/
theorem isFiled_of_run_marked :
    markedWork.IsFiled opened.2 ["work"] ∧
      markedWork.standing = [("/work/tmpl-0.tera", "Hello")] ∧
      markedWork.engine.press.compiler.trackedCount = 1 :=
  ⟨isFiled_of_run isHome_opened (by decide +kernel) run_markedWork, by decide +kernel,
    by decide +kernel⟩

end Work

end QueryPress
