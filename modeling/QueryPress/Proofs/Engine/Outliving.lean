import QueryPress.Proofs.Engine.Materialized

/-!
# Proofs/Engine/Outliving — the files that an engine leaves behind

An engine that is shut down goes on compiling, and a later shutdown does nothing.  So the first shutdown
deletes all that was written before it, and what is written after it stays, unless its template is
removed: those files are counted after every later shutdown and outlive the engine.  `outlives` says that
nothing else does.

The invariant of the directory, `IsKept`, holds of the state after a shutdown as it does of any other, so
all that is left is to tell which files stand then, and when they were written.
-/

namespace QueryPress.Work

open Compiler

variable {w₀ : World} {dir : Path} {home : Place} {s s₁ s' : Work} {f : Path × String} {path : Path}

/-- The work after a shutdown. -/
def shut (s : Work) : Work where
  world := (s.engine.shutdown s.world).2
  engine := (s.engine.shutdown s.world).1
  standing := if s.engine.isShutDown then s.standing else []
  handed := s.handed

/-- **The files that outlive the engine**, if it ends now. -/
def outliving (s : Work) : List (Path × String) := s.shut.standing

theorem Step.shut (s : Work) : Step dir home s s.shut := .shutdown

/-! ## What one step brings -/

/-- **Only a shutdown takes an engine down**, and nothing brings it up again. -/
theorem Step.isShutDown (hstep : Step dir home s s') :
    s'.engine.isShutDown = s.engine.isShutDown ∨ s' = s.shut := by
  cases hstep with
  | shutdown => exact .inr rfl
  | _ => exact .inl rfl

theorem Step.workDirectory (hstep : Step dir home s s') :
    s'.engine.workDirectory = s.engine.workDirectory := by
  cases hstep with
  | shutdown => simp only [Engine.shutdown]; split <;> rfl
  | _ => rfl

theorem Step.handed_subset (hstep : Step dir home s s') : s.handed ⊆ s'.handed := by
  cases hstep with
  | compiled _ _ => exact List.subset_append_right _ _
  | _ => exact List.Subset.refl _

/-- A path is handed out with its file. -/
theorem Step.standing_of_handed (hstep : Step dir home s s') (h : path ∈ s'.handed) :
    path ∈ s.handed ∨ path ∈ s'.standing.map Prod.fst := by
  cases hstep with
  | compiled _ _ =>
    rcases List.mem_append.1 h with h | h
    · exact .inr (by rw [List.map_append]; exact List.mem_append_left _ h)
    · exact .inl h
  | _ => exact .inl h

/-- A file that was not there before has a path that was not handed out before. -/
theorem Step.standing (hstep : Step dir home s s') (hnodup : s'.handed.Nodup) (h : f ∈ s'.standing) :
    f ∈ s.standing ∨ f.1 ∉ s.handed := by
  cases hstep with
  | compiled _ _ =>
    rcases List.mem_append.1 h with h | h
    · exact .inr fun hin => (List.nodup_append.1 hnodup).2.2 _ (List.mem_map_of_mem h) _ hin rfl
    · exact .inl h
  | removed t => exact .inl (List.mem_filter.1 h).1
  | shutdown =>
    split at h
    · exact .inl h
    · cases h
  | _ => exact .inl h

/-! ## What a run brings -/

theorem Run.workDirectory (hrun : Run dir home s s') :
    s'.engine.workDirectory = s.engine.workDirectory := by
  induction hrun with
  | start => rfl
  | step _ hstep ih => exact hstep.workDirectory.trans ih

/-- **Every path that was handed out was free in the beginning.** -/
theorem free_of_handed (h : s.IsKept w₀ dir home) (hnew : s.handed = []) (hrun : Run dir home s s')
    {n : Nat} (hin : numbered dir n ∈ s'.handed) : w₀.disk.entry? (home ++ [fileName n]) = none := by
  induction hrun with
  | start => rw [hnew] at hin; cases hin
  | step hrun hstep ih =>
    rcases hstep.standing_of_handed hin with hin | hin
    · exact ih hin
    · obtain ⟨⟨p, body⟩, hstands, hp⟩ := List.mem_map.1 hin
      obtain rfl : p = numbered dir n := hp
      exact (((h.run hrun).step hstep).files n body hstands).2

/-- **An engine that is down was shut down once**, and of the files it has written until then none is
standing. -/
theorem standing_since_shut (h : s.IsKept w₀ dir home) (hup : s.engine.isShutDown = false)
    (hrun : Run dir home s s') (hdown : s'.engine.isShutDown = true) :
    ∃ s₁, Run dir home s s₁ ∧ s₁.engine.isShutDown = false ∧ Run dir home s₁.shut s' ∧
      s₁.handed ⊆ s'.handed ∧ ∀ f ∈ s'.standing, f.1 ∉ s₁.handed := by
  induction hrun with
  | start => rw [hup] at hdown; cases hdown
  | @step s' s'' hrun hstep ih =>
    cases hbefore : s'.engine.isShutDown with
    | true =>
      obtain ⟨s₁, hrun₁, hup₁, hsince, hhanded, hstanding⟩ := ih hbefore
      refine ⟨s₁, hrun₁, hup₁, .step hsince hstep, List.Subset.trans hhanded hstep.handed_subset,
        fun f hf => ?_⟩
      rcases hstep.standing ((h.run hrun).step hstep).handed hf with hf | hf
      · exact hstanding f hf
      · exact fun hin => hf (hhanded hin)
    | false =>
      rcases hstep.isShutDown with hsame | rfl
      · rw [hsame, hbefore] at hdown
        cases hdown
      · refine ⟨s', hrun, hbefore, .start, List.Subset.refl _, fun f hf => ?_⟩
        simp [Work.shut, hbefore] at hf

/-! ## What is left of an engine -/

/-- **What an engine leaves behind when it ends** — `left` is what it counts after a shutdown; when it has
been dropped, these files are there with their texts, of all other paths it has handed out there is
no file, and everything else in the directory is as it was in the beginning. -/
structure Leaves (w₀ : World) (home : Place) (s : Work) (left : List (Path × String)) : Prop where
  counted : (s.engine.shutdown s.world).1.press.compiler.trackedCount = left.length
  there : ∀ f ∈ left, f.1 ∈ s.handed ∧
    ∃ t, (s.engine.drop s.world).entry f.1 = .ok (.file f.2.toUTF8 t)
  gone : ∀ path ∈ s.handed, path ∉ left.map Prod.fst → (s.engine.drop s.world).isThere path = false
  others : ∀ q, home <+: q → (∀ f ∈ left, (s.engine.drop s.world).place f.1 ≠ .ok q) →
    (s.engine.drop s.world).disk.entry? q = w₀.disk.entry? q

theorem leaves_of_run {e : Engine} {p : Path}
    (hhome : w₀.IsHome (w₀.absolute e.press.compiler.workingDirectory) home)
    (hnew : e.press.compiler.tracked = []) (hdir : e.workDirectory = .configured p)
    (hrun : Run (w₀.absolute e.press.compiler.workingDirectory) home { world := w₀, engine := e } s) :
    s.Leaves w₀ home s.outliving := by
  have hstart := isKept_start hhome hnew
  have hshut := (hstart.run hrun).step (.shut s)
  have hfiled := hshut.isFiled
  have hdrop : s.engine.drop s.world = s.shut.world := by
    have hstep : Step (w₀.absolute e.press.compiler.workingDirectory) home s s.shut := .shut s
    have hwork : s.shut.engine.workDirectory = .configured p :=
      (hstep.workDirectory.trans hrun.workDirectory).trans hdir
    rw [Engine.drop]
    exact congrArg (WorkDirectory.letGo s.shut.world) hwork
  refine ⟨hfiled.counted, fun f hf => ?_, fun path hin hout => ?_, ?_⟩
  · obtain ⟨name, t, -, hentry, -⟩ := hfiled.standing f.1 f.2 hf
    exact ⟨hfiled.sublist.subset (List.mem_map_of_mem hf), t, by rw [hdrop, hentry]⟩
  · obtain ⟨n, -, rfl⟩ := hshut.numbers path hin
    have hplace := hshut.isHome.place_join (isName_fileName n)
    have hfree := free_of_handed hstart rfl hrun hin
    have hentry : s.shut.world.disk.entry? (home ++ [fileName n]) = none := by
      rw [← hfree]
      refine hshut.others _ (List.prefix_append _ _) fun m body hstands heq => hout ?_
      have hmn : n = m := eq_of_fileName (by simpa using heq)
      rw [hmn]
      exact List.mem_map_of_mem (f := Prod.fst) hstands
    rw [hdrop, World.isThere, World.entry, numbered, hplace]
    simp only [bind, Except.bind, hentry]
    rfl
  · rw [hdrop]
    exact hfiled.others

/-- **What outlives an engine is what it has written since it was shut down.**

An engine that tracks nothing yet works in a directory that its settings name, alone.  If it has not been
shut down, a shutdown leaves nothing to count, and when it is dropped the directory is as it was in the
beginning.  If it has been, what is counted after another shutdown, and what is in the directory when
the engine is dropped, are the files of the templates that were made since then and are not removed. -/
theorem outlives {e : Engine} {p : Path}
    (hhome : w₀.IsHome (w₀.absolute e.press.compiler.workingDirectory) home)
    (hnew : e.press.compiler.tracked = []) (hdir : e.workDirectory = .configured p)
    (hup : e.isShutDown = false)
    (hrun : Run (w₀.absolute e.press.compiler.workingDirectory) home { world := w₀, engine := e } s) :
    (s.engine.isShutDown = false → s.Leaves w₀ home []) ∧
      (s.engine.isShutDown = true → s.Leaves w₀ home s.standing ∧
        ∃ s₁, Run (w₀.absolute e.press.compiler.workingDirectory) home
            { world := w₀, engine := e } s₁ ∧ s₁.engine.isShutDown = false ∧
          Run (w₀.absolute e.press.compiler.workingDirectory) home s₁.shut s ∧
          ∀ f ∈ s.standing, f.1 ∉ s₁.handed) := by
  have hleaves := leaves_of_run hhome hnew hdir hrun
  rw [outliving, shut] at hleaves
  refine ⟨fun h => by simpa [h] using hleaves, fun h => ⟨by simpa [h] using hleaves, ?_⟩⟩
  obtain ⟨s₁, hrun₁, hup₁, hsince, -, hstanding⟩ :=
    standing_since_shut (isKept_start hhome hnew) hup hrun h
  exact ⟨s₁, hrun₁, hup₁, hsince, hstanding⟩

/-! ## A text that is compiled too late -/

/-- The new engine, shut down at once. -/
def closedWork : Work := shut { world := opened.2, engine := newEngine }

/-- What compiling a text with the marker comes to then. -/
@[irreducible]
def late : Except Error Template × Compiler × World :=
  closedWork.engine.press.compiler.compile closedWork.world none "cached\nHello" []

theorem isSome_late : late.1.toOption.isSome = true := by decide +kernel

/-- The template that comes of it. -/
def lateTemplate : Template := late.1.toOption.get isSome_late

/-- The work when the text has been compiled. -/
def lateWork : Work where
  world := late.2.2
  engine := withCompiler closedWork.engine late.2.1
  standing := fileOf lateTemplate "Hello" ++ closedWork.standing
  handed := (fileOf lateTemplate "Hello").map Prod.fst ++ closedWork.handed

theorem run_lateWork :
    Run (opened.2.absolute newEngine.press.compiler.workingDirectory) ["work"]
      { world := opened.2, engine := newEngine } lateWork := by
  have hok : late.1 = .ok lateTemplate := eq_ok_get isSome_late
  have hlate : closedWork.engine.press.compiler.compile closedWork.world none "cached\nHello" []
      = (.ok lateTemplate, late.2.1, late.2.2) := by
    rw [← hok]
    unfold late
    rfl
  exact .step (.step .start (.shut _)) (.compiled hlate (by decide +kernel))

theorem configured_newEngine : newEngine.workDirectory = .configured "/work" := by decide +kernel

/-- The file of the late template is what is left. -/
theorem outlives_late :
    lateWork.Leaves opened.2 ["work"] lateWork.standing ∧
      lateWork.standing = [("/work/tmpl-0.tera", "Hello")] :=
  ⟨((outlives isHome_opened (by decide +kernel) configured_newEngine (by decide +kernel)
      run_lateWork).2 (by decide +kernel)).1, by decide +kernel⟩

/-- **It is not so that nothing outlives an engine** — the late file is counted after one more shutdown,
and is there when the engine is dropped. -/
theorem not_leaves_nothing :
    ¬ ∀ (w : World) (e : Engine) (p : Path) (home : Place) (s : Work),
      w.IsHome (w.absolute e.press.compiler.workingDirectory) home →
      e.press.compiler.tracked = [] → e.workDirectory = .configured p → e.isShutDown = false →
      Run (w.absolute e.press.compiler.workingDirectory) home { world := w, engine := e } s →
        (s.engine.shutdown s.world).1.press.compiler.trackedCount = 0 ∧
          ∀ path ∈ s.handed, (s.engine.drop s.world).isThere path = false := by
  intro h
  have hcount := (h opened.2 newEngine "/work" ["work"] lateWork isHome_opened (by decide +kernel)
    configured_newEngine (by decide +kernel) run_lateWork).1
  exact absurd hcount (by decide +kernel)

end QueryPress.Work
