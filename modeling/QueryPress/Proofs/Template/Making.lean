import QueryPress.Settings
import QueryPress.Compiler
import QueryPress.Proofs.Attempt
import QueryPress.Proofs.Disk.Leading
import QueryPress.Proofs.Template.Upkeep

/-!
# Proofs/Template/Making — every template that is compiled is upheld

A compile takes one of a few ways (`compile_ways`, `compileMaterialized_ways`).  However a template is
compiled, the loaders back all that it was made of, around a root that is still: a text in memory is no
file's, and what is written to the working directory is found there by the first loader, which does not
look at files again (`isStill_of_written`).  Only a stored template has a root that its loader may find
changed.
-/

namespace QueryPress

/-- The root that a template keeps as it was compiled; a stored template keeps none. -/
def Template.root? (t : Template) : Option Resource :=
  match t.origin with
  | .stored => none
  | _ => t.bundle.resources.head?

namespace Chain

variable {w : World} {c c' : Chain} {n : String} {r root : Resource}

theorem IsOrderly.of_settings (hs : c.IsSound) (hn : c.names.Nodup)
    (h : ∀ s ∈ c.map Loader.settings, s.checkInterval = .always ∨
      (s.checkInterval = .never ∧ s.cache = true)) : c.IsOrderly where
  prompt l hl := h l.settings (List.mem_map_of_mem hl)
  sound := hs
  nodup := hn

theorem answer_of_resolve (h : resolve w n c = (.ok root, c')) :
    answer w c n = .ok (some root) ∧ c' = (find w n c).2 := by
  rw [resolve] at h
  rw [answer]
  rcases hf : find w n c with ⟨(e | _ | s), c''⟩ <;> rw [hf] at h <;> cases h
  exact ⟨rfl, rfl⟩

/-- **What a chain says it has is what it then serves.** -/
theorem serves_of_resolve (hc : c.IsOrderly) (h : resolve w n c = (.ok root, c')) :
    root.name = n ∧ c' = (find w n c).2 ∧ answer w c n = .ok (some root) ∧ Serves w c' root := by
  obtain ⟨hans, rfl⟩ := answer_of_resolve h
  have hname := hc.sound.name_of_answer hans
  have hkeep := congrFun (answer_find hans) n
  refine ⟨hname, rfl, hans, (standsBy_find hc ⟨_, hans⟩).1 root (hkeep.trans hans), ?_⟩
  rw [hname]
  exact hkeep.trans hans

/-- A resource of a first loader that does not look at files again is still. -/
theorem isStill_of_first {l : Loader} {ls : Chain} (hc : IsOrderly (l :: ls))
    (hi : l.settings.checkInterval = .never) (hr : r.loader = l.name) : IsStill (l :: ls) r := by
  obtain ⟨-, -, hout, -⟩ := hc.of_cons
  refine .inr fun settings hs hname => ?_
  rcases List.mem_cons.1 hs with rfl | hs
  · exact hi
  · obtain ⟨m, hm, rfl⟩ := List.mem_map.1 hs
    exact absurd (List.mem_map.2 ⟨m, hm, hname.trans hr⟩) hout

end Chain

namespace Compiler

/-- **A compiler is prompt** — its first loader keeps for good what it finds in the working directory,
and the others look at a file whenever they are asked for it. -/
structure IsPrompt (k : Compiler) : Prop where
  settings : ∃ others : List LoaderSettings,
    k.chain.map Loader.settings =
      { name := Settings.ephemeralLoader, paths := [k.workingDirectory], cache := true,
        checkInterval := .never } :: others ∧
    ∀ s ∈ others, s.checkInterval = .always
  reachable : k.chain.Reachable
  nodup : k.chain.names.Nodup

variable {w w' : World} {k k' : Compiler} {t : Template}

theorem IsPrompt.isOrderly (h : k.IsPrompt) : k.chain.IsOrderly := by
  refine .of_settings h.reachable.isSound h.nodup fun s hs => ?_
  obtain ⟨others, heq, halways⟩ := h.settings
  rw [heq] at hs
  rcases List.mem_cons.1 hs with rfl | hs
  · exact .inr ⟨rfl, rfl⟩
  · exact .inl (halways s hs)

/-! ## The file of a materialized template -/

theorem head_fileName (n : Nat) : (fileName n).toList.head? = some 't' := by
  rw [fileName, String.toList_append, String.toList_append]
  rfl

theorem not_mem_fileName (n : Nat) : '/' ∉ (fileName n).toList := by
  rw [fileName, String.toList_append, String.toList_append, List.mem_append, List.mem_append]
  rintro ((h | h) | h)
  · exact absurd h (by decide)
  · rw [show toString n = n.repr from rfl, Nat.toList_repr] at h
    exact absurd (Nat.isDigit_of_mem_toDigits (by decide) (by decide) h) (by decide)
  · exact absurd h (by decide)

theorem fileName_ne {n : Nat} {s : String} (hs : s.toList.head? ≠ some 't') : fileName n ≠ s :=
  fun h => hs (h ▸ head_fileName n)

theorem not_isAbsolute_fileName (n : Nat) : Path.isAbsolute (fileName n) = false := by
  rw [Path.isAbsolute, head_fileName]
  rfl

theorem isConfined_fileName (n : Nat) : Path.isConfined (fileName n) = true := by
  have hne : fileName n ≠ "" := fileName_ne (by decide)
  have hup : ".." ≠ fileName n := (fileName_ne (by decide)).symm
  simp [Path.isConfined, hne, not_isAbsolute_fileName, Path.segments_of_not_mem (not_mem_fileName n),
    hup]

theorem fileName?_join_fileName (p : Path) (n : Nat) :
    (p.join (fileName n)).fileName? = some (fileName n) := by
  refine Path.fileName?_join (Path.segments_of_not_mem (not_mem_fileName n)) ?_
    (fileName_ne (by decide)) (not_isAbsolute_fileName n)
  have hne : fileName n ≠ "" := fileName_ne (by decide)
  have hdot : fileName n ≠ "." := fileName_ne (by decide)
  simp [Path.isStay, hne, hdot]

/-- **What is written to the working directory stands there**, whichever way its path is written. -/
theorem entry_of_written {n : Nat} {body : String} (hw : w.IsRooted)
    (h : w.writeText ((w.absolute k.workingDirectory).join (fileName n)) body = .ok w') :
    w'.entry (k.workingDirectory.join (fileName n)) = .ok (.file body.toUTF8 w.now) := by
  obtain ⟨hdir, at_, hplace, hentry⟩ := World.entry_of_writeAt h
  have hw' : w'.IsRooted := ⟨by rw [hdir]; exact hw.absolute, by rw [hdir]; exact hw.straight⟩
  have hrel := not_isAbsolute_fileName n
  have hplace' : w'.place (k.workingDirectory.join (fileName n)) = .ok at_ := by
    cases habs : k.workingDirectory.isAbsolute with
    | true => simpa [World.absolute, habs] using hplace
    | false =>
      have hjoin := Path.not_isAbsolute_join habs hrel
      have hpath : (w.absolute k.workingDirectory).join (fileName n)
          = w'.absolute (k.workingDirectory.join (fileName n)) := by
        rw [World.absolute, World.absolute, habs, hjoin, hdir]
        simp only [Bool.false_eq_true, if_false]
        exact Path.join_join habs hrel hjoin
      rw [hpath] at hplace
      refine World.place_of_absolute hw' (fun hempty => ?_) hplace
      have hname := fileName?_join_fileName k.workingDirectory n
      rw [hempty] at hname
      cases hname
  simp [World.entry, hplace', hentry, bind, Except.bind]

theorem isFile_of_written {n : Nat} {body : String} (hw : w.IsRooted)
    (h : w.writeText ((w.absolute k.workingDirectory).join (fileName n)) body = .ok w') :
    w'.isFile (k.workingDirectory.join (fileName n)) = true :=
  World.isFile_iff.2 ⟨body.toUTF8, w.now, entry_of_written hw h⟩

/-- A loader of one directory finds every file that is there. -/
theorem load_ne_none {l : Loader} {n : String} {directory : Path}
    (hpaths : l.settings.paths = [directory]) (hn : Path.isConfined n = true)
    (hfile : w.isFile (directory.join n) = true) : (l.load w n).1 ≠ .ok none := by
  intro hload
  have hlocate : l.locate? w n = some (directory.join n) := by
    simp [Loader.locate?, hn, hpaths, hfile]
  rw [Loader.fst_load] at hload
  split at hload
  · cases hload
  · rw [Loader.found, hlocate] at hload
    cases hread : l.read w n (directory.join n) <;> simp [hread, Except.map] at hload

/-- **The first loader finds what was written**, and what it finds is still. -/
theorem isStill_of_written {n : String} {root : Resource} (hk : k.IsPrompt)
    (hn : Path.isConfined n = true) (hfile : w.isFile (k.workingDirectory.join n) = true)
    (h : Chain.answer w k.chain n = .ok (some root)) :
    Chain.IsStill (k.chain.find w n).2 root := by
  have hc := hk.isOrderly
  obtain ⟨others, heq, -⟩ := hk.settings
  obtain ⟨l, ls, hchain, hset, -⟩ := List.map_eq_cons_iff.1 heq
  rw [hchain] at hc h ⊢
  refine Chain.IsStill.congr ?_ (Chain.settings_find w n (l :: ls))
  obtain ⟨-, hsound, -, -⟩ := hc.of_cons
  rw [Chain.answer_cons] at h
  cases hload : (l.load w n).1 with
  | error e => simp [hload] at h
  | ok a =>
    cases a with
    | some r =>
      obtain rfl : r = root := by simpa [hload] using h
      exact Chain.isStill_of_first hc (by rw [hset]) (hsound.eq_of_load hload).2
    | none => exact absurd hload (load_ne_none (by rw [hset]) hn hfile)

/-! ## The ways of a compile -/

/-- The path of the file that is written next. -/
def nextPath (k : Compiler) (w : World) : Path :=
  (w.freshPath fun n => (w.absolute k.workingDirectory).join (fileName n)).1

/-- The name of the file that is written next. -/
def nextFile (k : Compiler) (w : World) : String := (k.nextPath w).fileName?.getD ""

theorem exists_nextFile (k : Compiler) (w : World) : ∃ n,
    k.nextPath w = (w.absolute k.workingDirectory).join (fileName n) ∧ k.nextFile w = fileName n :=
  ⟨_, rfl, by rw [nextFile, nextPath, World.freshPath, fileName?_join_fileName, Option.getD_some]⟩

/-- **A compile takes one of three ways** — the options are refused, or the text is put in place in memory,
or in a file. -/
theorem compile_ways (w : World) (k : Compiler) (name : Option String) (source : String)
    (options : Table String) :
    (∃ n, k.compile w name source options
      = (.error (.compile Strategy.option (.unknownStrategy n)), k, w)) ∨
    ∃ asked, Strategy.ofOptions options = .ok asked ∧
      ((asked.getD (Strategy.classify k.marker source).1 = .ephemeral ∧
        k.compile w name source options
          = ((k.compileEphemeral w name (Strategy.classify k.marker source).2 options).1,
            (k.compileEphemeral w name (Strategy.classify k.marker source).2 options).2, w)) ∨
      (asked.getD (Strategy.classify k.marker source).1 = .materialized ∧
        k.compile w name source options
          = k.compileMaterialized w name (Strategy.classify k.marker source).2 options)) := by
  rw [compile]
  dsimp only
  cases hasked : Strategy.ofOptions options with
  | error e =>
    unfold Strategy.ofOptions at hasked
    split at hasked
    · cases hasked
    · split at hasked
      · cases hasked
      · obtain rfl := Except.error.inj hasked
        exact .inl ⟨_, rfl⟩
  | ok asked =>
    refine .inr ⟨asked, rfl, ?_⟩
    dsimp only
    cases hstrategy : asked.getD (Strategy.classify k.marker source).1 with
    | ephemeral => exact .inl ⟨rfl, rfl⟩
    | materialized => exact .inr ⟨rfl, rfl⟩

/-- **A text is put in a file, or it is not** — it cannot be written; or it is written and then compiled
under the name of the file, which fails, and the loaders forget the name and the file is deleted; or it
makes a template, and the file is taken down. -/
theorem compileMaterialized_ways (w : World) (k : Compiler) (name : Option String) (body : String)
    (options : Table String) : ∃ serial,
    k.compileMaterialized w name body options
        = (.error (.compile (name.getD namelessLabel) .temporaryFile), k, { w with serial }) ∨
      ∃ v, World.writeText { w with serial } (k.nextPath w) body = .ok v ∧
        ((∃ e c, compileNamed v (name.getD namelessLabel) (k.nextFile w) k.chain = (.error e, c) ∧
            k.compileMaterialized w name body options
              = (.error e, { k with chain := c.evict (k.nextFile w) }, delete v (k.nextPath w))) ∨
          ∃ bundle c, compileNamed v (name.getD namelessLabel) (k.nextFile w) k.chain = (.ok bundle, c) ∧
            k.compileMaterialized w name body options
              = (.ok { name, strategy := .materialized, origin := .materialized (k.nextPath w), options,
                       bundle },
                { k with chain := c, tracked := k.nextPath w :: k.tracked }, v)) := by
  obtain ⟨serial, hfresh⟩ : ∃ serial,
      w.freshPath (fun n => (w.absolute k.workingDirectory).join (fileName n))
        = (k.nextPath w, { w with serial }) := ⟨_, rfl⟩
  refine ⟨serial, ?_⟩
  unfold compileMaterialized
  rw [nextFile, hfresh]
  dsimp only
  cases World.writeText { w with serial } (k.nextPath w) body with
  | error x => exact .inl rfl
  | ok v =>
    refine .inr ⟨v, rfl, ?_⟩
    dsimp only
    rcases compileNamed v (name.getD namelessLabel) _ k.chain with ⟨(e | bundle), c⟩
    · exact .inl ⟨e, c, rfl, rfl⟩
    · exact .inr ⟨bundle, c, rfl, rfl⟩

/-! ## What compiling comes to -/

/-- **A template has been made** by a compiler, which with the world is left behind as it is then. -/
inductive IsMade (w : World) (k : Compiler) : Template → Compiler → World → Prop
  | compiled {name : Option String} {source : String} {options : Table String} {t : Template}
      {k' : Compiler} {w' : World} :
      k.compile w name source options = (.ok t, k', w') → IsMade w k t k' w'
  | stored {name : String} {options : Table String} {t : Template} {k' : Compiler} :
      k.compileStored w name options = (.ok t, k') → IsMade w k t k' w

/-- To compile what the chain has under a name is to make a bundle of it. -/
theorem compileNamed_eq_ok {label n : String} {c c' : Chain} {b : Bundle}
    (hc : c.IsOrderly) (h : compileNamed w label n c = (.ok b, c')) : ∃ root, root.name = n ∧
      Chain.answer w c n = .ok (some root) ∧ Chain.Serves w (c.find w n).2 root ∧
      Bundle.ofRoot w label root (c.find w n).2 = (.ok b, c') := by
  rw [compileNamed] at h
  rcases hres : c.resolve w n with ⟨(e | root), c₁⟩ <;> rw [hres] at h
  · cases h
  · obtain ⟨hname, rfl, hans, hserves⟩ := Chain.serves_of_resolve hc hres
    exact ⟨root, hname, hans, hserves, h⟩

theorem compileEphemeral_eq_ok {name : Option String} {body : String} {options : Table String}
    (h : k.compileEphemeral w name body options = (.ok t, k')) :
    t.origin = .inline ∧ k'.workingDirectory = k.workingDirectory ∧
      ∃ label, Bundle.ofRoot w label (inlineResource (traceId body) body) k.chain
        = (.ok t.bundle, k'.chain) := by
  simp only [compileEphemeral] at h
  obtain ⟨ht, hk⟩ := Prod.mk.inj h
  obtain ⟨b, hb, rfl⟩ := map_eq_ok.1 ht
  rw [← hk]
  exact ⟨rfl, rfl, _, Prod.ext hb rfl⟩

theorem compileStored_eq_ok {name : String} {options : Table String}
    (h : k.compileStored w name options = (.ok t, k')) :
    t.origin = .stored ∧ k'.workingDirectory = k.workingDirectory ∧
      compileNamed w name name k.chain = (.ok t.bundle, k'.chain) := by
  simp only [compileStored] at h
  obtain ⟨ht, hk⟩ := Prod.mk.inj h
  obtain ⟨b, hb, rfl⟩ := map_eq_ok.1 ht
  rw [← hk]
  exact ⟨rfl, rfl, Prod.ext hb rfl⟩

theorem compileMaterialized_eq_ok {name : Option String} {body : String} {options : Table String}
    (h : k.compileMaterialized w name body options = (.ok t, k', w')) :
    t.strategy = .materialized ∧ (∃ path, t.origin = .materialized path) ∧
      k'.workingDirectory = k.workingDirectory ∧
      ∃ label n serial, World.writeText { w with serial }
          ((w.absolute k.workingDirectory).join (fileName n)) body = .ok w' ∧
        compileNamed w' label (fileName n) k.chain = (.ok t.bundle, k'.chain) := by
  obtain ⟨serial, hm | ⟨v, hwrite, ⟨e, c, -, hm⟩ | ⟨bundle, c, hnamed, hm⟩⟩⟩ :=
    k.compileMaterialized_ways w name body options <;> rw [hm] at h <;> cases h
  obtain ⟨n, hpath, hfile⟩ := k.exists_nextFile w
  rw [hpath] at hwrite
  rw [hfile] at hnamed
  exact ⟨rfl, ⟨_, rfl⟩, rfl, _, n, serial, hwrite, hnamed⟩

/-- **A text that makes a template** is put in place in memory, with the world as it was, or in a file. -/
theorem compile_eq_ok {name : Option String} {source : String} {options : Table String}
    (h : k.compile w name source options = (.ok t, k', w')) :
    (k.compileEphemeral w name (Strategy.classify k.marker source).2 options = (.ok t, k') ∧ w' = w) ∨
      k.compileMaterialized w name (Strategy.classify k.marker source).2 options = (.ok t, k', w') := by
  obtain ⟨n, hway⟩ | ⟨asked, -, ⟨-, hway⟩ | ⟨-, hway⟩⟩ := k.compile_ways w name source options <;>
    rw [hway] at h
  · cases h
  · obtain ⟨ht, hrest⟩ := Prod.mk.inj h
    obtain ⟨hk, hw⟩ := Prod.mk.inj hrest
    exact .inl ⟨Prod.ext ht hk, hw.symm⟩
  · exact .inr h

/-- **Where the root of a template comes from, and the loaders when its bundle is made** — it is a text
in memory and no loader has been asked, or a loader was asked for it; `kept` is the root unless it may
change. -/
inductive Founds (w : World) (k : Compiler) : Resource → Chain → (kept : Option Resource) → Prop
  | given {root : Resource} : root.IsGiven → Founds w k root k.chain (some root)
  | asked {root : Resource} {n : String} {kept : Option Resource} :
      Chain.answer w k.chain n = .ok (some root) →
      (kept = some root ∧ Chain.IsStill (k.chain.find w n).2 root) ∨
        (kept = none ∧ Chain.Serves w (k.chain.find w n).2 root) →
      Founds w k root (k.chain.find w n).2 kept

variable {root : Resource} {c : Chain} {kept : Option Resource}

theorem Founds.isOrderly (h : Founds w k root c kept) (hk : k.IsPrompt) : c.IsOrderly := by
  cases h with
  | given => exact hk.isOrderly
  | asked => exact hk.isOrderly.find w _

theorem Founds.settings_eq (h : Founds w k root c kept) :
    c.map Loader.settings = k.chain.map Loader.settings := by
  cases h with
  | given => rfl
  | asked => exact Chain.settings_find w _ k.chain

theorem Founds.keeps {R : Trait} (h : Founds w k root c kept) (hR : R.IsRegular w)
    (hk : k.IsPrompt) (hkeeps : Chain.Keeps R k.chain) :
    Chain.Keeps R c ∧ ((kept = some root ∧ root.IsGiven) ∨ Chain.Has R c root) := by
  cases h with
  | given hgiven => exact ⟨hkeeps, .inl ⟨rfl, hgiven⟩⟩
  | asked hans _ =>
    have hhas := Chain.Keeps.has_of_answer hR hk.isOrderly.sound hkeeps hans
    exact ⟨hkeeps.find hR _, .inr (hhas.congr (Chain.settings_find w _ k.chain))⟩

/-- **Every template that is made is a bundle of a root** that was given or asked for. -/
theorem IsMade.founds (hk : k.IsPrompt) (hw : w.IsRooted) (h : IsMade w k t k' w') :
    k'.workingDirectory = k.workingDirectory ∧ ∃ label root c, Founds w' k root c t.root? ∧
      Bundle.ofRoot w' label root c = (.ok t.bundle, k'.chain) := by
  have hroot : ∀ {root : Resource} {c : Chain} {label : String}, c.IsSound →
      Bundle.ofRoot w' label root c = (.ok t.bundle, k'.chain) → t.origin ≠ .stored →
        t.root? = some root := by
    intro root c label hc hbundle hstored
    have hhead := Bundle.head?_of_ofRoot hc (congrArg Prod.fst hbundle)
    unfold Template.root?
    split
    · exact absurd ‹_› hstored
    · exact hhead
  cases h with
  | compiled h =>
    obtain ⟨hmemory, rfl⟩ | hfile := compile_eq_ok h
    · obtain ⟨horigin, hdir, label, hbundle⟩ := compileEphemeral_eq_ok hmemory
      refine ⟨hdir, label, _, k.chain, ?_, hbundle⟩
      rw [hroot hk.isOrderly.sound hbundle (by simp [horigin])]
      exact .given rfl
    · obtain ⟨-, ⟨path, horigin⟩, hdir, label, n, serial, hwrite, hnamed⟩ :=
        compileMaterialized_eq_ok hfile
      obtain ⟨root, -, hans, -, hbundle⟩ := compileNamed_eq_ok hk.isOrderly hnamed
      refine ⟨hdir, label, root, _, ?_, hbundle⟩
      rw [hroot (hk.isOrderly.find w' _).sound hbundle (by simp [horigin])]
      have hthere := isFile_of_written (w := { w with serial }) ⟨hw.absolute, hw.straight⟩ hwrite
      exact .asked hans (.inl ⟨rfl, isStill_of_written hk (isConfined_fileName n) hthere hans⟩)
  | stored h =>
    obtain ⟨horigin, hdir, hnamed⟩ := compileStored_eq_ok h
    obtain ⟨root, -, hans, hserves, hbundle⟩ := compileNamed_eq_ok hk.isOrderly hnamed
    refine ⟨hdir, _, root, _, ?_, hbundle⟩
    rw [show t.root? = none by simp [Template.root?, horigin]]
    exact .asked hans (.inr ⟨rfl, hserves⟩)

/-- **Every template that is made is upheld** by the loaders it was made with. -/
theorem IsMade.isUpheld (hk : k.IsPrompt) (hw : w.IsRooted) (h : IsMade w k t k' w') :
    k'.chain.IsOrderly ∧ t.bundle.IsUpheld w' k'.chain t.root? := by
  obtain ⟨-, label, root, c, hfounds, hbundle⟩ := h.founds hk hw
  have hc := hfounds.isOrderly hk
  have hmade : (Bundle.ofRoot w' label root c).2 = k'.chain := congrArg Prod.snd hbundle
  rw [← hmade]
  refine ⟨Bundle.isOrderly_ofRoot hc w' label root,
    Bundle.isUpheld_of_ofRoot hc ?_ (congrArg Prod.fst hbundle)⟩
  generalize t.root? = kept at hfounds
  cases hfounds with
  | given hgiven => exact .inl ⟨rfl, .inl hgiven⟩
  | asked _ h => exact h

/-- **A regular property of the copies** holds of all that a template is made of, but for a text in
memory. -/
theorem IsMade.has {R : Trait} (hk : k.IsPrompt) (hw : w.IsRooted) (hR : R.IsRegular w')
    (h : IsMade w k t k' w') (hkeeps : Chain.Keeps R k.chain) :
    k'.chain.map Loader.settings = k.chain.map Loader.settings ∧ Chain.Keeps R k'.chain ∧
      ∀ r ∈ t.bundle.resources,
        (t.root? = some r ∧ r.IsGiven) ∨ Chain.Has R k'.chain r := by
  obtain ⟨-, label, root, c, hfounds, hbundle⟩ := h.founds hk hw
  have hc := hfounds.isOrderly hk
  have hmade : (Bundle.ofRoot w' label root c).2 = k'.chain := congrArg Prod.snd hbundle
  have hset := Bundle.settings_ofRoot hc.sound w' label root
  obtain ⟨hkeeps, hroot⟩ := hfounds.keeps hR hk hkeeps
  obtain ⟨hkeeps', hmembers⟩ := Bundle.has_of_ofRoot hR hc.sound hkeeps (congrArg Prod.fst hbundle)
  rw [← hmade]
  refine ⟨hset.trans hfounds.settings_eq, hkeeps', fun r hr => ?_⟩
  rcases hmembers r hr with rfl | hhas
  · exact hroot.imp id (·.congr hset)
  · exact .inr hhas

end Compiler

end QueryPress
