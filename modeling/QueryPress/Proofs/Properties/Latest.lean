import QueryPress.Proofs.Properties.Remembering

/-!
# Proofs/Properties/Latest — a source answers from the latest readable file

A host works with a source: files change, it asks the source and snapshots that it holds, it looks, it
reloads.  `Plain` says what it should hear, with nothing kept but the contents that were used last: a
look at the file brings its present contents if they can be read.  `replies_eq` says that it hears that,
and that a source whose interval has not passed answers as one that does not look.

What carries the proof is that all that is remembered is true, which every step keeps, and that the time
of the current snapshot tells whether the file is still the one it was read from (`IsDated`), which every
step keeps as long as files are written with ever later times.
-/

namespace QueryPress.Properties

variable {w w' : World} {path : Path} {latest t : Instant} {q : Query} {i : Nat}

/-! ## What should be heard -/

/-- What can happen while a host works with a source. -/
inductive Event where
  /-- The world becomes another, whatever was done to the files and however much time has passed. -/
  | world (w : World)
  | ask (q : Query)
  /-- A snapshot is handed out. -/
  | hand
  /-- A snapshot that was handed out is asked, by the order in which they were. -/
  | askHeld (i : Nat) (q : Query)
  | look
  | reload

/-- A source that remembers nothing but the contents that were used last, and what the host holds. -/
structure Plain where
  world : World
  path : Path
  used : Table String
  held : List (Table String) := []

namespace Plain

/-- The present contents of the file if they can be read, else those used last. -/
def present (p : Plain) : Table String :=
  ((p.world.readText p.path).toOption.map read).getD p.used

/-- One event, and what the host hears; if `looks` then every answer looks at the file. -/
def step (looks : Bool) (p : Plain) : Event → Option Answer × Plain
  | .world w => (none, { p with world := w })
  | .ask q =>
    let used := if looks then p.present else p.used
    (some (q.answer used), { p with used })
  | .hand =>
    let used := if looks then p.present else p.used
    (none, { p with used, held := p.held ++ [used] })
  | .askHeld i q => (p.held[i]?.map (q.answer ·), p)
  | .look => (none, p)
  | .reload => (none, { p with used := p.present })

/-- All that the host hears. -/
def replies (looks : Bool) : Plain → List Event → List (Option Answer)
  | _, [] => []
  | p, e :: es => (p.step looks e).1 :: replies looks (p.step looks e).2 es

end Plain

/-! ## What is heard -/

/-- A source in use, with the snapshots that the host holds. -/
structure Desk where
  world : World
  shelf : Shelf
  held : List Nat := []

namespace Desk

/-- One event, and what the host hears. -/
def step (d : Desk) : Event → Option Answer × Desk
  | .world w => (none, { d with world := w })
  | .ask q =>
    let (a, shelf) := d.shelf.answer d.world q
    (some a, { d with shelf })
  | .hand =>
    let (i, shelf) := d.shelf.hand d.world
    (none, { d with shelf, held := d.held ++ [i] })
  | .askHeld i q =>
    match d.held[i]? with
    | none => (none, d)
    | some k =>
      let (a, shelf) := d.shelf.answerOf k q
      (some a, { d with shelf })
  | .look => (none, { d with shelf := (d.shelf.check d.world).2 })
  | .reload => (none, { d with shelf := d.shelf.reload d.world })

/-- All that the host hears. -/
def replies : Desk → List Event → List (Option Answer)
  | _, [] => []
  | d, e :: es => (d.step e).1 :: replies (d.step e).2 es

/-- The source after some events. -/
def run : Desk → List Event → Desk
  | d, [] => d
  | d, e :: es => run (d.step e).2 es

/-- A source that has just been opened. -/
def ofFile (w : World) (name : String) (path : Path) (interval : Nat) : Except IoError Desk :=
  (Shelf.ofFile w name path interval).map ({ world := w, shelf := · })

/-- The contents that a source would answer from without a look at the file. -/
def contents (d : Desk) : Table String := d.shelf.top.snapshot.values

/-- The contents of the snapshots that the host holds. -/
def heldContents (d : Desk) : List (Table String) :=
  d.held.map fun i => (d.shelf.sheet i).snapshot.values

/-- The source without what it remembers. -/
def plain (d : Desk) : Plain where
  world := d.world
  path := d.shelf.path
  used := d.contents
  held := d.heldContents

end Desk

/-! ## One event -/

namespace Desk

variable {d : Desk} {looks : Bool}

/-- No event takes a snapshot away, changes one, or makes the source that of another file. -/
theorem grows_step (d : Desk) (e : Event) : d.shelf.Grows (d.step e).2.shelf := by
  cases e with
  | world w => exact .refl _
  | ask q => exact Shelf.grows_answer _ _ q
  | hand => exact Shelf.grows_fresh _ _
  | askHeld i q =>
    simp only [step]
    split
    · exact .refl _
    · exact Shelf.grows_answerOf _ _ q
  | look => exact Shelf.grows_check _ _
  | reload => exact Shelf.grows_reload _ _

/-- What is remembered is true, and the host holds what there is. -/
structure IsTrue (d : Desk) : Prop where
  shelf : d.shelf.IsTrue
  held : ∀ i ∈ d.held, i ≤ d.shelf.older.length

theorem IsTrue.grows (h : d.IsTrue) {s : Shelf} (hs : s.IsTrue) (hgrows : d.shelf.Grows s) :
    IsTrue { d with shelf := s } :=
  ⟨hs, fun i hi => Nat.le_trans (h.held i hi) hgrows.length⟩

/-- What the host holds has the contents that it had. -/
theorem IsTrue.heldContents_eq (h : d.IsTrue) {s : Shelf} (hgrows : d.shelf.Grows s) :
    (d.held.map fun i => (s.sheet i).snapshot.values) = d.heldContents :=
  List.map_congr_left fun i hi => congrArg Snapshot.values (hgrows.snapshot i (h.held i hi))

theorem IsTrue.step (h : d.IsTrue) (e : Event) : (d.step e).2.IsTrue := by
  cases e with
  | world w => exact ⟨h.shelf, h.held⟩
  | ask q => exact h.grows (h.shelf.answer _ q) (Shelf.grows_answer _ _ q)
  | hand =>
    have hfresh := h.grows (h.shelf.fresh d.world) (Shelf.grows_fresh d.world _)
    refine ⟨hfresh.shelf, fun i hi => ?_⟩
    rcases List.mem_append.1 hi with hi | hi
    · exact hfresh.held i hi
    · exact Nat.le_of_eq (List.mem_singleton.1 hi)
  | askHeld i q =>
    simp only [Desk.step]
    split
    · exact h
    · exact h.grows (h.shelf.answerOf _ q) (Shelf.grows_answerOf _ _ q)
  | look => exact h.grows (h.shelf.check _) (Shelf.grows_check _ _)
  | reload => exact h.grows (h.shelf.reload _) (Shelf.grows_reload _ _)

theorem IsTrue.run (h : d.IsTrue) : ∀ es, (d.run es).IsTrue := by
  intro es
  induction es generalizing d with
  | nil => exact h
  | cons e es ih => exact ih (h.step e)

/-- What the source would answer from if it were asked now. -/
def Answers (looks : Bool) (d : Desk) : Prop :=
  (d.shelf.fresh d.world).top.snapshot.values = if looks then d.plain.present else d.contents

/-- **One event does to a source what it does to one that remembers nothing**, and the host hears the
same. -/
theorem IsTrue.step_eq (h : d.IsTrue) (hlooks : d.Answers looks) (e : Event) :
    (d.step e).1 = (d.plain.step looks e).1 ∧ (d.step e).2.plain = (d.plain.step looks e).2 := by
  cases e with
  | world w => exact ⟨rfl, rfl⟩
  | ask q =>
    have hanswer := (h.shelf.fresh d.world).top.answer_eq q
    have hgrows := Shelf.grows_answer d.world d.shelf q
    rw [hlooks] at hanswer
    refine ⟨congrArg some hanswer, ?_⟩
    simp only [Desk.step, plain, Plain.step, Plain.mk.injEq, hgrows.path, true_and]
    refine ⟨?_, h.heldContents_eq hgrows⟩
    rw [contents, Shelf.answer, Sheet.snapshot_answer]
    exact hlooks
  | hand =>
    have hgrows := Shelf.grows_fresh d.world d.shelf
    refine ⟨rfl, ?_⟩
    simp only [Desk.step, plain, Plain.step, Shelf.hand, Plain.mk.injEq, hgrows.path, true_and]
    refine ⟨hlooks, ?_⟩
    rw [heldContents, List.map_append, h.heldContents_eq hgrows, List.map_singleton, Shelf.sheet_length, hlooks]
    rfl
  | askHeld i q =>
    simp only [Desk.step, Plain.step, plain, heldContents, List.getElem?_map]
    cases d.held[i]? with
    | none => exact ⟨rfl, rfl⟩
    | some k =>
      have hgrows := Shelf.grows_answerOf d.shelf k q
      refine ⟨congrArg some ((h.shelf k).answer_eq q), ?_⟩
      simp only [Plain.mk.injEq, hgrows.path, true_and]
      exact ⟨congrArg Snapshot.values (d.shelf.top_answerOf k q), h.heldContents_eq hgrows⟩
  | look => exact ⟨rfl, rfl⟩
  | reload =>
    have hgrows := Shelf.grows_reload d.world d.shelf
    refine ⟨rfl, ?_⟩
    simp only [Desk.step, plain, Plain.step, Plain.mk.injEq, hgrows.path, true_and]
    exact ⟨Shelf.top_reload _ _, h.heldContents_eq hgrows⟩

end Desk

/-! ## A source that does not look -/

theorem Shelf.check_of_not_due {s : Shelf} (h : s.source.isDue w.now = false) :
    s.check w = (false, s) := by
  simp only [check, Source.check, h]
  rfl

theorem Shelf.fresh_of_not_due {s : Shelf} (h : s.source.isDue w.now = false) : s.fresh w = s := by
  rw [fresh, check_of_not_due h]
  rfl

namespace Desk

variable {d : Desk} {e : Event} {es : List Event}

/-- The interval does not pass during some events. -/
def Waits (d : Desk) (es : List Event) : Prop :=
  d.shelf.source.isDue d.world.now = false ∧
    ∀ w, .world w ∈ es → d.shelf.source.isDue w.now = false

theorem answers_of_not_due (h : d.shelf.source.isDue d.world.now = false) : d.Answers false := by
  rw [Answers, Shelf.fresh_of_not_due h]
  rfl

/-- While a source waits, no event changes when it looks next. -/
theorem isDue_step (h : d.shelf.source.isDue d.world.now = false) (e : Event) (now : Instant) :
    (d.step e).2.shelf.source.isDue now = d.shelf.source.isDue now := by
  cases e with
  | world w => rfl
  | ask q =>
    simp only [step, Shelf.answer, Shelf.fresh_of_not_due h]
    rfl
  | hand =>
    simp only [step, Shelf.hand, Shelf.fresh_of_not_due h]
  | askHeld i q =>
    simp only [step, Shelf.answerOf]
    split
    · rfl
    · dsimp only
      split <;> rfl
  | look => simp only [step, Shelf.check_of_not_due h]
  | reload =>
    simp only [step, Shelf.reload]
    split <;> rfl

theorem Waits.step (h : d.Waits (e :: es)) : (d.step e).2.Waits es := by
  refine ⟨?_, fun w hw => ?_⟩
  · rw [isDue_step h.1]
    cases e with
    | world w => exact h.2 w List.mem_cons_self
    | askHeld i q =>
      simp only [Desk.step]
      split <;> exact h.1
    | _ => exact h.1
  · rw [isDue_step h.1]
    exact h.2 w (List.mem_cons_of_mem _ hw)

/-- **A source that waits answers from what it has**, whatever happens to the file; only a reload brings
other contents, if the file can be read. -/
theorem IsTrue.replies_waiting (h : d.IsTrue) (hwaits : d.Waits es) :
    d.replies es = d.plain.replies false es := by
  induction es generalizing d with
  | nil => rfl
  | cons e es ih =>
    obtain ⟨hheard, hplain⟩ := h.step_eq (answers_of_not_due hwaits.1) e
    rw [replies, Plain.replies, hheard, ← hplain, ih (h.step e) hwaits.step]

/-! ## A source that looks at every answer -/

/-- **The time of the snapshot tells if it is the file's** — `latest` is the latest time that the file has
had. -/
structure IsDated (d : Desk) (latest : Instant) : Prop where
  snapshot : d.shelf.top.snapshot.modified ≤ latest
  file : ∀ bytes t, d.world.entry d.shelf.path = .ok (.file bytes t) →
    t ≤ latest ∧ d.shelf.top.snapshot.modified ≤ t ∧
      (t = d.shelf.top.snapshot.modified → d.plain.present = d.contents)

/-- A step that leaves the world, the path and the snapshot alone. -/
theorem IsDated.congr {d' : Desk} (h : d.IsDated latest) (hworld : d'.world = d.world)
    (hpath : d'.shelf.path = d.shelf.path)
    (htop : d'.shelf.top.snapshot = d.shelf.top.snapshot) : d'.IsDated latest := by
  have hplain : d'.plain.present = d.plain.present := by
    simp [Plain.present, plain, contents, hworld, hpath, htop]
  have hcontents : d'.contents = d.contents := by rw [contents, contents, htop]
  refine ⟨htop ▸ h.snapshot, fun bytes t he => ?_⟩
  rw [hworld, hpath] at he
  rw [htop, hplain, hcontents]
  exact h.file bytes t he

theorem IsDated.reload (h : d.IsDated latest) :
    IsDated { d with shelf := d.shelf.reload d.world } latest := by
  cases hfile : Snapshot.ofFile d.world d.shelf.path with
  | error e =>
    have hsame : d.shelf.reload d.world = d.shelf := by rw [Shelf.reload, hfile]
    rw [hsame]
    exact h
  | ok snapshot =>
    obtain ⟨bytes, t', text, hentry, hdecode, rfl⟩ := Snapshot.ofFile_eq_ok.1 hfile
    have htext := World.readText_eq_ok.2 ⟨bytes, t', hentry, hdecode⟩
    have hshelf : d.shelf.reload d.world = { d.shelf with
        older := d.shelf.older ++ [d.shelf.top]
        top := { snapshot := { values := read text, modified := t' } } } := by
      rw [Shelf.reload, hfile]
    rw [hshelf]
    refine ⟨(h.file bytes t' hentry).1, fun bytes₂ t₂ hentry₂ => ?_⟩
    obtain ⟨-, rfl⟩ : bytes = bytes₂ ∧ t' = t₂ := by
      simpa using hentry.symm.trans hentry₂
    refine ⟨(h.file bytes t' hentry).1, Nat.le_refl _, fun _ => ?_⟩
    simp [Plain.present, plain, contents, htext, Except.toOption]

theorem isDated_fresh (h : d.IsDated latest) :
    IsDated { d with shelf := d.shelf.fresh d.world } latest := by
  have hcheck : IsDated { d with shelf := (d.shelf.check d.world).2 } latest := h.congr rfl rfl rfl
  simp only [Shelf.fresh]
  split
  · exact hcheck.reload
  · exact hcheck

/-- **A dated source answers from the present contents** when it looks. -/
theorem IsDated.answers (h : d.IsDated latest) (hinterval : d.shelf.interval = 0) :
    d.Answers true := by
  have hdue : d.shelf.source.isDue d.world.now = true := by
    simp [Source.isDue, Shelf.source, hinterval]
  have hcheck : (d.shelf.check d.world).1 = d.shelf.source.isOutdated d.world := by
    simp only [Shelf.check, Source.check, hdue, if_true]
  rw [Answers, if_pos rfl, Shelf.fresh]
  dsimp only
  rw [hcheck]
  cases hout : d.shelf.source.isOutdated d.world with
  | true => exact Shelf.top_reload _ _
  | false =>
    cases htext : d.world.readText d.shelf.path with
    | error e => simp [Plain.present, plain, contents, htext, Except.toOption, Shelf.check]
    | ok text =>
      obtain ⟨bytes, t, hentry, -⟩ := World.readText_eq_ok.1 htext
      obtain ⟨-, hle, hsame⟩ := h.file bytes t hentry
      have htime : d.world.modified d.shelf.source.path = .ok t := World.modified_of_entry hentry
      rw [Source.isOutdated, htime] at hout
      exact (hsame (Nat.le_antisymm (Nat.not_lt.1 (of_decide_eq_false hout)) hle)).symm

/-- **Files are written with ever later times** during some events: the file stays as it is, or is written
with a time later than all that it has had, or there is none. -/
inductive Dated (path : Path) : World → Instant → List Event → Prop
  | done {w : World} {latest : Instant} : Dated path w latest []
  | other {w : World} {latest : Instant} {e : Event} {es : List Event} :
      (∀ w', e ≠ .world w') → Dated path w latest es → Dated path w latest (e :: es)
  | untouched {w w' : World} {latest : Instant} {es : List Event} :
      w'.entry path = w.entry path → Dated path w' latest es → Dated path w latest (.world w' :: es)
  | written {w w' : World} {latest t : Instant} {bytes : ByteArray} {es : List Event} :
      w'.entry path = .ok (.file bytes t) → latest < t → Dated path w' t es →
      Dated path w latest (.world w' :: es)
  | gone {w w' : World} {latest : Instant} {es : List Event} :
      w'.isFile path = false → Dated path w' latest es → Dated path w latest (.world w' :: es)

/-- An event that leaves the files as they are keeps a source dated. -/
theorem IsDated.step (h : d.IsDated latest) (he : ∀ w, e ≠ .world w) :
    (d.step e).2.IsDated latest := by
  cases e with
  | world w => exact absurd rfl (he w)
  | ask q => exact (isDated_fresh h).congr rfl rfl (Sheet.snapshot_answer _ q)
  | hand => exact (isDated_fresh h).congr rfl rfl rfl
  | askHeld i q =>
    simp only [Desk.step]
    split
    · exact h
    · exact h.congr rfl (Shelf.grows_answerOf _ _ q).path (Shelf.top_answerOf _ _ q)
  | look => exact h.congr rfl rfl rfl
  | reload => exact h.reload

theorem world_step (d : Desk) (he : ∀ w, e ≠ .world w) : (d.step e).2.world = d.world := by
  cases e with
  | world w => exact absurd rfl (he w)
  | askHeld i q =>
    simp only [step]
    split <;> rfl
  | _ => rfl

/-! ## One step of the world -/

theorem IsDated.untouched (h : d.IsDated latest) (hw : w'.entry d.shelf.path = d.world.entry d.shelf.path) :
    IsDated { d with world := w' } latest := by
  have hread : w'.readText d.shelf.path = d.world.readText d.shelf.path := by
    rw [World.readText, World.readText, World.readBytes, World.readBytes, hw]
  refine ⟨h.snapshot, fun bytes t he => ?_⟩
  obtain ⟨hle, hle', hsame⟩ := h.file bytes t (hw.symm.trans he)
  refine ⟨hle, hle', fun ht => ?_⟩
  have hpresent := hsame ht
  rw [Plain.present] at hpresent ⊢
  exact (congrArg (fun x => (x.toOption.map read).getD d.contents) hread).trans hpresent

theorem IsDated.written (h : d.IsDated latest) {bytes : ByteArray}
    (hw : w'.entry d.shelf.path = .ok (.file bytes t)) (hlt : latest < t) :
    IsDated { d with world := w' } t := by
  have hlate : d.shelf.top.snapshot.modified < t := Nat.lt_of_le_of_lt h.snapshot hlt
  refine ⟨Nat.le_of_lt hlate, fun bytes₂ t₂ he => ?_⟩
  obtain ⟨-, rfl⟩ : bytes = bytes₂ ∧ t = t₂ := by simpa using hw.symm.trans he
  exact ⟨Nat.le_refl _, Nat.le_of_lt hlate, fun ht => absurd hlate (ht ▸ Nat.lt_irrefl _)⟩

theorem IsDated.gone (h : d.IsDated latest) (hw : w'.isFile d.shelf.path = false) :
    IsDated { d with world := w' } latest := by
  refine ⟨h.snapshot, fun bytes t he => ?_⟩
  rw [World.isFile_iff.2 ⟨bytes, t, he⟩] at hw
  cases hw

/-- **A source that looks at every answer answers from the latest readable contents.** -/
theorem IsTrue.replies_looking (h : d.IsTrue) (hinterval : d.shelf.interval = 0)
    (hd : d.IsDated latest) (hdated : Dated d.shelf.path d.world latest es) :
    d.replies es = d.plain.replies true es := by
  induction es generalizing d latest with
  | nil => rfl
  | cons e es ih =>
    obtain ⟨hheard, hplain⟩ := h.step_eq (hd.answers hinterval) e
    rw [replies, Plain.replies, hheard, ← hplain]
    refine congrArg _ ?_
    have hinterval' := (d.grows_step e).interval.trans hinterval
    cases hdated with
    | other he hrest =>
      refine ih (h.step e) hinterval' (hd.step he) ?_
      rwa [(d.grows_step e).path, world_step d he]
    | untouched hw hrest => exact ih (h.step _) hinterval' (hd.untouched hw) hrest
    | written hw hlt hrest => exact ih (h.step _) hinterval' (hd.written hw hlt) hrest
    | gone hw hrest => exact ih (h.step _) hinterval' (hd.gone hw) hrest

/-! ## Snapshots that are held -/

theorem held_step (d : Desk) (e : Event) : d.held <+: (d.step e).2.held := by
  cases e with
  | hand => exact List.prefix_append _ _
  | askHeld i q =>
    simp only [step]
    split <;> exact List.prefix_refl _
  | _ => exact List.prefix_refl _

theorem IsTrue.heldContents_step (h : d.IsTrue) (e : Event) :
    d.heldContents <+: (d.step e).2.heldContents := by
  rw [← h.heldContents_eq (d.grows_step e)]
  exact (d.held_step e).map _

/-- **A snapshot that is held keeps its contents.** -/
theorem IsTrue.heldContents_run (h : d.IsTrue) (es : List Event) :
    d.heldContents <+: (d.run es).heldContents := by
  induction es generalizing d with
  | nil => exact List.prefix_refl _
  | cons e es ih => exact (h.heldContents_step e).trans (ih (h.step e))

theorem IsTrue.askHeld (h : d.IsTrue) {values : Table String}
    (hi : d.heldContents[i]? = some values) (q : Query) :
    (d.step (.askHeld i q)).1 = some (q.answer values) := by
  rw [heldContents, List.getElem?_map, Option.map_eq_some_iff] at hi
  obtain ⟨k, hk, rfl⟩ := hi
  simp only [Desk.step, hk]
  exact congrArg some ((h.shelf k).answer_eq q)

/-! ## A source that has just been opened -/

theorem ofFile_eq_ok {name : String} {interval : Nat} (h : ofFile w name path interval = .ok d) :
    ∃ text bytes t, w.readText path = .ok text ∧ w.entry path = .ok (.file bytes t) ∧
      d = { world := w, shelf := {
        name, path, interval, top := { snapshot := ⟨read text, t⟩ }, lastCheck := w.now } } := by
  obtain ⟨shelf, hshelf, rfl⟩ := map_eq_ok.1 h
  obtain ⟨snapshot, hsnapshot, hshelf⟩ := bind_eq_ok.1 hshelf
  obtain ⟨bytes, t, text, hentry, hdecode, rfl⟩ := Snapshot.ofFile_eq_ok.1 hsnapshot
  obtain rfl := Except.ok.inj hshelf
  exact ⟨text, bytes, t, World.readText_eq_ok.2 ⟨bytes, t, hentry, hdecode⟩, hentry, rfl⟩

end Desk

/-- **A source answers from the latest readable file, whatever its snapshots remember.**

A source that has been opened answers at first from the file's contents.  If its interval is zero, and
files are written with ever later times, then the host hears what it would if every answer were worked
out anew from the present contents, or where these cannot be read from those that were used last.  While
its interval does not pass, after whatever events, a source answers from what it has, until a reload
succeeds.  And a snapshot that the host holds answers from its own contents after any events. -/
theorem replies_eq {name : String} {interval : Nat} {d : Desk}
    (hopen : Desk.ofFile w name path interval = .ok d) :
    (∃ text, w.readText path = .ok text ∧ d.plain = { world := w, path, used := read text }) ∧
    (interval = 0 → ∀ es, Desk.Dated path w d.shelf.top.snapshot.modified es →
      d.replies es = d.plain.replies true es) ∧
    (∀ before es, (d.run before).Waits es →
      (d.run before).replies es = (d.run before).plain.replies false es) ∧
    (∀ before es i values, (d.run before).heldContents[i]? = some values → ∀ q,
      (((d.run before).run es).step (.askHeld i q)).1 = some (q.answer values)) := by
  obtain ⟨text, bytes, t, htext, hentry, rfl⟩ := Desk.ofFile_eq_ok hopen
  generalize hd : Desk.mk w _ [] = d
  have htrue : d.IsTrue := by
    rw [← hd]
    exact ⟨.of_sheets (Sheet.isTrue_new _) nofun, nofun⟩
  have hdated : d.IsDated t := by
    rw [← hd]
    refine ⟨Nat.le_refl t, fun bytes₂ t₂ he => ?_⟩
    obtain ⟨-, rfl⟩ : bytes = bytes₂ ∧ t = t₂ := by simpa using hentry.symm.trans he
    refine ⟨Nat.le_refl t, Nat.le_refl t, fun _ => ?_⟩
    simp [Plain.present, Desk.plain, Desk.contents, htext, Except.toOption]
  refine ⟨⟨text, htext, hd ▸ rfl⟩, fun hzero es hes => ?_, fun before es hwaits => ?_,
    fun before es i values hi q => ?_⟩
  · subst hd
    exact htrue.replies_looking hzero hdated hes
  · exact (htrue.run before).replies_waiting hwaits
  · have hbefore := htrue.run before
    refine (hbefore.run es).askHeld ?_ q
    obtain ⟨more, hmore⟩ := hbefore.heldContents_run es
    rw [← hmore, List.getElem?_append_left (List.getElem?_eq_some_iff.1 hi).1, hi]

/-! ## A file that changes, breaks and goes -/

/-- A world with one file. -/
def fileWorld (bytes : ByteArray) (time now : Instant) : World where
  disk := ⟨[(["cfg"], .file bytes time)]⟩
  now := now

/-- A source that has been opened in the world of the first file. -/
def watched (interval : Nat) : Desk where
  world := fileWorld "k.0=a".toUTF8 1 0
  shelf := {
    name := "cfg", path := "/cfg", interval, top := { snapshot := ⟨read "k.0=a", 1⟩ }, lastCheck := 0 }

theorem ofFile_watched (interval : Nat) :
    Desk.ofFile (fileWorld "k.0=a".toUTF8 1 0) "cfg" "/cfg" interval = .ok (watched interval) := by
  have htext : (fileWorld "k.0=a".toUTF8 1 0).readText "/cfg" = .ok "k.0=a" :=
    World.readText_eq_ok.2 ⟨"k.0=a".toUTF8, 1, rfl, World.fromUTF8?_toUTF8 _⟩
  have htime : (fileWorld "k.0=a".toUTF8 1 0).modified "/cfg" = .ok 1 := rfl
  simp only [Desk.ofFile, Shelf.ofFile, Snapshot.ofFile, htext, htime, bind, Except.bind]
  rfl

/-- A list is asked for before and after the file has changed, has broken and is gone. -/
def watchedEvents : List Event :=
  [.ask (.list "k"), .hand, .world (fileWorld "k.0=b".toUTF8 2 1), .ask (.list "k"),
    .askHeld 0 (.list "k"), .world (fileWorld ⟨#[0xFF]⟩ 3 2), .ask (.list "k"), .world {}, .reload,
    .ask (.list "k")]

theorem dated_watchedEvents :
    Desk.Dated "/cfg" (fileWorld "k.0=a".toUTF8 1 0) 1 watchedEvents :=
  .other nofun (.other nofun (.written rfl (by decide) (.other nofun (.other nofun
    (.written rfl (by decide) (.other nofun (.gone rfl (.other nofun (.other nofun .done)))))))))

/-- The source that looks, the one that waits, and the snapshot that was handed out. -/
theorem replies_eq_watched :
    (watched 0).replies watchedEvents = (watched 0).plain.replies true watchedEvents ∧
      (watched 5000).replies watchedEvents = (watched 5000).plain.replies false watchedEvents ∧
      (((watched 0).run [.hand]).run watchedEvents |>.step (.askHeld 0 (.get "k.0"))).1
        = some ((Query.get "k.0").answer (read "k.0=a")) := by
  obtain ⟨-, hlooking, -, hheld⟩ := replies_eq (ofFile_watched 0)
  have hwaiting := (replies_eq (ofFile_watched 5000)).2.2.1 []
  refine ⟨hlooking rfl _ dated_watchedEvents, hwaiting _ ⟨by decide, ?_⟩, ?_⟩
  · intro w hw
    simp only [watchedEvents, List.mem_cons, reduceCtorEq, Event.world.injEq, false_or,
      List.not_mem_nil, or_false] at hw
    rcases hw with rfl | rfl | rfl <;> decide
  · have hgiven : ((watched 0).run [.hand]).heldContents[0]? = some (read "k.0=a") := rfl
    exact hheld [.hand] watchedEvents 0 _ hgiven (.get "k.0")

end QueryPress.Properties
