import Mathlib.Data.List.Basic
import QueryPress.Proofs.Attempt
import QueryPress.Proofs.Disk.Beside
import QueryPress.Proofs.Markup.Renaming
import QueryPress.Proofs.Merge.Keeping
import QueryPress.Proofs.Merge.Repeating

/-!
# Proofs/Merge/Renaming — a merge writes the same whatever its pages are called

A renamed scene has the same pages under other names, and a world that differs in one file which no
property source reads.  Each step of a merge comes to the same in both scenes and leaves the same draft,
renamed (`Merge.Follows`): pages are told apart by their names, but no name of a page is ever written.
So whole merges write the same (`Scene.IsRenamed.merge`).
-/

namespace QueryPress

variable {σ : Equiv.Perm String} {file : String} {home : Place} {v w : World}

namespace Properties

variable {s : Source} {registry : Registry}

/-! ## Property sources that read other files -/

/-- **A source that reads another file shows the same** in worlds that differ in one. -/
theorem Source.fresh_beside (hw : World.Beside (home ++ [file]) v w) (hs : ¬ s.path.EndsIn file) :
    s.fresh w = s.fresh v := by
  have hfile : s.isOutdated w = s.isOutdated v ∧
      (s.isOutdated v = true → Snapshot.ofFile w s.path = Snapshot.ofFile v s.path) := by
    obtain ⟨t, hv, hw', htext⟩ | ⟨x, x', hv, hw'⟩ := hw.modified hs <;>
      simp only [isOutdated, Snapshot.ofFile, hv, hw']
    · exact ⟨trivial, fun _ => by rw [htext]⟩
    · exact ⟨trivial, fun h => absurd h Bool.false_ne_true⟩
  obtain ⟨houtdated, hread⟩ := hfile
  unfold fresh check
  rw [hw.now]
  by_cases hdue : s.isDue v.now = true
  · simp only [hdue, if_true, houtdated]
    by_cases hlater : s.isOutdated v = true
    · simp only [hlater, if_true, reload, hread hlater]
    · simp only [hlater]
      rfl
  · simp only [hdue]
    rfl

/-- **No source reads a file.** -/
def Registry.IsElsewhere (file : String) (registry : Registry) : Prop :=
  ∀ p ∈ registry, ¬ p.2.path.EndsIn file

theorem Registry.IsElsewhere.fresh (h : registry.IsElsewhere file) (w : World) :
    (registry.fresh w).IsElsewhere file := by
  intro p hp
  obtain ⟨q, hq, rfl⟩ := List.mem_map.1 hp
  simpa using h q hq

theorem Registry.IsElsewhere.fresh_eq (h : registry.IsElsewhere file)
    (hw : World.Beside (home ++ [file]) v w) : registry.fresh w = registry.fresh v := by
  refine List.map_congr_left fun p hp => ?_
  obtain ⟨n, s⟩ := p
  dsimp only
  rw [Source.fresh_beside hw (h _ hp)]

theorem Registry.IsElsewhere.freshAt? (h : registry.IsElsewhere file)
    (hw : World.Beside (home ++ [file]) v w) (n : String) :
    registry.freshAt? w n = registry.freshAt? v n := by
  simp only [Registry.freshAt?]
  cases hs : Table.get? registry n with
  | none => rw [Option.map_none, Option.map_none]
  | some s => rw [Option.map_some, Option.map_some, Source.fresh_beside hw (h _ (Table.mem_of_get? hs))]

theorem Registry.IsElsewhere.insert_fresh {n : String} (h : registry.IsElsewhere file)
    (hs : Table.get? registry n = some s) :
    Registry.IsElsewhere file (Table.insert registry n (s.fresh v)) := by
  intro p hp
  rcases Table.mem_insert hp with rfl | hp
  · simpa using h (n, s) (Table.mem_of_get? hs)
  · exact h p hp

end Properties

open Properties (Registry)

/-- **A function reads the same** from sources that read other files. -/
theorem Lookup.run_beside {registry : Registry} (h : registry.IsElsewhere file)
    (hw : World.Beside (home ++ [file]) v w) (lookup : Lookup) (arguments : Table Json) :
    lookup.run w registry arguments = lookup.run v registry arguments ∧
      ∀ x after, lookup.run v registry arguments = .ok (x, after) → after.IsElsewhere file := by
  refine ⟨by simp only [Lookup.run, fun n => (h.freshAt? hw n)], fun x after hrun => ?_⟩
  obtain ⟨n, key, s, -, -, hs, -, rfl⟩ := Lookup.run_eq_ok.1 hrun
  exact h.insert_fresh hs

/-! ## Drafts and scenes -/

/-- A frame of the renamed page. -/
def Frame.renamed (σ : Equiv.Perm String) (f : Frame) : Frame := { f with page := σ f.page }

/-- A block of the renamed page. -/
def Entered.renamed (σ : Equiv.Perm String) (b : Entered) : Entered := { b with owner := σ b.owner }

/-- A draft with its pages renamed. -/
def Draft.renamed (σ : Equiv.Perm String) (d : Draft) : Draft :=
  { d with frames := d.frames.map (·.renamed σ), entered := d.entered.map (·.renamed σ) }

/-- **A scene is another one under other names** — its pages are renamed, and its world differs in a
file. -/
structure Scene.IsRenamed (σ : Equiv.Perm String) (home : Place) (file : String) (s s' : Scene) :
    Prop where
  book : s.book.IsRenamed σ s'.book
  entry : s'.entry = σ s.entry
  vars : s'.vars = s.vars
  world : World.Beside (home ++ [file]) s.world s'.world

namespace Scene.IsRenamed

variable {s s' : Scene}

/-- A page has the same parents in both scenes. -/
theorem ancestors (h : s.IsRenamed σ home file s') (n : String) :
    s'.ancestors (σ n) = s.ancestors n ∧ (s.ancestors n).map σ = s.ancestors n := by
  rw [Scene.ancestors, Scene.ancestors, h.book.ancestors?]
  cases has : s.book.ancestors? n with
  | none => exact ⟨rfl, rfl⟩
  | some as => exact ⟨rfl, h.book.map_ancestors? has⟩

theorem root (h : s.IsRenamed σ home file s') : s'.root = σ s.root := by
  obtain ⟨hsame, hfixed⟩ := h.ancestors s.entry
  rw [Scene.root, Scene.root, h.entry, hsame, ← Option.getD_map σ, ← List.getLast?_map, hfixed]

theorem body (h : s.IsRenamed σ home file s') : s'.body = s.body := by
  rw [Scene.body, Scene.body, h.root, h.book.get?]

/-- **A block is defined on the same page**, under its other name. -/
theorem definition? (h : s.IsRenamed σ home file s') (name : String) : ∀ (level : Nat)
    (pages : List String), Merge.definition? s'.book name level (pages.map σ)
      = (Merge.definition? s.book name level pages).map fun e => (e.1.renamed σ, e.2)
  | _, [] => rfl
  | level, page :: pages => by
    rw [List.map_cons, Merge.definition?, Merge.definition?, h.book.get?]
    split
    · rfl
    · exact h.definition? name (level + 1) pages

end Scene.IsRenamed

namespace Merge

variable {α β : Type} {s s' : Scene} {m m' : Merge α} {f f' : α → Merge β} {descend : Descend}

/-! ## Steps that follow each other -/

/-- **A step follows another in a renamed scene** — it comes to the same there, and leaves the same draft
with its pages renamed, whose sources still read other files. -/
def Follows (σ : Equiv.Perm String) (file : String) (s s' : Scene) (m m' : Merge α) : Prop :=
  ∀ d : Draft, d.registry.IsElsewhere file →
    m' s' (d.renamed σ) = ((m s d).1, (m s d).2.renamed σ) ∧ (m s d).2.registry.IsElsewhere file

theorem Follows.pure (a : α) : Follows σ file s s' (pure a) (pure a) := fun _ hd => ⟨rfl, hd⟩

theorem Follows.throw (e : MergeError) : Follows σ file s s' (throw e : Merge α) (throw e) :=
  fun _ hd => ⟨rfl, hd⟩

theorem Follows.bind (hm : Follows σ file s s' m m') (hf : ∀ a, Follows σ file s s' (f a) (f' a)) :
    Follows σ file s s' (m >>= f) (m' >>= f') := by
  intro d hd
  obtain ⟨hrun, hafter⟩ := hm d hd
  rw [bind_run, bind_run, hrun]
  generalize m s d = x at hafter
  obtain ⟨(e | a), d'⟩ := x
  · exact ⟨rfl, hafter⟩
  · exact hf a d' hafter

theorem Follows.read {f f' : Scene → Merge α} (hf : Follows σ file s s' (f s) (f' s')) :
    Follows σ file s s' (read >>= f) (read >>= f') := hf

theorem Follows.get {f f' : Draft → Merge α}
    (hf : ∀ d, Follows σ file s s' (f d) (f' (d.renamed σ))) :
    Follows σ file s s' (get >>= f) (get >>= f') := fun d hd => hf d d hd

theorem Follows.modify {g g' : Draft → Draft} (hg : ∀ d, g' (d.renamed σ) = (g d).renamed σ)
    (hregistry : ∀ d, (g d).registry = d.registry) :
    Follows σ file s s' (modify g) (modify g') := by
  intro d hd
  rw [← hregistry d] at hd
  exact ⟨congrArg (Prod.mk _) (hg d), hd⟩

theorem Follows.captured {m m' : Merge Unit} (hm : Follows σ file s s' m m') :
    Follows σ file s s' (captured m) (captured m') := by
  intro d hd
  obtain ⟨hrun, hafter⟩ := hm { d with written := [] } hd
  have hrun' : m' s' { d.renamed σ with written := [] }
    = ((m s { d with written := [] }).1, (m s { d with written := [] }).2.renamed σ) := hrun
  unfold Merge.captured
  rw [hrun']
  generalize m s { d with written := [] } = x at hafter
  obtain ⟨(e | ⟨⟩), d'⟩ := x <;> exact ⟨rfl, hafter⟩

theorem Follows.orFalse {m m' : Merge Bool} (hm : Follows σ file s s' m m') :
    Follows σ file s s' (orFalse m) (orFalse m') := by
  intro d hd
  obtain ⟨hrun, hafter⟩ := hm d hd
  unfold Merge.orFalse
  rw [hrun]
  generalize m s d = x at hafter
  obtain ⟨(e | b), d'⟩ := x <;> exact ⟨rfl, hafter⟩

theorem Follows.operationValue {m m' : Merge (Option Number)} (hm : Follows σ file s s' m m') :
    Follows σ file s s' (operationValue m) (operationValue m') := by
  intro d hd
  obtain ⟨hrun, hafter⟩ := hm d hd
  unfold Merge.operationValue
  rw [hrun]
  generalize m s d = x at hafter
  obtain ⟨(e | b), d'⟩ := x <;> exact ⟨rfl, hafter⟩

/-- **A lookup reads the same**, from sources that read other files. -/
theorem Follows.lookUp (h : s.IsRenamed σ home file s') (lookup : Lookup) (arguments : Table Json) :
    Follows σ file s s' (lookUp lookup arguments) (lookUp lookup arguments) := by
  intro d hd
  obtain ⟨hrun, hafter⟩ := Lookup.run_beside hd (h.world.later d.asked) lookup arguments
  have hrun' : lookup.run (s'.world.later (d.renamed σ).asked) (d.renamed σ).registry arguments
    = lookup.run (s.world.later d.asked) d.registry arguments := hrun
  unfold Merge.lookUp
  rw [hrun']
  generalize lookup.run (s.world.later d.asked) d.registry arguments = x at hafter
  obtain e | ⟨v, after⟩ := x
  · exact ⟨rfl, hd⟩
  · exact ⟨rfl, hafter v after rfl⟩

/-- **A function that looks outside says the same**, for nothing but a file differs. -/
theorem Follows.ask (h : s.IsRenamed σ home file s') (f : Standard) (arguments : Table Json) :
    Follows σ file s s' (ask f arguments) (ask f arguments) := by
  intro d hd
  have hsame := f.saysTheSame_of_outside h.world.now h.world.home h.world.outside d.asked arguments
  exact ⟨congrArg (fun x => (x, _)) hsame.symm, hd⟩

/-! ## Pages -/

/-- **A step names a page** — it changes nothing, and names the same page in the renamed scene. -/
def NamesPage (σ : Equiv.Perm String) (s s' : Scene) (m : Merge String) : Prop :=
  ∀ d : Draft, ∃ n, m s d = (.ok n, d) ∧ m s' (d.renamed σ) = (.ok (σ n), d.renamed σ)

/-- What goes on from a page goes on from the renamed page. -/
theorem NamesPage.bind {m : Merge String} {f f' : String → Merge α} (hm : NamesPage σ s s' m)
    (hf : ∀ n, Follows σ file s s' (f n) (f' (σ n))) : Follows σ file s s' (m >>= f) (m >>= f') := by
  intro d hd
  obtain ⟨n, hn, hn'⟩ := hm d
  rw [bind_run, bind_run, hn, hn']
  exact hf n d hd

theorem namesPage_page (h : s.IsRenamed σ home file s') : NamesPage σ s s' page := by
  intro d
  obtain ⟨registry, frames, entered, written, asked⟩ := d
  cases frames with
  | nil => exact ⟨s.entry, rfl, congrArg (fun n => (Except.ok n, _)) h.entry⟩
  | cons frame frames => exact ⟨frame.page, rfl, rfl⟩

theorem namesPage_caller (h : s.IsRenamed σ home file s') : NamesPage σ s s' caller := by
  intro d
  obtain ⟨registry, frames, entered, written, asked⟩ := d
  cases entered with
  | cons b entered => exact ⟨b.owner, rfl, rfl⟩
  | nil =>
    have hcaller : ∀ s d, d.entered = [] →
        caller s d = (if s.root = s.entry then page else Pure.pure s.root : Merge String) s d := by
      rintro s ⟨registry, frames, entered, written, asked⟩ rfl
      rfl
    rw [hcaller s _ rfl, hcaller s' _ rfl]
    simp only [h.root, h.entry, σ.injective.eq_iff]
    split
    · exact namesPage_page h _
    · exact ⟨s.root, rfl, rfl⟩

/-! ## What a merge is made of -/

theorem Follows.within {frame frame' : Frame} (hframe : frame' = frame.renamed σ)
    (hm : Follows σ file s s' m m') : Follows σ file s s' (within frame m) (within frame' m') := by
  subst hframe
  exact .bind (.modify (fun _ => rfl) fun _ => rfl) fun _ => hm.bind fun a =>
    .bind (.modify (fun d => by simp [Draft.renamed]) fun _ => rfl) fun _ => .pure a

theorem Follows.moveOn : Follows σ file s s' moveOn moveOn := by
  refine .get fun d => ?_
  obtain ⟨registry, frames, entered, written, asked⟩ := d
  cases frames with
  | nil => exact .throw _
  | cons frame frames =>
    obtain ⟨page, closed, bindings, walk⟩ := frame
    cases walk with
    | none => exact .throw _
    | some walk => exact .modify (fun _ => rfl) fun _ => rfl

theorem Follows.walk {body body' : Merge Unit} (hbody : Follows σ file s s' body body') :
    ∀ n, Follows σ file s s' (walk body n) (walk body' n)
  | 0 => .pure ()
  | n + 1 => hbody.bind fun _ => .bind .moveOn fun _ => hbody.walk n

theorem search?_renamed (vars : Table Json) (root : String) (members : List String) :
    ∀ frames : List Frame, Frame.search? vars root members (frames.map (·.renamed σ))
      = Frame.search? vars root members frames
  | [] => rfl
  | frame :: frames => by
    rw [List.map_cons, Frame.search?, Frame.search?, search?_renamed vars root members frames]
    rfl

theorem Follows.find? (h : s.IsRenamed σ home file s') (root : String) (members : List String) :
    Follows σ file s s' (find? root members) (find? root members) := by
  refine .read (.get fun d => ?_)
  have hsame : Frame.search? s'.vars root members (d.renamed σ).frames
      = Frame.search? s.vars root members d.frames := by
    rw [h.vars]
    exact search?_renamed _ _ _ _
  rw [hsame]
  exact .pure _

theorem Follows.assign (name : String) (v : Json) :
    Follows σ file s s' (assign name v) (assign name v) := by
  refine .modify (fun d => ?_) fun d => ?_ <;>
    obtain ⟨registry, frames, entered, written, asked⟩ := d <;> cases frames <;> rfl

theorem isComposed_follows (σ : Equiv.Perm String) (file : String) (s s' : Scene) :
    IsComposed fun m => Follows σ file s s' m m where
  pure := .pure
  throw e _ := .throw e
  bind := .bind

/-- **The text of a macro is the same**, whatever the page is called that it stands on. -/
theorem Follows.expanded (h : s.IsRenamed σ home file s') {space name : String}
    {argument : String → Option (Merge Json)}
    (hd : MacrosHave s (fun m => Follows σ file s s' m m) descend)
    (hargs : ∀ n m, argument n = some m → Follows σ file s s' m m) :
    Follows σ file s s' (expanded descend space name argument)
      (expanded descend space name argument) := by
  refine .read ((namesPage_caller h).bind fun caller => ?_)
  rw [h.book.macro?]
  cases hm : s.book.macro? caller space name with
  | none => exact .throw _
  | some e =>
    exact ((isComposed_follows σ file s s').bound hargs e.2.parameters).bind fun bindings =>
      .captured (.within rfl (hd _ _ _ _ _ hm))

/-- **A block is written from the same definition**, wherever it stands. -/
theorem Follows.writeBlock (h : s.IsRenamed σ home file s') {name : String} {body : Merge Unit}
    (hd : DescentHas (fun refs _ => Fixes σ refs) (fun m => Follows σ file s s' m m) descend)
    (hbody : Follows σ file s s' body body) :
    Follows σ file s s' (writeBlock descend name body) (writeBlock descend name body) := by
  refine .read ((namesPage_page h).bind fun active => ?_)
  obtain ⟨hsame, hfixed⟩ := h.ancestors active
  rw [hsame, ← hfixed, ← List.map_cons, h.definition?, hfixed]
  cases hb : definition? s.book name 0 (active :: s.ancestors active) with
  | none => exact hbody
  | some e =>
    obtain ⟨n, p, hp, hblock⟩ := eq_of_definition? hb
    exact .bind (.modify (fun _ => rfl) fun _ => rfl) fun _ => hd _ (h.book.block hp hblock)

theorem Follows.leave : Follows σ file s s' leave leave :=
  .modify (fun d => by simp [Draft.renamed]) fun _ => rfl

theorem Follows.writeInherited (h : s.IsRenamed σ home file s')
    (hd : DescentHas (fun refs _ => Fixes σ refs) (fun m => Follows σ file s s' m m) descend) :
    Follows σ file s s' (writeInherited descend) (writeInherited descend) := by
  obtain ⟨hsame, hfixed⟩ := h.ancestors s.entry
  refine .read (.get fun d => ?_)
  rw [h.entry, hsame]
  obtain ⟨registry, frames, entered, written, asked⟩ := d
  cases entered with
  | nil => exact .throw _
  | cons b entered =>
    have hdefinition := h.definition? b.name (b.level + 1) ((s.ancestors s.entry).drop b.level)
    rw [List.map_drop, hfixed] at hdefinition
    have hname : (b.renamed σ).name = b.name := rfl
    have hlevel : (b.renamed σ).level = b.level := rfl
    simp only [Draft.renamed, List.map_cons, hname, hlevel, hdefinition]
    cases hb : definition? s.book b.name (b.level + 1) ((s.ancestors s.entry).drop b.level) with
    | none => exact .throw _
    | some e =>
      obtain ⟨n, p, hp, hblock⟩ := eq_of_definition? hb
      refine .bind (.modify (fun _ => rfl) fun _ => rfl) fun _ =>
        .bind (hd _ (h.book.block hp hblock)) fun _ => .bind .leave fun _ => ?_
      exact (isComposed_follows σ file s s').ite .leave (.pure _)

/-- **An inclusion writes the same page**, whose name is the same. -/
theorem Follows.writeInclusion (h : s.IsRenamed σ home file s') {pages : List String} {optional : Bool}
    (hd : DescentHas (fun refs _ => Fixes σ refs) (fun m => Follows σ file s s' m m) descend)
    (hs : Fixes σ [{ candidates := pages, optional }]) :
    Follows σ file s s' (writeInclusion descend pages optional)
      (writeInclusion descend pages optional) := by
  have hfixed : ∀ n ∈ pages, σ n = n := hs _ List.mem_cons_self
  have hfound : (pages.findSome? fun n => (Table.get? s'.book n).map (n, ·))
      = pages.findSome? fun n => (Table.get? s.book n).map (n, ·) := by
    rw [← List.head?_filterMap, ← List.head?_filterMap]
    refine congrArg List.head? (List.filterMap_congr fun n hn => ?_)
    rw [h.book.get?_fixed (hfixed n hn)]
  refine .read ?_
  rw [hfound]
  cases hp : pages.findSome? fun n => (Table.get? s.book n).map (n, ·) with
  | none =>
    cases optional with
    | true => exact .pure _
    | false => exact .throw _
  | some e =>
    obtain ⟨n, hn, heq⟩ := List.exists_of_findSome?_eq_some hp
    obtain ⟨q, hq, rfl⟩ := Option.map_eq_some_iff.1 heq
    refine .within (by rw [Frame.renamed, hfixed n hn]) ?_
    exact (isComposed_follows σ file s s').ite (.throw _) (hd _ (h.book.body hq))

theorem Follows.writeLoop (h : s.IsRenamed σ home file s') {key : Option String} {item : String}
    {isContainer : Bool} {container : Merge Json} {body empty : Merge Unit}
    (hcontainer : Follows σ file s s' container container) (hbody : Follows σ file s s' body body)
    (hempty : Follows σ file s s' empty empty) :
    Follows σ file s s' (writeLoop key item isContainer container body empty)
      (writeLoop key item isContainer container body empty) := by
  refine (isComposed_follows σ file s s').ite
    (.bind (.throw _) fun _ => hcontainer.bind fun v => ?_) (hcontainer.bind fun v => ?_)
  all_goals
    split
    · exact .throw _
    · exact hempty
    · exact (namesPage_page h).bind fun _ => .within rfl (hbody.walk _)

/-- **That steps follow themselves is carried through a merge** in a renamed scene. -/
theorem isCarried_follows (h : s.IsRenamed σ home file s') :
    IsCarried s (fun refs _ => Fixes σ refs) fun m => Follows σ file s s' m m where
  toIsComposed := isComposed_follows σ file s s'
  emit _ := .modify (fun _ => rfl) fun _ => rfl
  find? := .find? h
  assign := .assign
  orFalse := .orFalse
  operationValue := .operationValue
  lookUp := .lookUp h
  ask arguments _ := .ask h _ arguments
  expanded := .expanded h
  writeBlock := .writeBlock h
  writeInherited := .writeInherited h
  writeInclusion := .writeInclusion h
  writeLoop := .writeLoop h
  append hs := ⟨hs.mono (List.subset_append_left _ _), hs.mono (List.subset_append_right _ _)⟩
  page := h.book.body
  macroBody := h.book.macroBody

end Merge

/-- **A merge comes to the same in a renamed scene**: it answers and writes the same, and leaves the same
property sources. -/
theorem Scene.IsRenamed.merge {s s' : Scene} (h : s.IsRenamed σ home file s') {registry : Registry}
    (hregistry : registry.IsElsewhere file) :
    s'.merge registry = ((s.merge registry).1, (s.merge registry).2.renamed σ) ∧
      (s.merge registry).2.registry.IsElsewhere file := by
  have hstart : s'.start registry = (s.start registry).renamed σ := by
    rw [Scene.start, Scene.start, h.entry]
    rfl
  rw [Scene.merge, Scene.merge, h.body, hstart]
  exact (Merge.isCarried_follows h).body (by simp [Fixes]) _ hregistry

end QueryPress
