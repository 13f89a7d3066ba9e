import QueryPress.Proofs.Disk.Changing
import QueryPress.Proofs.Resource.Backing

/-!
# Proofs/Resource/Rechecking — copies that are looked at whenever they are asked for

Two loaders look at files whenever they are asked, and only one of them keeps copies.  The one without
copies answers with the first file of the name (`found`).  The other one answers alike, but where it
keeps a copy of another file of the name that is still there and not later: then it goes on handing out
that copy, which is that file as it is now (`fst_load_keeping`).

What carries this through every order of loads, looks, writes and deletions is that every copy is *true*:
its file has got another text only at a later time (`IsTrue`).
-/

namespace QueryPress

namespace Loader

variable {w w' : World} {l l' : Loader} {n name : String} {r y : Resource} {path : Path}
  {latest latest' : Instant}

/-! ## True copies -/

/-- The paths where a loader looks for a name, in order. -/
def places (l : Loader) (n : String) : List Path :=
  if Path.isConfined n then l.settings.paths.map (Path.join · n) else []

theorem locate?_eq (w : World) (l : Loader) (n : String) :
    l.locate? w n = (l.places n).find? w.isFile := by
  unfold locate? places
  split <;> rfl

/-- **A copy is true** — it was read from one of the places of the name, and since then its file has not
changed but to a later time. -/
structure IsTrue (latest : Instant) (w : World) (l : Loader) (n : String) (y : Resource) : Prop where
  name : y.name = n
  loader : y.loader = l.name
  place : y.path ∈ l.places n
  noDirectory : w.entry y.path ≠ .ok .directory
  timed : ∃ m, y.modified = some m ∧ m ≤ latest ∧
    ∀ bytes t, w.entry y.path = .ok (.file bytes t) →
      m ≤ t ∧ (m = t → String.fromUTF8? bytes = some y.source)

theorem IsTrue.congr (h : IsTrue latest w l n y) (hs : l'.settings = l.settings) :
    IsTrue latest w l' n y where
  name := h.name
  loader := by rw [h.loader, Loader.name, Loader.name, hs]
  place := by rw [places, hs]; exact h.place
  noDirectory := h.noDirectory
  timed := h.timed

/-- **A copy stays true** while files are written later and later. -/
theorem IsTrue.rewrites (h : IsTrue latest w l n y) (hw : World.Rewrites latest w latest' w') :
    IsTrue latest' w' l n y where
  name := h.name
  loader := h.loader
  place := h.place
  noDirectory hd := h.noDirectory (hw.directory hd)
  timed := by
    obtain ⟨m, hm, hle, hfile⟩ := h.timed
    refine ⟨m, hm, Nat.le_trans hle hw.le, fun bytes t he => ?_⟩
    rcases hw.file he with he | ⟨hlater, -⟩
    · exact hfile bytes t he
    · have hlt : m < t := Nat.lt_of_le_of_lt hle hlater
      exact ⟨Nat.le_of_lt hlt, fun heq => absurd heq (Nat.ne_of_lt hlt)⟩

/-- What has just been read is a true copy. -/
theorem isTrue_of_read (hlatest : w.IsDatedBy latest) (hplace : path ∈ l.places n)
    (h : l.read w n path = .ok r) : IsTrue latest w l n r := by
  obtain ⟨bytes, t, hentry, htext, hr⟩ := read_eq_ok_iff.1 h
  have hpath : r.path = path := by rw [hr]
  have htime : r.modified = some t := by rw [hr]
  refine ⟨by rw [hr], by rw [hr], hpath ▸ hplace, ?_, t, htime, hlatest _ _ _ hentry, ?_⟩
  · rw [hpath, hentry]
    simp
  · rw [hpath]
    intro bytes' t' hentry'
    obtain ⟨rfl, rfl⟩ : bytes = bytes' ∧ t = t' := by simpa using hentry.symm.trans hentry'
    exact ⟨Nat.le_refl _, fun _ => htext⟩

/-- **A true copy that is current is what its file is now.** -/
theorem IsTrue.read_eq (h : IsTrue latest w l n y) (hcurrent : isCurrent w y = true) :
    w.isFile y.path = true ∧ l.read w n y.path = .ok y := by
  obtain ⟨m, hm, -, hfile⟩ := h.timed
  cases hentry : w.entry y.path with
  | error e => simp [isCurrent, World.modified, hentry, bind, Except.bind] at hcurrent
  | ok e =>
    cases e with
    | directory => exact absurd hentry h.noDirectory
    | file bytes t =>
      obtain ⟨hle, htext⟩ := hfile bytes t hentry
      have hnot : ¬ m < t := by
        simpa [isCurrent, World.modified_of_entry hentry, hm, isLater] using hcurrent
      have hmt : m = t := Nat.le_antisymm hle (Nat.le_of_not_lt hnot)
      have hy : y = { y with name := n, loader := l.name, modified := some t } := by
        rw [← h.name, ← h.loader, ← hmt, ← hm]
      exact ⟨World.isFile_iff.2 ⟨bytes, t, hentry⟩,
        read_eq_ok_iff.2 ⟨bytes, t, hentry, htext hmt, hy⟩⟩

/-! ## A loader that keeps true copies -/

/-- **The copies of a loader are true.** -/
def KeepsTrue (latest : Instant) (w : World) (l : Loader) : Prop :=
  ∀ n y, Table.get? l.copies n = some y → IsTrue latest w l n y

theorem KeepsTrue.rewrites (h : KeepsTrue latest w l) (hw : World.Rewrites latest w latest' w') :
    KeepsTrue latest' w' l := fun n y hy => (h n y hy).rewrites hw

theorem KeepsTrue.noteCheck (h : KeepsTrue latest w l) (now : Instant) (name : String) :
    KeepsTrue latest w (l.noteCheck now name) := fun n y hy => (h n y hy).congr rfl

theorem KeepsTrue.evict (h : KeepsTrue latest w l) (name : String) :
    KeepsTrue latest w (l.evict name) := by
  intro n y hy
  rw [get?_copies_evict] at hy
  split at hy
  · cases hy
  · exact (h n y hy).congr rfl

theorem KeepsTrue.remember (h : KeepsTrue latest w l) (now : Instant)
    (hr : IsTrue latest w l r.name r) : KeepsTrue latest w (l.remember now r) := by
  intro n y hy
  rw [get?_copies_remember] at hy
  split at hy
  · rename_i hn
    obtain rfl := Option.some.inj hy
    rw [hn.2]
    exact hr.congr (settings_remember _ _ _)
  · exact (h n y hy).congr (settings_remember _ _ _)

variable (hlatest : w.IsDatedBy latest)

include hlatest

/-- **What is loaded is a true copy**, and the copies stay true. -/
theorem KeepsTrue.load (h : KeepsTrue latest w l) (n : String) :
    KeepsTrue latest w (l.load w n).2 ∧
      ∀ r, (l.load w n).1 = .ok (some r) → IsTrue latest w l n r := by
  obtain ⟨r, hc, -, hs⟩ | ⟨-, l₁, hl₁, hs⟩ := load_cases w l n <;> rw [hs]
  · refine ⟨fun m y hy => ?_, fun s hr => ?_⟩
    · rw [copies_claim] at hy
      exact (h m y hy).congr (settings_claim _ _ _)
    · obtain rfl : r = s := by simpa using hr
      exact h n r (get?_of_copy? hc)
  · have h₁ : KeepsTrue latest w l₁ := by
      rcases hl₁ with rfl | rfl
      · exact h
      · exact h.noteCheck w.now n
    have hset : l₁.settings = l.settings := by rcases hl₁ with rfl | rfl <;> rfl
    obtain ⟨-, hs⟩ | ⟨path, e, -, -, hs⟩ | ⟨path, r, hloc, hread, hs⟩ := search_cases w l₁ n <;> rw [hs]
    · exact ⟨h₁.evict n, by simp⟩
    · exact ⟨h₁, by simp⟩
    · rw [locate?_eq] at hloc
      have hr := isTrue_of_read hlatest (List.mem_of_find?_eq_some hloc) hread
      have hn : r.name = n := hr.name
      refine ⟨h₁.remember w.now (hn ▸ hr), fun s hs => ?_⟩
      obtain rfl : r = s := by simpa using hs
      exact hr.congr hset.symm

/-- **A later copy of a true one is true**, and the copies stay true. -/
theorem KeepsTrue.refresh (h : KeepsTrue latest w l) (hr : IsTrue latest w l r.name r) :
    KeepsTrue latest w (l.refresh w r).2 ∧
      ∀ fresh, (l.refresh w r).1 = .ok (some fresh) → IsTrue latest w l fresh.name fresh := by
  obtain ⟨-, hs⟩ | ⟨-, -, hs⟩ | ⟨-, -, hs⟩ := refresh_cases w l r <;> rw [hs]
  · exact ⟨h, by simp⟩
  · refine ⟨h, fun fresh hf => ?_⟩
    have hcopy := (Option.filter_eq_some_iff.1 (Except.ok.inj hf)).1
    have htrue := h _ _ (get?_of_copy? hcopy)
    rw [htrue.name]
    exact htrue
  · have h₁ := h.noteCheck w.now r.name
    obtain ⟨hs, -⟩ | ⟨e, -, hs⟩ | ⟨fresh, t, -, -, hread, hs⟩ :=
      reread_cases w (l.noteCheck w.now r.name) r <;> rw [hs]
    · exact ⟨h₁, by simp⟩
    · exact ⟨h₁, by simp⟩
    · have hfresh := isTrue_of_read (l := l) hlatest hr.place hread
      have hown : IsTrue latest w l fresh.name fresh := by rwa [hfresh.name]
      refine ⟨h₁.remember w.now (hown.congr rfl), fun s hs => ?_⟩
      obtain rfl : fresh = s := by simpa using hs
      exact hown

end Loader

/-! ## Two loaders that differ in their copies -/

/-- What an answer hands out. -/
def handed (answer : Except IoError (Option Resource)) : List Resource := answer.toOption.join.toList

/-- Two loaders, the latest time that a file was given, and what either loader has handed out. -/
structure Twins where
  world : World
  latest : Instant
  keeping : Loader
  plain : Loader
  kept : List Resource := []
  given : List Resource := []

namespace Twins

variable {settings : LoaderSettings} {w w' : World} {latest : Instant} {s s' : Twins}

/-- Two new loaders with the same settings, but that one of them keeps copies and the other does not. -/
def start (settings : LoaderSettings) (w : World) (latest : Instant) : Twins where
  world := w
  latest := latest
  keeping := { settings := { settings with cache := true } }
  plain := { settings := { settings with cache := false } }

/-- **One step of both loaders** — files are written and deleted, a name is loaded or forgotten, or
either looks for a later copy of a resource it has handed out. -/
inductive Step : Twins → Twins → Prop
  | change {s : Twins} {latest' : Instant} {w' : World} :
      World.Rewrites s.latest s.world latest' w' →
      Step s { s with world := w', latest := latest' }
  | load {s : Twins} (n : String) :
      Step s { s with
        keeping := (s.keeping.load s.world n).2, kept := handed (s.keeping.load s.world n).1 ++ s.kept,
        plain := (s.plain.load s.world n).2, given := handed (s.plain.load s.world n).1 ++ s.given }
  | refresh {s : Twins} {r r' : Resource} : r ∈ s.kept → r' ∈ s.given →
      Step s { s with
        keeping := (s.keeping.refresh s.world r).2
        kept := handed (s.keeping.refresh s.world r).1 ++ s.kept
        plain := (s.plain.refresh s.world r').2
        given := handed (s.plain.refresh s.world r').1 ++ s.given }
  | evict {s : Twins} (n : String) :
      Step s { s with keeping := s.keeping.evict n, plain := s.plain.evict n }

/-- Any number of steps. -/
inductive Run : Twins → Twins → Prop
  | start {s : Twins} : Run s s
  | step {s s' s'' : Twins} : Run s s' → Step s' s'' → Run s s''

/-- **What every step keeps** — the settings, and that all copies are true. -/
structure IsKept (settings : LoaderSettings) (s : Twins) : Prop where
  keeping : s.keeping.settings = { settings with cache := true }
  plain : s.plain.settings = { settings with cache := false }
  files : s.world.IsDatedBy s.latest
  copies : Loader.KeepsTrue s.latest s.world s.keeping
  kept : ∀ r ∈ s.kept, Loader.IsTrue s.latest s.world s.keeping r.name r

theorem isKept_start (hfiles : w.IsDatedBy latest) :
    IsKept settings (start settings w latest) where
  keeping := rfl
  plain := rfl
  files := hfiles
  copies n y hy := by cases hy
  kept r hr := by cases hr

theorem mem_handed {answer : Except IoError (Option Resource)} {r : Resource} :
    r ∈ handed answer ↔ answer = .ok (some r) := by
  rcases answer with e | _ | a <;> simp [handed, Except.toOption, eq_comm]

theorem IsKept.step (h : s.IsKept settings) (hstep : Step s s') : s'.IsKept settings := by
  cases hstep with
  | change hw =>
    exact ⟨h.keeping, h.plain, h.files.rewrites hw, h.copies.rewrites hw,
      fun r hr => (h.kept r hr).rewrites hw⟩
  | load n =>
    have hset := Loader.settings_eq_of_load s.world s.keeping n
    obtain ⟨hcopies, hloaded⟩ := h.copies.load h.files n
    refine ⟨hset.trans h.keeping, (Loader.settings_eq_of_load _ _ _).trans h.plain, h.files, hcopies,
      fun r hr => ?_⟩
    rcases List.mem_append.1 hr with hr | hr
    · have htrue := hloaded r (mem_handed.1 hr)
      exact (htrue.name ▸ htrue).congr hset
    · exact (h.kept r hr).congr hset
  | @refresh r r' hr hr' =>
    have hset := Loader.settings_refresh s.world s.keeping r
    obtain ⟨hcopies, hfresh⟩ := h.copies.refresh h.files (h.kept r hr)
    refine ⟨hset.trans h.keeping, (Loader.settings_refresh _ _ _).trans h.plain, h.files, hcopies,
      fun y hy => ?_⟩
    rcases List.mem_append.1 hy with hy | hy
    · exact (hfresh y (mem_handed.1 hy)).congr hset
    · exact (h.kept y hy).congr hset
  | evict n =>
    exact ⟨h.keeping, h.plain, h.files, h.copies.evict n, fun r hr => (h.kept r hr).congr rfl⟩

theorem IsKept.run (h : s.IsKept settings) (hrun : Run s s') : s'.IsKept settings := by
  induction hrun with
  | start => exact h
  | step _ hstep ih => exact ih.step hstep

/-! ## What both loaders answer -/

/-- **A copy that is kept although another file is found first** — the file it was read from is still
there and not later. -/
def elsewhere? (w : World) (l : Loader) (n : String) : Option Resource :=
  (l.copy? n).filter fun y => Loader.isCurrent w y && l.locate? w n != some y.path

/-- A loader without copies answers with what stands on the disk. -/
theorem fst_load_of_not_cache {l : Loader} (h : l.settings.cache = false) (n : String) :
    (l.load w n).1 = l.found w n := by
  have hkept : l.kept? w n = none := by simp [Loader.kept?, Loader.copy?, h]
  rw [Loader.fst_load, hkept]

theorem IsKept.found_eq (h : s.IsKept settings) (n : String) :
    s.keeping.found s.world n = s.plain.found s.world n := by
  simp only [Loader.found, Loader.locate?, Loader.read, Loader.name, h.keeping, h.plain]

/-- **Copies can be told only where a file of the name is passed over.**

Of two loaders that look at files whenever they are asked, and that were asked the same while files were
written later and later, or deleted, the one without copies answers with the first file of the name as
it is now.  The one with copies answers the same, unless it keeps a copy of another file of the name
that is still there and has not been written since: then it hands out that copy, which is that file as
it is now. -/
theorem fst_load_keeping (hi : settings.checkInterval = .always)
    (hfiles : w.IsDatedBy latest) (hrun : Run (start settings w latest) s) (n : String) :
    (s.plain.load s.world n).1 = s.plain.found s.world n ∧
      match elsewhere? s.world s.keeping n with
      | none => (s.keeping.load s.world n).1 = (s.plain.load s.world n).1
      | some y => (s.keeping.load s.world n).1 = .ok (some y) ∧ y.path ∈ s.plain.places n ∧
          s.plain.read s.world n y.path = .ok y ∧
          ∃ first, s.plain.locate? s.world n = some first ∧ first ≠ y.path := by
  have h := (isKept_start hfiles).run hrun
  have hplain : (s.plain.load s.world n).1 = s.plain.found s.world n :=
    fst_load_of_not_cache (by rw [h.plain]) n
  have hplaces : s.keeping.places n = s.plain.places n := by
    simp only [Loader.places, h.keeping, h.plain]
  have hread : ∀ path, s.keeping.read s.world n path = s.plain.read s.world n path := fun path => by
    simp only [Loader.read, Loader.name, h.keeping, h.plain]
  have hlocate : s.keeping.locate? s.world n = s.plain.locate? s.world n := by
    rw [Loader.locate?_eq, Loader.locate?_eq, hplaces]
  have hkept : s.keeping.kept? s.world n = (s.keeping.copy? n).filter (Loader.isCurrent s.world) := by
    simp [Loader.kept?, Loader.isDue_of_always (show s.keeping.settings.checkInterval = .always by
      rw [h.keeping]; exact hi)]
  refine ⟨hplain, ?_⟩
  rw [hplain, Loader.fst_load, hkept, ← h.found_eq]
  cases hcopy : s.keeping.copy? n with
  | none => simp [elsewhere?, hcopy]
  | some y =>
    have hget := Loader.get?_of_copy? hcopy
    have htrue := h.copies n y hget
    by_cases hcurrent : Loader.isCurrent s.world y = true
    · obtain ⟨hfile, hown⟩ := htrue.read_eq hcurrent
      by_cases hfirst : s.keeping.locate? s.world n = some y.path
      · -- the copy is of the first file of the name, and so what is found
        have hfound : s.keeping.found s.world n = .ok (some y) := by
          simp only [Loader.found, hfirst, hown, Except.map]
        simp [elsewhere?, hcopy, Option.filter, hcurrent, hfirst, hfound]
      · have hsome : (s.plain.locate? s.world n).isSome = true := by
          rw [Loader.locate?_eq, List.find?_isSome, ← hplaces]
          exact ⟨y.path, htrue.place, hfile⟩
        obtain ⟨first, hloc⟩ := Option.isSome_iff_exists.1 hsome
        have hne : first ≠ y.path := by
          rintro rfl
          exact hfirst (hlocate.trans hloc)
        have helse : elsewhere? s.world s.keeping n = some y := by
          simp [elsewhere?, hcopy, Option.filter, hcurrent, hfirst]
        rw [helse]
        simp only [Option.filter, hcurrent, if_true]
        exact ⟨trivial, hplaces ▸ htrue.place, hread y.path ▸ hown, first, hloc, hne⟩
    · simp [elsewhere?, hcopy, Option.filter, hcurrent]

/-! ## A page that comes up in the first of two directories -/

/-- Two directories in which pages are looked for, one after the other. -/
def pageSettings : LoaderSettings where
  name := "pages"
  paths := ["/p1", "/p2"]
  cache := true
  checkInterval := .always

/-- A page in the second directory. -/
def farPage : World where
  disk := { entries := [
    (["p1"], .directory), (["p2"], .directory), (["p2", "a.tera"], .file "far".toUTF8 1)] }

theorem isDatedBy_farPage : farPage.IsDatedBy 1 :=
  World.isDatedBy_of_entries fun q bytes t h => by simp_all [farPage]

/-- The page has been loaded, and a page of its name has come up in the first directory. -/
def passedOver : Twins where
  world := { farPage with disk := farPage.disk.put ["p1", "a.tera"] (.file "near".toUTF8 2) }
  latest := 2
  keeping := ((start pageSettings farPage 1).keeping.load farPage "a.tera").2
  plain := ((start pageSettings farPage 1).plain.load farPage "a.tera").2
  kept := handed ((start pageSettings farPage 1).keeping.load farPage "a.tera").1 ++ []
  given := handed ((start pageSettings farPage 1).plain.load farPage "a.tera").1 ++ []

theorem write_nearPage :
    farPage.writeAt "/p1/a.tera" "near".toUTF8 2 = .ok passedOver.world := by
  rfl

theorem run_passedOver : Run (start pageSettings farPage 1) passedOver :=
  .step (.step .start (.load "a.tera")) (.change (World.rewrites_write (by decide) write_nearPage))

theorem loads_passedOver :
    handed (passedOver.keeping.load passedOver.world "a.tera").1
        = [{ name := "a.tera", loader := "pages", path := "/p2/a.tera", source := "far",
             modified := some 1 }] ∧
      handed (passedOver.plain.load passedOver.world "a.tera").1
        = [{ name := "a.tera", loader := "pages", path := "/p1/a.tera", source := "near",
             modified := some 2 }] := by
  decide +kernel

/-- The far page is passed over, and its copy is the far page as it is now. -/
theorem fst_load_keeping_passedOver : ∃ y,
    elsewhere? passedOver.world passedOver.keeping "a.tera" = some y ∧
    (passedOver.keeping.load passedOver.world "a.tera").1 = .ok (some y) ∧
    passedOver.plain.read passedOver.world "a.tera" y.path = .ok y := by
  have h := fst_load_keeping rfl isDatedBy_farPage run_passedOver "a.tera"
  have hsome : (elsewhere? passedOver.world passedOver.keeping "a.tera").isSome = true := by
    decide +kernel
  obtain ⟨y, hy⟩ := Option.isSome_iff_exists.1 hsome
  rw [hy] at h
  exact ⟨y, hy, h.2.1, h.2.2.2.1⟩

/-- **Copies can be told** where a page has come up in front of the one that was loaded. -/
theorem not_fst_load_keeping_eq :
    ¬ ∀ (settings : LoaderSettings) (w : World) (latest : Instant) (s : Twins),
      settings.checkInterval = .always → w.IsDatedBy latest →
        Run (start settings w latest) s → ∀ n : String,
          (s.keeping.load s.world n).1 = (s.plain.load s.world n).1 := by
  intro hclaim
  have heq := hclaim pageSettings farPage 1 passedOver rfl isDatedBy_farPage run_passedOver "a.tera"
  obtain ⟨hkeeping, hplain⟩ := loads_passedOver
  rw [heq, hplain] at hkeeping
  exact absurd hkeeping (by decide)

end Twins

end QueryPress
