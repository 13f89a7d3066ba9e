import QueryPress.Proofs.Disk.Aging
import QueryPress.Proofs.Resource.Soundness

/-!
# Proofs/Resource/Backing — a loader that stands behind what it has handed out

A loader that looks at a file whenever it is asked, or keeps for good what it has found once, *backs*
a resource it has loaded (`backs_of_load`): what it holds is that resource or a later copy from the
same file.  It goes on doing so while files become later (`Backs.ages`) and through every look for a
later copy, failed or not (`Backs.refresh`); and after a look that did not fail, loading the name
gives what the look has come to (`load_refresh`).
-/

namespace QueryPress

theorem isLater_trans {a b c : Option Instant} (h : isLater a b = true) (h' : isLater b c = true) :
    isLater a c = true := by
  cases a <;> cases b <;> cases c <;> simp_all [isLater]
  exact Nat.lt_trans h' h

namespace Loader

variable {w w' : World} {l l' : Loader} {name n : String} {r s y fresh : Resource}

/-- **A prompt loader** looks at a file whenever it is asked, or keeps for good what it has found. -/
def IsPrompt (l : Loader) : Prop :=
  l.settings.checkInterval = .always ∨
    (l.settings.checkInterval = .never ∧ l.settings.cache = true)

/-! ## What is there under a name -/

/-- There is nothing under a name, neither a file nor a copy. -/
structure Lacks (w : World) (l : Loader) (n : String) : Prop where
  locate : l.locate? w n = none
  copy : Table.get? l.copies n = none

/-- **A resource is settled** — its file is where the loader looks for the name and is not earlier
than the resource, and if it is not later either it has the text. -/
structure IsSettled (w : World) (l : Loader) (r : Resource) : Prop where
  located : l.locate? w r.name = some r.path
  timed : ∃ bytes t m, w.entry r.path = .ok (.file bytes t) ∧ r.modified = some m ∧ m ≤ t ∧
    (m = t → String.fromUTF8? bytes = some r.source)

/-- A copy has been read from the file of a resource when that had become later, and it has not
become earlier since. -/
structure Supersedes (w : World) (y r : Resource) : Prop where
  path : y.path = r.path
  later : isLater y.modified r.modified = true
  standing : ∃ bytes t m, w.entry y.path = .ok (.file bytes t) ∧ y.modified = some m ∧ m ≤ t

/-- **A loader backs a resource** — kept for good, it is the copy that is held; held as a copy that is
looked at, it is that copy or the copy supersedes it; and not held at all, it is settled. -/
structure Backs (w : World) (l : Loader) (r : Resource) : Prop where
  loader : r.loader = l.name
  kept : l.settings.checkInterval = .never →
    Table.get? l.copies r.name = some r ∧ (Table.get? l.checks r.name).isSome
  looked : l.settings.checkInterval = .always → l.settings.cache = true →
    (∃ t, w.modified r.path = .ok t) ∧
      ∃ y, Table.get? l.copies r.name = some y ∧ (y = r ∨ Supersedes w y r)
  found : l.settings.checkInterval = .always → l.settings.cache = false → l.IsSettled w r

theorem Lacks.congr (h : l.Lacks w n) (hs : SameAt n l' l) : l'.Lacks w n where
  locate := by rw [← h.locate, locate?, locate?, hs.settings]
  copy := by rw [hs.copies, h.copy]

theorem IsSettled.congr (h : l.IsSettled w r) (hs : l'.settings = l.settings) :
    l'.IsSettled w r where
  located := by rw [← h.located, locate?, locate?, hs]
  timed := h.timed

theorem Backs.congr (h : l.Backs w r) (hs : SameAt r.name l' l) : l'.Backs w r where
  loader := by rw [h.loader, Loader.name, Loader.name, hs.settings]
  kept hi := by
    rw [hs.settings] at hi
    rw [hs.copies, hs.checks]
    exact h.kept hi
  looked hi hc := by
    rw [hs.settings] at hi hc
    rw [hs.copies]
    exact h.looked hi hc
  found hi hc := by
    rw [hs.settings] at hi hc
    exact (h.found hi hc).congr hs.settings

theorem IsPrompt.congr (h : l.IsPrompt) (hs : l'.settings = l.settings) : l'.IsPrompt := by
  rwa [IsPrompt, hs]

/-- What has just been read is settled. -/
theorem isSettled_of_read {path : Path} (hloc : l.locate? w name = some path)
    (h : l.read w name path = .ok r) : l.IsSettled w r := by
  obtain ⟨bytes, t, hentry, hdecode, hr⟩ := read_eq_ok_iff.1 h
  rw [hr]
  exact ⟨hloc, bytes, t, t, hentry, rfl, Nat.le_refl t, fun _ => hdecode⟩

/-- **To read the file of a settled resource that is not later** is to read that resource. -/
theorem IsSettled.read_eq (h : l.IsSettled w r) (hl : r.loader = l.name)
    (hnot : ∀ t, w.modified r.path = .ok t → isLater (some t) r.modified = false) :
    l.read w r.name r.path = .ok r := by
  obtain ⟨bytes, t, m, hentry, hm, hle, htext⟩ := h.timed
  have hmod := World.modified_of_entry hentry
  have heq : m = t := by
    have hnot := hnot t hmod
    simp only [hm, isLater, decide_eq_false_iff_not] at hnot
    exact Nat.le_antisymm hle (Nat.le_of_not_lt hnot)
  have hr : r = { r with loader := l.name, modified := some t } := by
    rw [← hl, ← heq, ← hm]
  exact read_eq_ok_iff.2 ⟨bytes, t, hentry, htext heq, hr⟩

/-! ## Files become later -/

theorem locate?_ages (h : w.Ages w') (l : Loader) (n : String) :
    l.locate? w' n = l.locate? w n := by
  rw [locate?, locate?, funext h.isFile]

theorem Lacks.ages (h : l.Lacks w n) (ha : w.Ages w') : l.Lacks w' n where
  locate := by rw [locate?_ages ha, h.locate]
  copy := h.copy

theorem IsSettled.ages (h : l.IsSettled w r) (ha : w.Ages w') : l.IsSettled w' r where
  located := by rw [locate?_ages ha, h.located]
  timed := by
    obtain ⟨bytes, t, m, hentry, hm, hle, htext⟩ := h.timed
    obtain ⟨bytes', t', hentry', hlt | ⟨rfl, rfl⟩⟩ := ha.file hentry
    · have hlt' := Nat.lt_of_le_of_lt hle hlt
      exact ⟨bytes', t', m, hentry', hm, Nat.le_of_lt hlt', fun heq => absurd heq (Nat.ne_of_lt hlt')⟩
    · exact ⟨bytes', t', m, hentry', hm, hle, htext⟩

theorem Supersedes.ages (h : Supersedes w y r) (ha : w.Ages w') : Supersedes w' y r where
  path := h.path
  later := h.later
  standing := by
    obtain ⟨bytes, t, m, hentry, hm, hle⟩ := h.standing
    obtain ⟨bytes', t', hentry', hlt | ⟨rfl, rfl⟩⟩ := ha.file hentry
    · exact ⟨bytes', t', m, hentry', hm, Nat.le_of_lt (Nat.lt_of_le_of_lt hle hlt)⟩
    · exact ⟨bytes', t', m, hentry', hm, hle⟩

/-- **A resource stays backed while files become later.** -/
theorem Backs.ages (h : l.Backs w r) (ha : w.Ages w') : l.Backs w' r where
  loader := h.loader
  kept := h.kept
  looked hi hc := by
    obtain ⟨⟨t, ht⟩, y, hy, hor⟩ := h.looked hi hc
    exact ⟨ha.there ht, y, hy, hor.imp id (·.ages ha)⟩
  found hi hc := (h.found hi hc).ages ha

/-! ## What is loaded is backed -/

theorem isDue_of_always (hi : l.settings.checkInterval = .always) (now : Instant) (n : String) :
    l.isDue now n = true := by
  unfold isDue
  split
  · rfl
  · rw [hi]
    rfl

theorem isDue_of_never (hi : l.settings.checkInterval = .never)
    (hc : (Table.get? l.checks n).isSome) (now : Instant) : l.isDue now n = false := by
  obtain ⟨last, hlast⟩ := Option.isSome_iff_exists.1 hc
  simp [isDue, hlast, hi, CheckInterval.isDue]

/-- A copy that is kept for good is handed out, and nothing changes. -/
theorem load_of_kept (hi : l.settings.checkInterval = .never) (hc : l.settings.cache = true)
    (hcopy : Table.get? l.copies n = some r) (hcheck : (Table.get? l.checks n).isSome) :
    l.load w n = (.ok (some r), l) := by
  simp [load, copy?, hc, hcopy, claim, isDue_of_never hi hcheck]

theorem Lacks.fst_load (h : l.Lacks w n) : (l.load w n).1 = .ok none := by
  have hkept : l.kept? w n = none := by simp [kept?, copy?, h.copy]
  simp only [Loader.fst_load, hkept, Loader.found, h.locate]

/-- What a loader says it does not have it lacks from then on. -/
theorem lacks_of_load (h : (l.load w n).1 = .ok none) : (l.load w n).2.Lacks w n := by
  obtain ⟨r, -, -, hs⟩ | ⟨-, l₁, -, hs⟩ := load_cases w l n
  · rw [hs] at h
    cases h
  · rw [hs] at h ⊢
    obtain ⟨hl, hs⟩ | ⟨path, e, -, -, hs⟩ | ⟨path, r, -, -, hs⟩ := search_cases w l₁ n <;>
      rw [hs] at h ⊢
    · refine ⟨?_, by simp⟩
      rw [← hl, locate?, locate?, settings_evict]
    · cases h
    · cases h

/-- **Nothing that is asked for brings back what is lacking.** -/
theorem Lacks.load (h : l.Lacks w n) (m : String) : (l.load w m).2.Lacks w n := by
  by_cases hn : n = m
  · subst hn
    exact lacks_of_load h.fst_load
  · exact h.congr (sameAt_load hn)

/-- What has just been read and taken down is backed. -/
theorem backs_remember {path : Path} (hp : l.IsPrompt)
    (hloc : l.locate? w r.name = some path) (h : l.read w r.name path = .ok r) :
    (l.remember w.now r).Backs w r := by
  obtain ⟨bytes, t, hentry, -, hr⟩ := read_eq_ok_iff.1 h
  have hpath : r.path = path := by rw [hr]
  refine ⟨by rw [hr]; simp [Loader.name], fun hi => ?_, fun hi hc => ?_, fun hi hc => ?_⟩
  · rw [settings_remember] at hi
    have hcache : l.settings.cache = true := by
      rcases hp with hp | ⟨-, hp⟩
      · rw [hi] at hp
        cases hp
      · exact hp
    simp [hcache]
  · rw [settings_remember] at hc
    exact ⟨⟨t, hpath ▸ World.modified_of_entry hentry⟩, r, by simp [hc], .inl rfl⟩
  · exact (isSettled_of_read hloc h).congr (settings_remember l w.now r)

/-- **What a prompt loader hands out it backs.** -/
theorem backs_of_load (hp : l.IsPrompt) (hs : l.IsSound) (h : (l.load w n).1 = .ok (some r)) :
    (l.load w n).2.Backs w r := by
  have hname := hs.eq_of_load h
  obtain ⟨copy, hcopy, hk, hload⟩ | ⟨-, l₁, hl₁, hload⟩ := load_cases w l n
  · rw [hload] at h ⊢
    obtain rfl : copy = r := by simpa using h
    obtain ⟨rfl, hloader⟩ := hname
    have hget := get?_of_copy? hcopy
    have hcheck := hs.isChecked hget
    refine ⟨by rw [hloader]; simp [Loader.name], fun hi => ?_, fun hi hc => ?_, fun hi hc => ?_⟩
    · rw [settings_claim] at hi
      simp [claim, isDue_of_never hi hcheck, hget, hcheck]
    · rw [settings_claim] at hi
      have hcurrent : isCurrent w copy = true := by
        simpa [kept?, hcopy, Option.filter, isDue_of_always hi] using hk
      refine ⟨?_, copy, by rw [copies_claim, hget], .inl rfl⟩
      unfold isCurrent at hcurrent
      split at hcurrent
      · exact ⟨_, ‹_›⟩
      · cases hcurrent
    · rw [settings_claim] at hc
      simp [copy?, hc] at hcopy
  · rw [hload] at h ⊢
    have hset : l₁.settings = l.settings := by rcases hl₁ with rfl | rfl <;> rfl
    obtain ⟨path, hloc, hread, hsearch⟩ := exists_read_of_search h
    obtain ⟨rfl, -⟩ := hname
    rw [hsearch]
    exact backs_remember (hp.congr hset) hloc hread

/-- **A backed resource that has no later file is what is loaded.** -/
theorem Backs.fst_load (hp : l.IsPrompt) (h : l.Backs w r)
    (hcurrent : l.settings.checkInterval ≠ .never →
      ∀ t, w.modified r.path = .ok t → isLater (some t) r.modified = false) :
    (l.load w r.name).1 = .ok (some r) := by
  rcases hp with hi | ⟨hi, hc⟩
  · have hcurrent := hcurrent (by simp [hi])
    cases hc : l.settings.cache with
    | true =>
      obtain ⟨⟨t, ht⟩, y, hy, rfl | hsup⟩ := h.looked hi hc
      · have hkept : l.kept? w y.name = some y := by
          simp [kept?, copy?, hc, hy, Option.filter, isDue_of_always hi, isCurrent, ht,
            hcurrent t ht]
        simp only [Loader.fst_load, hkept]
      · obtain ⟨bytes, t, m, hentry, hm, hle⟩ := hsup.standing
        have hlater := hsup.later
        have hnot := hcurrent t (by rw [← hsup.path, World.modified_of_entry hentry])
        cases hr : r.modified with
        | none => simp [hr, isLater] at hnot
        | some k =>
          simp only [hm, hr, isLater, decide_eq_true_eq, decide_eq_false_iff_not] at hlater hnot
          exact absurd (Nat.lt_of_lt_of_le hlater hle) hnot
    | false =>
      have hsettled := h.found hi hc
      have hread := hsettled.read_eq h.loader hcurrent
      have hkept : l.kept? w r.name = none := by simp [kept?, copy?, hc]
      simp [Loader.fst_load, hkept, Loader.found, hsettled.located, hread, Except.map]
  · obtain ⟨hcopy, hcheck⟩ := h.kept hi
    rw [load_of_kept hi hc hcopy hcheck]

/-! ## Looking for a later copy -/

theorem sameAt_refresh (h : n ≠ r.name) : SameAt n (l.refresh w r).2 l := by
  obtain ⟨-, hs⟩ | ⟨-, -, hs⟩ | ⟨-, -, hs⟩ := refresh_cases w l r <;> rw [hs]
  · exact .refl _ _
  · exact .refl _ _
  · obtain ⟨hs, -⟩ | ⟨e, -, hs⟩ | ⟨fresh, t, -, -, hr, hs⟩ :=
      reread_cases w (l.noteCheck w.now r.name) r <;> rw [hs]
    · exact sameAt_noteCheck w.now h
    · exact sameAt_noteCheck w.now h
    · have hn : fresh.name = r.name := by rw [(read_eq_ok hr).2]
      refine SameAt.trans ⟨settings_remember _ _ _, ?_, ?_⟩ (sameAt_noteCheck w.now h)
      · simp [hn, h]
      · simp [hn, h]

theorem settings_refresh (w : World) (l : Loader) (r : Resource) :
    (l.refresh w r).2.settings = l.settings := by
  obtain ⟨-, hs⟩ | ⟨-, -, hs⟩ | ⟨-, -, hs⟩ := refresh_cases w l r <;> rw [hs]
  obtain ⟨hs, -⟩ | ⟨e, -, hs⟩ | ⟨fresh, t, -, -, hr, hs⟩ :=
    reread_cases w (l.noteCheck w.now r.name) r <;> rw [hs] <;> simp

theorem Lacks.noteCheck (h : l.Lacks w n) (now : Instant) (m : String) :
    (l.noteCheck now m).Lacks w n :=
  ⟨h.locate, h.copy⟩

theorem Backs.noteCheck (h : l.Backs w r) (now : Instant) (m : String) :
    (l.noteCheck now m).Backs w r where
  loader := h.loader
  kept hi := by
    obtain ⟨hcopy, hcheck⟩ := h.kept hi
    refine ⟨hcopy, ?_⟩
    rw [get?_checks_noteCheck]
    split
    · rfl
    · exact hcheck
  looked := h.looked
  found hi hc := (h.found hi hc).congr rfl

/-- **What a look for a later copy comes to** — nothing, where copies are kept for good; else nothing
because there is no later file, a failure, or the later file, which is read. -/
theorem look_cases (hp : l.IsPrompt) (w : World) (r : Resource) :
    (l.settings.checkInterval = .never ∧ l.refresh w r = (.ok none, l)) ∨
    (l.settings.checkInterval = .always ∧
      ((l.refresh w r = (.ok none, l.noteCheck w.now r.name) ∧
          ∀ t, w.modified r.path = .ok t → isLater (some t) r.modified = false) ∨
        (∃ e, l.refresh w r = (.error e, l.noteCheck w.now r.name)) ∨
        (∃ fresh t, w.modified r.path = .ok t ∧ isLater (some t) r.modified = true ∧
          l.read w r.name r.path = .ok fresh ∧
          l.refresh w r = (.ok (some fresh), (l.noteCheck w.now r.name).remember w.now fresh)))) := by
  rcases hp with hi | ⟨hi, -⟩
  · refine .inr ⟨hi, ?_⟩
    obtain ⟨hn, -⟩ | ⟨-, hd, -⟩ | ⟨-, -, hs⟩ := refresh_cases w l r
    · rw [hi] at hn
      cases hn
    · rw [isDue_of_always hi] at hd
      cases hd
    · rw [hs]
      obtain ⟨hs, hnot⟩ | ⟨e, -, hs⟩ | ⟨fresh, t, ht, hlater, hr, hs⟩ :=
        reread_cases w (l.noteCheck w.now r.name) r <;> rw [hs]
      · exact .inl ⟨rfl, hnot⟩
      · exact .inr (.inl ⟨e, rfl⟩)
      · exact .inr (.inr ⟨fresh, t, ht, hlater, hr, rfl⟩)
  · exact .inl ⟨hi, by simp [Loader.refresh, hi]⟩

/-- What has been read of the file of a resource when that had become later supersedes it. -/
theorem supersedes_of_read {t : Instant} (ht : w.modified r.path = .ok t)
    (hlater : isLater (some t) r.modified = true) (h : l.read w r.name r.path = .ok fresh) :
    Supersedes w fresh r := by
  obtain ⟨bytes, t', hentry, -, hfresh⟩ := read_eq_ok_iff.1 h
  obtain rfl : t' = t := by simpa [World.modified_of_entry hentry] using ht
  have hpath : fresh.path = r.path := by rw [hfresh]
  have hmod : fresh.modified = some t' := by rw [hfresh]
  exact ⟨hpath, by rwa [hmod], bytes, t', t', by rwa [hpath], hmod, Nat.le_refl _⟩

/-- **A resource stays backed through every look for a later copy of it** — also if the look fails, and
if it finds a later copy, too. -/
theorem Backs.refresh (hp : l.IsPrompt) (h : l.Backs w r) : (l.refresh w r).2.Backs w r := by
  obtain ⟨-, hs⟩ | ⟨hi, ⟨hs, -⟩ | ⟨e, hs⟩ | ⟨fresh, t, ht, hlater, hr, hs⟩⟩ :=
    look_cases hp w r <;> rw [hs]
  · exact h
  · exact h.noteCheck w.now r.name
  · exact h.noteCheck w.now r.name
  · have hname : fresh.name = r.name := by rw [(read_eq_ok hr).2]
    refine ⟨by rw [h.loader]; simp [Loader.name], fun hn => ?_, fun _ hc => ?_, fun _ hc => ?_⟩
    · simp [hi] at hn
    · refine ⟨⟨t, ht⟩, fresh, ?_, .inr (supersedes_of_read ht hlater hr)⟩
      rw [settings_remember] at hc
      rw [get?_copies_remember, if_pos ⟨hc, hname.symm⟩]
    · rw [settings_remember] at hc
      exact (h.found hi hc).congr (by simp)

/-- **What a look has come to is what is loaded afterwards** — the later copy if there is one, else the
resource itself — and it is backed. -/
theorem load_refresh (hp : l.IsPrompt) (h : l.Backs w r) {found : Option Resource}
    (hf : (l.refresh w r).1 = .ok found) :
    (found.getD r).name = r.name ∧ (l.refresh w r).2.Backs w (found.getD r) ∧
      ((l.refresh w r).2.load w r.name).1 = .ok (some (found.getD r)) := by
  have hback := h.refresh hp
  obtain ⟨hi, hs⟩ | ⟨hi, ⟨hs, hnot⟩ | ⟨e, hs⟩ | ⟨fresh, t, ht, hlater, hr, hs⟩⟩ :=
    look_cases hp w r <;> rw [hs] at hf hback ⊢
  · obtain rfl : none = found := by simpa using hf
    exact ⟨rfl, h, h.fst_load hp fun hn => absurd hi hn⟩
  · obtain rfl : none = found := by simpa using hf
    exact ⟨rfl, hback, hback.fst_load (hp.congr rfl) fun _ => hnot⟩
  · cases hf
  · obtain rfl : some fresh = found := by simpa using hf
    have hname : fresh.name = r.name := by rw [(read_eq_ok hr).2]
    have hpath : fresh.path = r.path := by rw [(read_eq_ok hr).2]
    have hmod : fresh.modified = some t := by
      rw [(read_eq_ok hr).2]
      simp [ht, Except.toOption]
    have hset : ((l.noteCheck w.now r.name).remember w.now fresh).settings = l.settings := by simp
    have hfresh : ((l.noteCheck w.now r.name).remember w.now fresh).Backs w fresh := by
      refine ⟨by rw [(read_eq_ok hr).2]; simp [Loader.name], fun hn => ?_, fun _ hc => ?_,
        fun _ hc => ?_⟩
      · simp [hi] at hn
      · rw [hset] at hc
        exact ⟨⟨t, by rw [hpath, ht]⟩, fresh, by simp [hc], .inl rfl⟩
      · rw [hset] at hc
        exact (isSettled_of_read (h.found hi hc).located hr).congr hset
    have hload := hfresh.fst_load (hp.congr hset) fun _ t' ht' => by
      obtain rfl : t = t' := by simpa [hpath, ht] using ht'
      simp [hmod, isLater]
    exact ⟨hname, hfresh, by rwa [hname] at hload⟩

end Loader

end QueryPress
