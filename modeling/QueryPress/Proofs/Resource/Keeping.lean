import QueryPress.Proofs.Resource.Delivering
import QueryPress.Proofs.Resource.Resting

/-!
# Proofs/Resource/Keeping — a copy that is kept stays until it is forgotten

A loader that keeps copies hands out the copy that it has of a name, and finds nothing later, until it is
time to look at the file, or the name is forgotten (`answers_stay`).

Two inputs.

**What is held under a name decides** (`SameAt.answer`).  A loader answers from the settings and from what
its tables hold under the name that is asked for, and that is all of the tables that it touches.  So when
a name has been forgotten, the loader answers for it like a new one.

**A copy that is held stays** (`IsWithin.copy?_answer`).  Its file has been looked at, since the tables fit
each other, and not before the wait has begun (`LooksSince`); so until the wait is over no request for the
name changes anything.
-/

namespace QueryPress

/-- **A wait that has begun is not over** — files that have been looked at then need not be looked at. -/
def CheckInterval.IsWaiting (i : CheckInterval) (start now : Instant) : Prop :=
  start ≤ now ∧ i.isDue start now = false

instance (i : CheckInterval) (start now : Instant) : Decidable (i.IsWaiting start now) :=
  inferInstanceAs (Decidable (_ ∧ _))

theorem CheckInterval.IsWaiting.not_due {i : CheckInterval} {start last now : Instant}
    (h : i.IsWaiting start now) (hlast : start ≤ last) : i.isDue last now = false := by
  obtain ⟨-, hdue⟩ := h
  cases i with
  | never => rfl
  | every s =>
    simp only [CheckInterval.isDue, decide_eq_false_iff_not, Nat.not_le] at hdue ⊢
    exact Nat.lt_of_le_of_lt (Nat.sub_le_sub_left hlast now) hdue
  | always => cases hdue

namespace Loader

variable {w : World} {l l' : Loader} {n : String} {r : Resource} {settings : LoaderSettings}
  {start : Instant}

/-! ## What a loader is asked -/

/-- What a loader may be asked — to load a name, to look for a later copy, and to forget a name. -/
inductive Request
  | load (name : String)
  | refresh (r : Resource)
  | evict (name : String)
  deriving DecidableEq

/-- The name that a request is about. -/
def Request.name : Request → String
  | load name => name
  | refresh r => r.name
  | evict name => name

/-- What a loader answers, and what becomes of it. To forget a name is answered by nothing. -/
def answer (w : World) (l : Loader) : Request → Except IoError (Option Resource) × Loader
  | .load name => l.load w name
  | .refresh r => l.refresh w r
  | .evict name => (.ok none, l.evict name)

/-- A request, and the world as it is then. -/
structure Event where
  world : World
  request : Request

/-- What becomes of a loader that is asked one thing after the other. -/
def after (l : Loader) (events : List Event) : Loader :=
  events.foldl (fun l e => (l.answer e.world e.request).2) l

/-- What a loader answers to the requests about a name, among others. -/
def answersTo (name : String) (l : Loader) : List Event → List (Except IoError (Option Resource))
  | [] => []
  | e :: events =>
    let (found, l') := l.answer e.world e.request
    if e.request.name = name then found :: answersTo name l' events else answersTo name l' events

theorem answersTo_cons (l : Loader) (e : Event) (events : List Event) : l.answersTo n (e :: events) =
    if e.request.name = n then
      (l.answer e.world e.request).1 :: (l.answer e.world e.request).2.answersTo n events
    else (l.answer e.world e.request).2.answersTo n events := rfl

/-! ## What is held under a name decides -/

theorem SameAt.noteCheck (h : SameAt n l l') (now : Instant) (m : String) :
    SameAt n (l.noteCheck now m) (l'.noteCheck now m) where
  settings := h.settings
  copies := h.copies
  checks := by simp only [get?_checks_noteCheck, h.checks]

theorem SameAt.fst_claim_eq (h : SameAt n l l') (now : Instant) :
    (l.claim now n).1 = (l'.claim now n).1 := by
  unfold Loader.claim
  rw [h.isDue_eq]
  split <;> rfl

theorem SameAt.claim (h : SameAt n l l') (now : Instant) :
    SameAt n (l.claim now n).2 (l'.claim now n).2 := by
  unfold Loader.claim
  rw [h.isDue_eq]
  split
  · exact h.noteCheck now n
  · exact h

theorem SameAt.remember (h : SameAt n l l') (now : Instant) (r : Resource) :
    SameAt n (l.remember now r) (l'.remember now r) where
  settings := by rw [settings_remember, settings_remember, h.settings]
  copies := by rw [get?_copies_remember, get?_copies_remember, h.settings, h.copies]
  checks := by rw [get?_checks_remember, get?_checks_remember, h.checks]

theorem SameAt.evict (h : SameAt n l l') (m : String) : SameAt n (l.evict m) (l'.evict m) where
  settings := h.settings
  copies := by rw [get?_copies_evict, get?_copies_evict, h.copies]
  checks := by rw [get?_checks_evict, get?_checks_evict, h.checks]

theorem read_congr (h : l.settings = l'.settings) (name : String) (path : Path) :
    l.read w name path = l'.read w name path := by
  simp only [read, Loader.name, h]

theorem SameAt.search (h : SameAt n l l') : SameAt n (l.search w n).2 (l'.search w n).2 := by
  have hlocate : l.locate? w n = l'.locate? w n := by rw [locate?, locate?, h.settings]
  simp only [Loader.search, hlocate, read_congr h.settings]
  split
  · exact h.evict n
  · split
    · exact h
    · exact h.remember w.now _

theorem SameAt.load (h : SameAt n l l') : SameAt n (l.load w n).2 (l'.load w n).2 := by
  simp only [Loader.load, h.copy?_eq]
  split
  · exact h.search
  · rw [h.fst_claim_eq]
    split
    · exact h.claim w.now
    · exact (h.claim w.now).search

theorem SameAt.reread (h : SameAt n l l') (r : Resource) :
    SameAt n (l.reread w r).2 (l'.reread w r).2 := by
  simp only [Loader.reread, read_congr h.settings]
  split
  · exact h
  · split
    · exact h
    · split
      · exact h
      · exact h.remember w.now _

theorem SameAt.refresh (h : SameAt r.name l l') : SameAt r.name (l.refresh w r).2 (l'.refresh w r).2 := by
  simp only [Loader.refresh, h.settings, h.fst_claim_eq]
  split
  · exact h
  · split
    · exact (h.claim w.now).reread r
    · exact h.claim w.now

/-- **What is held under a name decides** what is answered to a request about it, and what is held
afterwards. -/
theorem SameAt.answer {request : Request} (h : SameAt request.name l l') :
    (l.answer w request).1 = (l'.answer w request).1 ∧
      SameAt request.name (l.answer w request).2 (l'.answer w request).2 := by
  cases request with
  | load name => exact ⟨h.fst_load_eq, h.load⟩
  | refresh r => exact ⟨h.fst_refresh_eq, h.refresh⟩
  | evict name => exact ⟨rfl, h.evict name⟩

/-- **A request leaves the tables alone under every other name.** -/
theorem sameAt_answer {request : Request} (h : n ≠ request.name) :
    SameAt n (l.answer w request).2 l := by
  cases request with
  | load name => exact sameAt_load h
  | refresh r => exact sameAt_refresh h
  | evict name => exact sameAt_evict h

/-- **Loaders that hold the same under a name** answer the same to all requests about it. -/
theorem SameAt.answersTo_eq (h : SameAt n l l') (events : List Event) :
    l.answersTo n events = l'.answersTo n events := by
  induction events generalizing l l' with
  | nil => rfl
  | cons e events ih =>
    rw [answersTo_cons, answersTo_cons]
    by_cases hname : e.request.name = n
    · subst hname
      obtain ⟨hanswer, hafter⟩ := h.answer (w := e.world)
      rw [if_pos rfl, if_pos rfl, hanswer, ih hafter]
    · have hne : n ≠ e.request.name := fun heq => hname heq.symm
      rw [if_neg hname, if_neg hname]
      exact ih (((sameAt_answer hne).trans h).trans (sameAt_answer hne).symm)

/-- What is held under a name that has been forgotten is what a new loader holds. -/
theorem sameAt_evict_start (l : Loader) (n : String) :
    SameAt n (l.evict n) { settings := l.settings } :=
  ⟨rfl, by simp, by simp⟩

/-! ## A copy that is held is not looked at -/

/-- A loader has looked at no file before some time. -/
def LooksSince (start : Instant) (l : Loader) : Prop :=
  ∀ m last, Table.get? l.checks m = some last → start ≤ last

theorem looksSince_start (settings : LoaderSettings) (start : Instant) :
    LooksSince start { settings } := by
  intro m last h
  simp at h

theorem LooksSince.noteCheck (h : l.LooksSince start) {now : Instant} (hnow : start ≤ now) (m : String) :
    (l.noteCheck now m).LooksSince start := by
  intro k last hlast
  rw [get?_checks_noteCheck] at hlast
  split at hlast
  · obtain rfl := Option.some.inj hlast
    exact hnow
  · exact h k last hlast

theorem LooksSince.evict (h : l.LooksSince start) (m : String) : (l.evict m).LooksSince start := by
  intro k last hlast
  rw [get?_checks_evict] at hlast
  split at hlast
  · cases hlast
  · exact h k last hlast

theorem LooksSince.remember (h : l.LooksSince start) {now : Instant} (hnow : start ≤ now)
    (r : Resource) : (l.remember now r).LooksSince start := by
  intro k last hlast
  rw [get?_checks_remember, ← get?_checks_noteCheck] at hlast
  exact h.noteCheck hnow r.name k last hlast

theorem LooksSince.claim (h : l.LooksSince start) {now : Instant} (hnow : start ≤ now) (m : String) :
    (l.claim now m).2.LooksSince start := by
  unfold Loader.claim
  split
  · exact h.noteCheck hnow m
  · exact h

theorem LooksSince.search (h : l.LooksSince start) (hnow : start ≤ w.now) (m : String) :
    (l.search w m).2.LooksSince start := by
  obtain ⟨-, hs⟩ | ⟨path, e, -, -, hs⟩ | ⟨path, r, -, -, hs⟩ := search_cases w l m <;> rw [hs]
  · exact h.evict m
  · exact h
  · exact h.remember hnow r

/-- **Every look is one of now**, so a loader that has not looked before some time has not afterwards. -/
theorem LooksSince.answer (h : l.LooksSince start) (hnow : start ≤ w.now) (request : Request) :
    (l.answer w request).2.LooksSince start := by
  cases request with
  | load m =>
    obtain ⟨r, -, -, hs⟩ | ⟨-, l₁, hl₁, hs⟩ := load_cases w l m <;> rw [Loader.answer, hs]
    · exact h.claim hnow m
    · rcases hl₁ with rfl | rfl
      · exact h.search hnow m
      · exact (h.noteCheck hnow m).search hnow m
  | refresh r =>
    obtain ⟨-, hs⟩ | ⟨-, -, hs⟩ | ⟨-, -, hs⟩ := refresh_cases w l r <;> rw [Loader.answer, hs]
    · exact h
    · exact h
    · obtain ⟨hs, -⟩ | ⟨e, -, hs⟩ | ⟨fresh, t, -, -, -, hs⟩ :=
        reread_cases w (l.noteCheck w.now r.name) r <;> rw [hs]
      · exact h.noteCheck hnow r.name
      · exact h.noteCheck hnow r.name
      · exact (h.noteCheck hnow r.name).remember hnow fresh
  | evict m => exact h.evict m

theorem IsSound.answer (h : l.IsSound) (w : World) (request : Request) :
    (l.answer w request).2.IsSound := by
  cases request with
  | load m => exact h.load w m
  | refresh r => exact h.refresh w r
  | evict m => exact h.evict m

theorem settings_answer (w : World) (l : Loader) (request : Request) :
    (l.answer w request).2.settings = l.settings := by
  cases request with
  | load m => exact settings_eq_of_load w l m
  | refresh r => exact settings_refresh w l r
  | evict m => rfl

/-- **A loader within its wait** — it has its settings, its tables fit each other, and no file has been
looked at before the wait has begun. -/
structure IsWithin (settings : LoaderSettings) (start : Instant) (l : Loader) : Prop where
  settings : l.settings = settings
  sound : l.IsSound
  looks : l.LooksSince start

theorem isWithin_start (settings : LoaderSettings) (start : Instant) :
    IsWithin settings start { settings } :=
  ⟨rfl, isSound_start settings, looksSince_start settings start⟩

theorem IsWithin.answer (h : l.IsWithin settings start)
    (hwait : settings.checkInterval.IsWaiting start w.now) (request : Request) :
    (l.answer w request).2.IsWithin settings start where
  settings := (settings_answer w l request).trans h.settings
  sound := h.sound.answer w request
  looks := h.looks.answer hwait.1 request

/-- **A loader stays within its wait** while it is not over. -/
theorem IsWithin.after (h : l.IsWithin settings start) {events : List Event}
    (hwait : ∀ e ∈ events, settings.checkInterval.IsWaiting start e.world.now) :
    (l.after events).IsWithin settings start := by
  induction events generalizing l with
  | nil => exact h
  | cons e events ih =>
    obtain ⟨he, hwait⟩ := List.forall_mem_cons.1 hwait
    exact ih (h.answer he e.request) hwait

/-- A file of which there is a copy need not be looked at within the wait. -/
theorem IsWithin.not_due (h : l.IsWithin settings start)
    (hwait : settings.checkInterval.IsWaiting start w.now) (hcopy : l.copy? n = some r) :
    l.isDue w.now n = false := by
  obtain ⟨last, hlast⟩ := Option.isSome_iff_exists.1 (h.sound.isChecked (get?_of_copy? hcopy))
  rw [isDue, hlast, h.settings]
  exact hwait.not_due (h.looks n last hlast)

/-- **A copy that is held is handed out** while its file need not be looked at, and nothing changes. -/
theorem load_of_not_due (hcopy : l.copy? n = some r) (hdue : l.isDue w.now n = false) :
    l.load w n = (.ok (some r), l) := by
  simp [load, hcopy, claim, hdue]

/-- **Nothing is looked at** for the sake of a resource while its file need not be, and nothing changes. -/
theorem snd_refresh_of_not_due (hdue : l.isDue w.now r.name = false) : (l.refresh w r).2 = l := by
  obtain ⟨-, hs⟩ | ⟨-, -, hs⟩ | ⟨-, hdue', -⟩ := refresh_cases w l r
  · rw [hs]
  · rw [hs]
  · exact absurd (hdue.symm.trans hdue') (by simp)

/-- Nothing is later than the copy that is held. -/
theorem fst_refresh_of_not_due (hcopy : l.copy? r.name = some r) (hdue : l.isDue w.now r.name = false) :
    (l.refresh w r).1 = .ok none := by
  rw [fst_refresh, hdue, hcopy, Option.filter_some, isLater_self]
  simp

/-- **A copy that is held stays**, whatever is asked for, unless its name is forgotten. -/
theorem IsWithin.copy?_answer (h : l.IsWithin settings start)
    (hwait : settings.checkInterval.IsWaiting start w.now) (hcopy : l.copy? n = some r)
    {request : Request} (hkept : request ≠ .evict n) :
    (l.answer w request).2.copy? n = some r := by
  by_cases hname : n = request.name
  · cases request with
    | load m =>
      obtain rfl : n = m := hname
      rw [Loader.answer, load_of_not_due hcopy (h.not_due hwait hcopy), hcopy]
    | refresh s =>
      obtain rfl : n = s.name := hname
      rw [Loader.answer, snd_refresh_of_not_due (h.not_due hwait hcopy), hcopy]
    | evict m =>
      obtain rfl : n = m := hname
      exact absurd rfl hkept
  · rw [(sameAt_answer hname).copy?_eq, hcopy]

theorem IsWithin.copy?_after (h : l.IsWithin settings start) (hcopy : l.copy? n = some r)
    {events : List Event} (hwait : ∀ e ∈ events,
      settings.checkInterval.IsWaiting start e.world.now ∧ e.request ≠ .evict n) :
    (l.after events).copy? n = some r := by
  induction events generalizing l with
  | nil => exact hcopy
  | cons e events ih =>
    obtain ⟨⟨he, hkept⟩, hwait⟩ := List.forall_mem_cons.1 hwait
    exact ih (h.answer he e.request) (h.copy?_answer he hcopy hkept) hwait

/-- What has been loaded is held, if copies are kept. -/
theorem copy?_snd_load (hcache : l.settings.cache = true)
    (h : (l.load w n).1 = .ok (some r)) : (l.load w n).2.copy? n = some r := by
  obtain ⟨y, hcopy, -, hl⟩ | ⟨-, l₁, hl₁, hl⟩ := load_cases w l n <;> rw [hl] at h ⊢
  · obtain rfl : y = r := by simpa using h
    rw [← hcopy]
    simp only [copy?, settings_claim, copies_claim]
  · have hcache₁ : l₁.settings.cache = true := by rcases hl₁ with rfl | rfl <;> exact hcache
    obtain ⟨path, -, hread, hsearch⟩ := exists_read_of_search h
    have hname : r.name = n := by rw [(read_eq_ok hread).2]
    rw [hsearch]
    simp [copy?, hcache₁, hname]

/-- **A copy that is kept stays until its name is forgotten.**

Take a loader that keeps copies, and ask it what you like, in whatever order, while files are written,
edited and removed, and the wait before it looks again is not over.  When it has handed out a resource for
a name, it hands out that resource whenever it loads the name, and finds nothing later, as long as it is
not told to forget that name.  And when it has been told, it answers for the name like a new loader with
the same settings, and for all other names as if it had not been told. -/
theorem answers_stay (hcache : settings.cache = true) {before : List Event}
    (hbefore : ∀ e ∈ before, settings.checkInterval.IsWaiting start e.world.now) :
    let l := Loader.after { settings } before
    (∀ (n : String) (w : World) (r : Resource), settings.checkInterval.IsWaiting start w.now →
      (l.load w n).1 = .ok (some r) → ∀ later : List Event,
        (∀ e ∈ later, settings.checkInterval.IsWaiting start e.world.now ∧ e.request ≠ .evict n) →
          ∀ w' : World, settings.checkInterval.IsWaiting start w'.now →
            (((l.load w n).2.after later).load w' n).1 = .ok (some r) ∧
              (((l.load w n).2.after later).refresh w' r).1 = .ok none) ∧
      ∀ (n : String) (events : List Event),
        (l.evict n).answersTo n events = Loader.answersTo n { settings } events ∧
          ∀ m, m ≠ n → (l.evict n).answersTo m events = l.answersTo m events := by
  intro l
  have hl : l.IsWithin settings start := (isWithin_start settings start).after hbefore
  constructor
  · intro n w r hw hload later hlater w' hw'
    have hafter : ((l.load w n).2.after later).IsWithin settings start :=
      (hl.answer hw (.load n)).after fun e he => (hlater e he).1
    have hcopy : ((l.load w n).2.after later).copy? n = some r :=
      (hl.answer hw (.load n)).copy?_after (copy?_snd_load (hl.settings ▸ hcache) hload) hlater
    have hdue := hafter.not_due hw' hcopy
    obtain rfl : r.name = n := (hl.sound.eq_of_load hload).1
    exact ⟨by rw [load_of_not_due hcopy hdue], fst_refresh_of_not_due hcopy hdue⟩
  · intro n events
    have hnew : SameAt n (l.evict n) { settings } := hl.settings ▸ sameAt_evict_start l n
    exact ⟨hnew.answersTo_eq events, fun m hm => (sameAt_evict hm).answersTo_eq events⟩

/-! ## A page that is removed -/

/-- A page is looked for that is not there, and one that is. -/
def beforeChanges : List Event :=
  [⟨Holders.farPage 1 0, .load "b.tera"⟩, ⟨Holders.farPage 1 5, .load "a.tera"⟩]

/-- Within the hour the page is edited and removed, and the other one is forgotten. -/
def changes : List Event := [
  ⟨Holders.farPage 2 20, .load "a.tera"⟩, ⟨{ now := 30 }, .refresh (Holders.copyOf 1)⟩,
  ⟨{ now := 40 }, .evict "b.tera"⟩, ⟨{ now := 50 }, .load "b.tera"⟩]

/-- A page that has been found is handed out when there is none any more, until it is forgotten. -/
theorem answers_stay_removed :
    let l := (Holders.hourly true).after beforeChanges
    let later := (l.load (Holders.farPage 1 10) "a.tera").2.after changes
    (later.load { now := 60 } "a.tera").1 = .ok (some (Holders.copyOf 1)) ∧
      (later.refresh { now := 60 } (Holders.copyOf 1)).1 = .ok none ∧
      (l.evict "a.tera").answersTo "a.tera" [⟨{ now := 60 }, .load "a.tera"⟩] = [.ok none] := by
  obtain ⟨hstay, hforget⟩ :=
    @answers_stay (Holders.hourly true).settings 0 rfl beforeChanges (by decide)
  obtain ⟨hload, hrefresh⟩ := hstay "a.tera" (Holders.farPage 1 10) (Holders.copyOf 1) (by decide)
    (eq_ok_of_toOption (by decide +kernel)) changes (by decide) { now := 60 } (by decide)
  obtain ⟨hnew, -⟩ := hforget "a.tera" [⟨{ now := 60 }, .load "a.tera"⟩]
  refine ⟨hload, hrefresh, hnew.trans (congrArg (· :: []) ?_)⟩
  exact eq_ok_of_toOption (by decide +kernel)

end Loader

end QueryPress
