import QueryPress.Proofs.Resource.Rechecking

/-!
# Proofs/Resource/Delivering — no holder is left with an older copy

Several holders have copies of one file, and whoever comes first claims the look at it.  What a loader
has handed out to one of them reaches the others: it hands out a copy at least as late to everybody who
looks for a later copy of an older one (`refresh_delivers`), at once if the loader looks at files whenever
it is asked or keeps copies, and else as soon as a look is due.

Two bounds carry this through every order of loads and looks: nothing that was handed out is later than
the file, and where copies are trusted without a look, nothing is later than the copy that is kept.
-/

namespace QueryPress

namespace Loader

variable {w w' : World} {l l' : Loader} {n : String} {p : Path} {r y fresh : Resource}
  {given : List Resource} {first : Prop}

/-- **A loader trusts its copies** — it may hand one out without a look at its file. -/
def TrustsCopies (l : Loader) : Prop :=
  l.settings.cache = true ∧ l.settings.checkInterval ≠ .always

/-- **A file can be read under a name** — it is there, it is a text, and the loader finds it, if it is to
be the first file of the name. -/
structure Offers (first : Prop) (w : World) (l : Loader) (n : String) (p : Path) : Prop where
  readable : ∃ text, w.readText p = .ok text
  located : first → l.locate? w n = some p

/-- The file of a path has not become earlier. -/
def NotEarlier (w w' : World) (p : Path) : Prop :=
  ∀ t t', w.modified p = .ok t → w'.modified p = .ok t' → t ≤ t'

/-- A copy is not later than the file of a path, if it was read from there. -/
def Lags (w : World) (p : Path) (y : Resource) : Prop :=
  y.path = p → ∃ m t, y.modified = some m ∧ w.modified p = .ok t ∧ m ≤ t

/-- **What a loader has handed out is bounded** — by the file and, if copies are trusted, by the copy
that is kept. -/
structure Bounds (w : World) (l : Loader) (n : String) (p : Path) (given : List Resource) : Prop where
  behind : ∀ r ∈ given, Lags w p r
  copy : ∀ y, l.copy? n = some y → y.name = n ∧ Lags w p y
  trusted : l.TrustsCopies → ∀ y, l.copy? n = some y → y.path = p
  latest : l.TrustsCopies → ∀ r ∈ given, r.path = p →
    ∃ y, l.copy? n = some y ∧ isLater r.modified y.modified = false

theorem Offers.modified (h : Offers first w l n p) : ∃ t, w.modified p = .ok t := by
  obtain ⟨text, htext⟩ := h.readable
  exact World.modified_of_isFile (World.isFile_of_readText htext)

/-- A file that is offered is read, and the copy has its time. -/
theorem Offers.read (h : Offers first w l n p) (l' : Loader) (name : String) :
    ∃ fresh t, l'.read w name p = .ok fresh ∧ fresh.name = name ∧ fresh.path = p ∧
      w.modified p = .ok t ∧ fresh.modified = some t := by
  obtain ⟨text, htext⟩ := h.readable
  obtain ⟨t, ht⟩ := h.modified
  refine ⟨{ name, loader := l'.name, path := p, source := text, modified := some t }, t, ?_, rfl, rfl,
    ht, rfl⟩
  simp only [Loader.read, htext, ht, Except.toOption, bind, Except.bind, pure, Except.pure]

theorem lags_of_read {l' : Loader} {path : Path} (h : l'.read w n path = .ok r) : Lags w p r := by
  intro hp
  obtain ⟨bytes, t, hentry, -, hr⟩ := read_eq_ok_iff.1 h
  have hpath : path = p := by rw [← hp, hr]
  subst hpath
  exact ⟨t, t, by rw [hr], World.modified_of_entry hentry, Nat.le_refl t⟩

theorem Lags.notEarlier (h : Lags w p y) (hw : NotEarlier w w' p)
    (hthere : ∃ t, w'.modified p = .ok t) : Lags w' p y := by
  intro hp
  obtain ⟨m, t, hm, ht, hle⟩ := h hp
  obtain ⟨t', ht'⟩ := hthere
  exact ⟨m, t', hm, ht', Nat.le_trans hle (hw t t' ht ht')⟩

/-- What is not earlier than something later is later, too. -/
theorem isLater_of_not_later {a b c : Option Instant} (h : isLater a b = true)
    (hnot : isLater a c = false) : isLater c b = true := by
  cases a <;> cases b <;> cases c <;> simp_all [isLater]
  exact Nat.lt_of_lt_of_le h hnot

/-- What has the time of the file is as late as all that lags behind the file. -/
theorem Lags.not_later {t : Instant} (h : Lags w p r) (hp : r.path = p) (ht : w.modified p = .ok t)
    (hm : fresh.modified = some t) : isLater r.modified fresh.modified = false := by
  obtain ⟨m, t', hr, ht', hle⟩ := h hp
  obtain rfl : t = t' := Except.ok.inj (ht.symm.trans ht')
  simpa [hr, hm, isLater] using hle

/-! ## What keeps the bounds -/

theorem TrustsCopies.congr (h : l'.TrustsCopies) (hs : l'.settings = l.settings) : l.TrustsCopies := by
  rwa [TrustsCopies, ← hs]

theorem Offers.congr (h : Offers first w l n p) (hs : l'.settings = l.settings) : Offers first w l' n p where
  readable := h.readable
  located hf := by
    rw [← h.located hf, locate?, locate?, hs]

/-- What matters of a loader is what it holds under the name. -/
theorem Bounds.congr (h : l.Bounds w n p given) (hs : l'.settings = l.settings)
    (hcopy : l'.copy? n = l.copy? n) : l'.Bounds w n p given where
  behind := h.behind
  copy y hy := h.copy y (by rwa [← hcopy])
  trusted ht y hy := h.trusted (ht.congr hs) y (by rwa [← hcopy])
  latest ht r hr hp := by
    rw [hcopy]
    exact h.latest (ht.congr hs) r hr hp

theorem Bounds.noteCheck (h : l.Bounds w n p given) (now : Instant) (name : String) :
    (l.noteCheck now name).Bounds w n p given :=
  h.congr rfl rfl

theorem Bounds.claim (h : l.Bounds w n p given) (now : Instant) (name : String) :
    (l.claim now name).2.Bounds w n p given :=
  h.congr (settings_claim _ _ _) (by rw [copy?, copy?, settings_claim, copies_claim])

/-- **The file may become later**, and time may pass. -/
theorem Bounds.pass (h : l.Bounds w n p given) (hw : NotEarlier w w' p)
    (hoffers : Offers first w' l n p) : l.Bounds w' n p given where
  behind r hr := (h.behind r hr).notEarlier hw hoffers.modified
  copy y hy := ⟨(h.copy y hy).1, (h.copy y hy).2.notEarlier hw hoffers.modified⟩
  trusted := h.trusted
  latest := h.latest

/-- A name may be forgotten that was not found, for copies are trusted only of names that are. -/
theorem Bounds.evict (h : l.Bounds w n p given) (ht : ¬ l.TrustsCopies) :
    (l.evict n).Bounds w n p given where
  behind := h.behind
  copy y hy := by simp [copy?] at hy
  trusted ht' := absurd ht' ht
  latest ht' := absurd ht' ht

/-- **To hand out the copy that is kept** keeps the bounds. -/
theorem Bounds.kept (h : l.Bounds w n p given) (hy : l.copy? n = some y) :
    l.Bounds w n p ([y] ++ given) where
  behind r hr := by
    rcases List.mem_append.1 hr with hr | hr
    · rw [List.mem_singleton.1 hr]
      exact (h.copy y hy).2
    · exact h.behind r hr
  copy := h.copy
  trusted := h.trusted
  latest ht r hr hp := by
    rcases List.mem_append.1 hr with hr | hr
    · obtain rfl := List.mem_singleton.1 hr
      refine ⟨r, hy, ?_⟩
      cases hm : r.modified <;> simp [isLater]
    · exact h.latest ht r hr hp

/-- **To hand out what has just been read** keeps the bounds. -/
theorem Bounds.read {path : Path} (h : l.Bounds w n p given) (hread : l.read w n path = .ok r)
    (hpath : l.TrustsCopies → path = p) :
    (l.remember w.now r).Bounds w n p ([r] ++ given) := by
  obtain ⟨-, hr⟩ := read_eq_ok hread
  have hname : r.name = n := by rw [hr]
  have hown : r.path = path := by rw [hr]
  have hlags : Lags w p r := lags_of_read hread
  have hcopy : ∀ y, (l.remember w.now r).copy? n = some y →
      l.settings.cache = true ∧ y = r := by
    intro y hy
    simp only [copy?, settings_remember, get?_copies_remember, hname, Option.ite_none_right_eq_some,
      and_true] at hy
    obtain ⟨hc, hy⟩ := hy
    rw [if_pos hc] at hy
    exact ⟨hc, (Option.some.inj hy).symm⟩
  refine ⟨fun s hs => ?_, fun y hy => ?_, fun ht y hy => ?_, fun ht s hs hp => ?_⟩
  · rcases List.mem_append.1 hs with hs | hs
    · rw [List.mem_singleton.1 hs]
      exact hlags
    · exact h.behind s hs
  · obtain ⟨-, rfl⟩ := hcopy y hy
    exact ⟨hname, hlags⟩
  · obtain ⟨-, rfl⟩ := hcopy y hy
    rw [hown, hpath (ht.congr (settings_remember _ _ _))]
  · have ht' : l.TrustsCopies := ht.congr (settings_remember _ _ _)
    have hlast : (l.remember w.now r).copy? n = some r := by
      simp [copy?, ht'.1, hname]
    obtain ⟨m, t, hm, hmod, -⟩ := hlags (hown.trans (hpath ht'))
    have htime : r.modified = some t := by
      rw [hr, hpath ht', hmod]
      rfl
    refine ⟨r, hlast, ?_⟩
    rcases List.mem_append.1 hs with hs | hs
    · obtain rfl := List.mem_singleton.1 hs
      exact hlags.not_later hp hmod htime
    · exact (h.behind s hs).not_later hp hmod htime

/-- **A load keeps the bounds**, with what it hands out. -/
theorem Bounds.load (h : l.Bounds w n p given) (hoffers : Offers first w l n p)
    (hfirst : l.TrustsCopies → first) :
    (l.load w n).2.Bounds w n p (handed (l.load w n).1 ++ given) := by
  obtain ⟨r, hc, -, hs⟩ | ⟨-, l₁, hl₁, hs⟩ := load_cases w l n <;> rw [hs]
  · exact (h.kept hc).claim w.now n
  · obtain ⟨h₁, hset⟩ : l₁.Bounds w n p given ∧ l₁.settings = l.settings := by
      rcases hl₁ with rfl | rfl
      · exact ⟨h, rfl⟩
      · exact ⟨h.noteCheck w.now n, rfl⟩
    have hoffers₁ := hoffers.congr hset
    obtain ⟨hloc, hs⟩ | ⟨path, e, -, -, hs⟩ | ⟨path, r, hloc, hread, hs⟩ := search_cases w l₁ n <;> rw [hs]
    · refine h₁.evict fun ht => ?_
      rw [hoffers₁.located (hfirst (ht.congr hset))] at hloc
      cases hloc
    · exact h₁
    · refine h₁.read hread fun ht => ?_
      exact Option.some.inj (hloc.symm.trans (hoffers₁.located (hfirst (ht.congr hset))))

/-- **A look for a later copy keeps the bounds**, with what it hands out. -/
theorem Bounds.refresh (h : l.Bounds w r.name p given) (hpath : l.TrustsCopies → r.path = p) :
    (l.refresh w r).2.Bounds w r.name p (handed (l.refresh w r).1 ++ given) := by
  obtain ⟨-, hs⟩ | ⟨-, -, hs⟩ | ⟨-, -, hs⟩ := refresh_cases w l r <;> rw [hs]
  · exact h
  · cases hf : (l.copy? r.name).filter fun c => isLater c.modified r.modified with
    | none => exact h
    | some y => exact h.kept (Option.filter_eq_some_iff.1 hf).1
  · have h₁ := h.noteCheck w.now r.name
    obtain ⟨hs, -⟩ | ⟨e, -, hs⟩ | ⟨fresh, t, -, -, hread, hs⟩ :=
      reread_cases w (l.noteCheck w.now r.name) r <;> rw [hs]
    · exact h₁
    · exact h₁
    · exact h₁.read hread hpath

/-- **Nothing that was handed out is kept from who holds something older**, if it is time to look or
copies are trusted. -/
theorem Bounds.delivers {m : Resource} (h : l.Bounds w r.name p given) (hoffers : Offers first w l r.name p)
    (hi : l.settings.checkInterval ≠ .never)
    (hready : l.isDue w.now r.name = true ∨ l.TrustsCopies)
    (hm : m ∈ given) (hmp : m.path = p) (hrp : r.path = p)
    (hlater : isLater m.modified r.modified = true) :
    ∃ fresh, (l.refresh w r).1 = .ok (some fresh) ∧ fresh.name = r.name ∧ fresh.path = p ∧
      isLater m.modified fresh.modified = false := by
  obtain ⟨hn, -⟩ | ⟨-, hdue, hs⟩ | ⟨-, -, hs⟩ := refresh_cases w l r
  · exact absurd hn hi
  · -- it is not time to look, and the copy is not earlier than what was handed out
    have ht : l.TrustsCopies := hready.resolve_left (by simp [hdue])
    obtain ⟨y, hy, hnot⟩ := h.latest ht m hm hmp
    have hfresh : isLater y.modified r.modified = true := isLater_of_not_later hlater hnot
    exact ⟨y, by rw [hs, hy]; simp [Option.filter, hfresh], (h.copy y hy).1, h.trusted ht y hy, hnot⟩
  · -- the file is looked at, and it is not earlier either
    obtain ⟨fresh, t, hread, hname, hpath, ht, htime⟩ :=
      hoffers.read (l.noteCheck w.now r.name) r.name
    have hnot := (h.behind m hm).not_later hmp ht htime
    have hnewer : isLater (some t) r.modified = true :=
      isLater_of_not_later hlater (htime ▸ hnot)
    subst hrp
    have hre : (l.noteCheck w.now r.name).reread w r
        = (.ok (some fresh), (l.noteCheck w.now r.name).remember w.now fresh) := by
      simp [reread, ht, hnewer, hread]
    exact ⟨fresh, by rw [hs, hre], hname, hpath, hnot⟩

end Loader

/-! ## Several holders -/

/-- A loader that several ask, and what it has handed out to any of them under one name. -/
structure Holders where
  world : World
  loader : Loader
  given : List Resource := []

namespace Holders

variable {w : World} {l : Loader} {n : String} {p : Path} {s s' : Holders} {m r : Resource} {first : Prop}

/-- **One step of the holders** — the file is written, or not, and time passes; the name is loaded, or a
later copy is looked for, in whatever order; and so are other names.  If the file is to be the first of
its name it is so all along. -/
inductive Step (first : Prop) (n : String) (p : Path) : Holders → Holders → Prop
  | pass {s : Holders} {w' : World} :
      Loader.Offers first w' s.loader n p → Loader.NotEarlier s.world w' p →
      Step first n p s { s with world := w' }
  | load {s : Holders} :
      Step first n p s { s with
        loader := (s.loader.load s.world n).2
        given := handed (s.loader.load s.world n).1 ++ s.given }
  | refresh {s : Holders} {r : Resource} : r.name = n → (first → r.path = p) →
      Step first n p s { s with
        loader := (s.loader.refresh s.world r).2
        given := handed (s.loader.refresh s.world r).1 ++ s.given }
  | loadOther {s : Holders} {other : String} : n ≠ other →
      Step first n p s { s with loader := (s.loader.load s.world other).2 }
  | refreshOther {s : Holders} {r : Resource} : n ≠ r.name →
      Step first n p s { s with loader := (s.loader.refresh s.world r).2 }

/-- Any number of steps. -/
inductive Run (first : Prop) (n : String) (p : Path) : Holders → Holders → Prop
  | start {s : Holders} : Run first n p s s
  | step {s s' s'' : Holders} : Run first n p s s' → Step first n p s' s'' → Run first n p s s''

/-- **What every step keeps** — the settings, that the file can be read, and the bounds. -/
structure IsKept (first : Prop) (settings : LoaderSettings) (n : String) (p : Path) (s : Holders) :
    Prop where
  settings : s.loader.settings = settings
  offers : Loader.Offers first s.world s.loader n p
  trusting : s.loader.TrustsCopies → first
  bounds : s.loader.Bounds s.world n p s.given

theorem isKept_start (hoffers : Loader.Offers first w l n p) (hfirst : l.TrustsCopies → first)
    (hnone : Table.get? l.copies n = none) :
    IsKept first l.settings n p { world := w, loader := l } where
  settings := rfl
  offers := hoffers
  trusting := hfirst
  bounds := by
    have hcopy : l.copy? n = none := by simp [Loader.copy?, hnone]
    refine ⟨fun r hr => (by cases hr), fun y hy => ?_, fun _ y hy => ?_, fun _ r hr => (by cases hr)⟩
    · simp [hcopy] at hy
    · simp [hcopy] at hy

/-- What a step does to the loader matters only in what it leaves under the name. -/
theorem IsKept.of_bounds {settings : LoaderSettings} {l' : Loader} {given : List Resource}
    (h : s.IsKept first settings n p) (hs : l'.settings = s.loader.settings)
    (hbounds : l'.Bounds s.world n p given) :
    IsKept first settings n p { s with loader := l', given := given } where
  settings := hs.trans h.settings
  offers := h.offers.congr hs
  trusting ht := h.trusting (ht.congr hs)
  bounds := hbounds

theorem IsKept.step {settings : LoaderSettings} (h : s.IsKept first settings n p)
    (hstep : Step first n p s s') : s'.IsKept first settings n p := by
  cases hstep with
  | pass hoffers hw => exact ⟨h.settings, hoffers, h.trusting, h.bounds.pass hw hoffers⟩
  | load => exact h.of_bounds (Loader.settings_eq_of_load _ _ _) (h.bounds.load h.offers h.trusting)
  | @refresh r hname hpath =>
    subst hname
    exact h.of_bounds (Loader.settings_refresh _ _ _)
      (h.bounds.refresh fun ht => hpath (h.trusting ht))
  | loadOther hne =>
    have hsame := Loader.sameAt_load (w := s.world) (l := s.loader) hne
    exact h.of_bounds hsame.settings (h.bounds.congr hsame.settings hsame.copy?_eq)
  | refreshOther hne =>
    have hsame := Loader.sameAt_refresh (w := s.world) (l := s.loader) hne
    exact h.of_bounds hsame.settings (h.bounds.congr hsame.settings hsame.copy?_eq)

theorem IsKept.run {settings : LoaderSettings} (h : s.IsKept first settings n p)
    (hrun : Run first n p s s') : s'.IsKept first settings n p := by
  induction hrun with
  | start => exact h
  | step _ hstep ih => exact ih.step hstep

/-- **No holder is left with an older copy.**

Several holders load a name and look for later copies of it, in any order, while its file is written and
never becomes earlier.  Whatever was handed out to one of them reaches the others: who looks for a later
copy of something older gets a copy that is not earlier — at once, if copies are kept and the file is the
first of its name all along; and else whenever it is time to look at the file, which with a loader that
looks whenever it is asked is always. -/
theorem refresh_delivers (hi : l.settings.checkInterval ≠ .never)
    (hoffers : Loader.Offers first w l n p) (hfirst : l.TrustsCopies → first)
    (hnone : Table.get? l.copies n = none) (hrun : Run first n p { world := w, loader := l } s)
    (hready : l.settings.cache = true ∨ s.loader.isDue s.world.now n = true)
    (hm : m ∈ s.given) (hmp : m.path = p) (hrn : r.name = n) (hrp : r.path = p)
    (hlater : isLater m.modified r.modified = true) :
    ∃ fresh, (s.loader.refresh s.world r).1 = .ok (some fresh) ∧ fresh.name = n ∧ fresh.path = p ∧
      isLater m.modified fresh.modified = false := by
  have h := (isKept_start hoffers hfirst hnone).run hrun
  subst hrn
  refine h.bounds.delivers h.offers (by rwa [h.settings]) ?_ hm hmp hrp hlater
  rcases hready with hcache | hdue
  · by_cases halways : l.settings.checkInterval = .always
    · exact .inl (Loader.isDue_of_always (by rw [h.settings, halways]) _ _)
    · exact .inr ⟨by rw [h.settings, hcache], by rwa [h.settings]⟩
  · exact .inl hdue

/-! ## A page that is written while its file need not be looked at -/

/-- A loader that looks at a file again after an hour. -/
def hourly (cache : Bool) : Loader where
  settings := { name := "pages", paths := ["/p1", "/p2"], cache, checkInterval := .every 3600 }

/-- A page of a time in the second directory. -/
def farPage (time now : Instant) : World where
  disk := { entries := [
    (["p1"], .directory), (["p2"], .directory), (["p2", "a.tera"], .file "far".toUTF8 time)] }
  now := now

/-- The page, and an old one that has come up in the first directory. -/
def nearPage (time now : Instant) : World :=
  { farPage time now with disk := (farPage time now).disk.put ["p1", "a.tera"] (.file "near".toUTF8 1) }

/-- A copy of the page. -/
def copyOf (time : Instant) : Resource :=
  { name := "a.tera", loader := "pages", path := "/p2/a.tera", source := "far", modified := some time }

/-- Time has passed, and the page is loaded. -/
def asked (s : Holders) (w : World) : Holders where
  world := w
  loader := (s.loader.load w "a.tera").2
  given := handed (s.loader.load w "a.tera").1 ++ s.given

/-- The page has been loaded, and again after it was written. -/
def reloaded (cache : Bool) (now : Instant) : Holders :=
  asked (asked { world := farPage 1 0, loader := hourly cache } (farPage 1 0)) (farPage 2 now)

/-- An old page has come up before the page is loaded once more. -/
def passedOver : Holders := asked (reloaded true 3600) (nearPage 3 7200)

theorem modified_farPage (time now : Instant) :
    (farPage time now).modified "/p2/a.tera" = .ok time := rfl

theorem modified_nearPage (time now : Instant) :
    (nearPage time now).modified "/p2/a.tera" = .ok time := rfl

theorem offers_farPage {l : Loader} {cache : Bool} (hset : l.settings = (hourly cache).settings)
    (time now : Instant) : Loader.Offers True (farPage time now) l "a.tera" "/p2/a.tera" := by
  refine Loader.Offers.congr (l := hourly cache) ⟨⟨"far", ?_⟩, fun _ => rfl⟩ hset
  exact World.readText_eq_ok.2 ⟨"far".toUTF8, time, rfl, World.fromUTF8?_toUTF8 "far"⟩

theorem readText_nearPage (time now : Instant) :
    (nearPage time now).readText "/p2/a.tera" = .ok "far" :=
  World.readText_eq_ok.2 ⟨"far".toUTF8, time, rfl, World.fromUTF8?_toUTF8 "far"⟩

theorem notEarlier_of_modified {w w' : World} {p : Path} {t t' : Instant} (ht : w.modified p = .ok t)
    (ht' : w'.modified p = .ok t') (hle : t ≤ t') : Loader.NotEarlier w w' p := by
  intro u u' hu hu'
  rw [ht] at hu
  rw [ht'] at hu'
  cases hu
  cases hu'
  exact hle

theorem settings_asked (s : Holders) (w : World) : (asked s w).loader.settings = s.loader.settings :=
  Loader.settings_eq_of_load _ _ _

/-- A file that need not be the first of its name. -/
theorem Run.mono (h : Run True n p s s') : Run first n p s s' := by
  induction h with
  | start => exact .start
  | step _ hstep ih =>
    refine ih.step ?_
    cases hstep with
    | pass hoffers hw => exact .pass ⟨hoffers.readable, fun _ => hoffers.located trivial⟩ hw
    | load => exact .load
    | refresh hname hpath => exact .refresh hname fun _ => hpath trivial
    | loadOther hne => exact .loadOther hne
    | refreshOther hne => exact .refreshOther hne

/-- To let time pass and load the page are two steps. -/
theorem Run.asked {w' : World} (h : Run first "a.tera" p s s')
    (hoffers : Loader.Offers first w' s'.loader "a.tera" p) (hw : Loader.NotEarlier s'.world w' p) :
    Run first "a.tera" p s (s'.asked w') :=
  .step (.step h (.pass hoffers hw)) .load

theorem run_reloaded (cache : Bool) (now : Instant) :
    Run True "a.tera" "/p2/a.tera" { world := farPage 1 0, loader := hourly cache }
      (reloaded cache now) :=
  .asked
    (.asked .start (offers_farPage rfl 1 0)
      (notEarlier_of_modified (modified_farPage 1 0) (modified_farPage 1 0) (by decide)))
    (offers_farPage (settings_asked _ _) 2 now)
    (notEarlier_of_modified (modified_farPage 1 0) (modified_farPage 2 now) (by decide))

theorem run_passedOver :
    Run False "a.tera" "/p2/a.tera" { world := farPage 1 0, loader := hourly true } passedOver := by
  exact .asked (run_reloaded true 3600).mono ⟨⟨"far", readText_nearPage 3 7200⟩, False.elim⟩
    (notEarlier_of_modified (modified_farPage 2 3600) (modified_nearPage 3 7200) (by decide))

/-- A copy that is kept reaches whoever holds an older one, before it is time to look again. -/
theorem refresh_delivers_reloaded : ∃ fresh,
    ((reloaded true 3600).loader.refresh (reloaded true 3600).world (copyOf 1)).1
        = .ok (some fresh) ∧
      fresh.name = "a.tera" ∧ fresh.path = "/p2/a.tera" ∧
      isLater (copyOf 2).modified fresh.modified = false :=
  refresh_delivers (by decide) (offers_farPage rfl 1 0) (fun _ => trivial) rfl (run_reloaded true 3600)
    (.inl rfl) (by decide +kernel) rfl rfl rfl rfl

/-- Whatever was handed out reaches whoever holds something older at once, also while it is not time to
look at the file. -/
def DeliversAtOnce (cache : Bool) : Prop :=
  ∀ (w : World) (l : Loader) (n : String) (p : Path) (s : Holders) (m r : Resource),
    l.settings.checkInterval ≠ .never → l.settings.cache = cache → Loader.Offers False w l n p →
      Table.get? l.copies n = none → Run False n p { world := w, loader := l } s →
        m ∈ s.given → m.path = p → r.name = n → r.path = p →
          isLater m.modified r.modified = true →
            ∃ fresh, (s.loader.refresh s.world r).1 = .ok (some fresh) ∧
              isLater m.modified fresh.modified = false

/-- **A holder is left behind** by a loader that keeps no copies, and by one that keeps them when an older
file has come up in front: another holder has got the page anew, and until it is time to look again
nothing later is found. -/
theorem not_deliversAtOnce : ¬ DeliversAtOnce false ∧ ¬ DeliversAtOnce true := by
  have hoffers : ∀ cache, Loader.Offers False (farPage 1 0) (hourly cache) "a.tera" "/p2/a.tera" :=
    fun cache => ⟨(@offers_farPage (hourly cache) cache rfl 1 0).readable, False.elim⟩
  constructor <;> intro hclaim
  · have hnone : handed ((reloaded false 0).loader.refresh (reloaded false 0).world (copyOf 1)).1
        = [] := by
      decide +kernel
    obtain ⟨fresh, hfresh, -⟩ := hclaim _ _ _ _ _ (copyOf 2) (copyOf 1) (by decide) rfl
      (hoffers false) rfl (run_reloaded false 0).mono (by decide +kernel) rfl rfl rfl rfl
    rw [hfresh] at hnone
    cases hnone
  · have hnone : handed (passedOver.loader.refresh passedOver.world (copyOf 1)).1 = [] := by
      decide +kernel
    obtain ⟨fresh, hfresh, -⟩ := hclaim _ _ _ _ _ (copyOf 2) (copyOf 1) (by decide) rfl
      (hoffers true) rfl run_passedOver (by decide +kernel) rfl rfl rfl rfl
    rw [hfresh] at hnone
    cases hnone

end Holders

end QueryPress
