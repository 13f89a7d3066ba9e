import QueryPress.Proofs.Resource.Renewing

/-!
# Proofs/Resource/Resting — what has just been looked at is not looked at in vain

A loader is *at rest* about a resource if it has nothing later of it: where it looks at files whenever
it is asked, the file is not later; where it waits between its looks, no copy that it keeps is.  What has
been loaded leaves a loader at rest (`isAtRest_of_load`), and so does a look that does not fail, about
what it has come to (`isAtRest_of_refresh`).  A walk asks for no name that it knows, so a chain that has
looked for later copies of some resources is at rest about all of them in the end, and about all that it
has found beside them (`isAtRest_of_collectChanges`).  While no file changes and no wait is over, there
is nothing to bring then (`collectChanges_of_isAtRest`).
-/

namespace QueryPress

/-- Whether a loader waits between two looks at a file. -/
def CheckInterval.isTimed : CheckInterval → Bool
  | every _ => true
  | never | always => false

@[simp] theorem isLater_self (a : Option Instant) : isLater a a = false := by
  cases a <;> simp [isLater]

namespace Loader

variable {w w' : World} {l l' : Loader} {n : String} {r m : Resource} {now : Instant}

theorem isTimed_of_not_due (hi : l.settings.checkInterval ≠ .never)
    (hd : l.isDue now n = false) : l.settings.checkInterval.isTimed = true := by
  cases hinterval : l.settings.checkInterval with
  | never => exact absurd hinterval hi
  | every s => rfl
  | always =>
    rw [isDue_of_always hinterval] at hd
    cases hd

/-- What a look at the file of a resource finds — the file, if it is later. -/
def looked (w : World) (l : Loader) (r : Resource) : Except IoError (Option Resource) :=
  match w.modified r.path with
  | .error _ => .ok none
  | .ok time =>
    if isLater (some time) r.modified then (l.read w r.name r.path).map some else .ok none

theorem looked_congr (h : l'.settings = l.settings) : l'.looked w r = l.looked w r := by
  simp only [looked, read, name, h]

theorem fst_reread : (l.reread w r).1 = l.looked w r := by
  unfold reread looked
  cases w.modified r.path with
  | error e => rfl
  | ok t =>
    cases hlater : isLater (some t) r.modified with
    | false => simp [hlater]
    | true => cases hread : l.read w r.name r.path <;> simp [hlater, Except.map]

/-- **What a look for a later copy comes to** — nothing, what is found in the file, or the copy that is
kept. -/
theorem fst_refresh :
    (l.refresh w r).1 = if l.settings.checkInterval = .never then .ok none
      else if l.isDue w.now r.name then l.looked w r
      else .ok ((l.copy? r.name).filter fun c => isLater c.modified r.modified) := by
  obtain ⟨hnever, hl⟩ | ⟨hi, hdue, hl⟩ | ⟨hi, hdue, hl⟩ := refresh_cases w l r <;> rw [hl]
  · rw [if_pos hnever]
  · rw [if_neg hi, hdue]
    rfl
  · rw [if_neg hi, if_pos hdue, fst_reread, looked_congr]
    rfl

/-- **A loader is at rest about a resource** — it has nothing later, in the file that it would look at
or in the copy that it would hand out. -/
structure IsAtRest (w : World) (l : Loader) (r : Resource) : Prop where
  file : l.settings.checkInterval = .always →
    ∀ t, w.modified r.path = .ok t → isLater (some t) r.modified = false
  copy : l.settings.checkInterval.isTimed = true →
    ∀ y, l.copy? r.name = some y → isLater y.modified r.modified = false

/-- **A loader keeps no stray copy of a resource** — if it is time to look at the file, a copy that is
later than the resource has a file of the resource that is later, too. -/
def KeepsNoStray (w : World) (l : Loader) (r : Resource) : Prop :=
  l.settings.checkInterval.isTimed = true → l.isDue w.now r.name = true →
    ∀ y, l.copy? r.name = some y → isLater y.modified r.modified = true →
      ∃ t, w.modified r.path = .ok t ∧ isLater (some t) r.modified = true

theorem IsAtRest.congr (h : l.IsAtRest w r) (hs : SameAt r.name l' l) : l'.IsAtRest w r where
  file := by rw [hs.settings]; exact h.file
  copy := by rw [hs.settings, hs.copy?_eq]; exact h.copy

theorem KeepsNoStray.congr (h : l.KeepsNoStray w r) (hs : SameAt r.name l' l) :
    l'.KeepsNoStray w r := by
  rw [KeepsNoStray, hs.settings, hs.copy?_eq, hs.isDue_eq]
  exact h

/-- What has just been read and taken down leaves a loader at rest. -/
theorem isAtRest_remember (hread : l'.read w n r.path = .ok r) :
    (l.remember w.now r).IsAtRest w r where
  file _ t ht := by
    rw [(read_eq_ok hread).2] at ht ⊢
    simp [ht, Except.toOption]
  copy _ y hy := by
    simp only [copy?, get?_copies_remember, settings_remember] at hy
    split at hy
    · obtain rfl : r = y := by simpa [*] using hy
      exact isLater_self _
    · cases hy

/-- **What has been loaded leaves a loader at rest.** -/
theorem isAtRest_of_load (h : (l.load w n).1 = .ok (some r)) (hs : l.IsSound) :
    (l.load w n).2.IsAtRest w r := by
  obtain ⟨y, hcopy, hkept, hl⟩ | ⟨-, l₁, -, hl⟩ := load_cases w l n <;> rw [hl] at h ⊢
  · obtain rfl : y = r := by simpa using h
    have hname := hs.name_eq (get?_of_copy? hcopy)
    refine ⟨fun hi t ht => ?_, fun _ z hz => ?_⟩
    · rw [settings_claim] at hi
      have hcurrent : isCurrent w y = true := by
        simpa [kept?, hcopy, isDue_of_always hi, Option.filter] using hkept
      simpa [isCurrent, ht] using hcurrent
    · have hsame : (l.claim w.now n).2.copy? y.name = l.copy? n := by
        simp only [copy?, settings_claim, copies_claim, hname]
      obtain rfl : y = z := Option.some.inj (hcopy.symm.trans (hsame.symm.trans hz))
      exact isLater_self _
  · obtain ⟨path, -, hread, hsearch⟩ := exists_read_of_search h
    have hpath : r.path = path := by rw [(read_eq_ok hread).2]
    rw [hsearch]
    exact isAtRest_remember (hpath ▸ hread)

/-- A loader that waits between two looks is at rest about the later copy that it has, or else about the
resource. -/
theorem isAtRest_of_copy (hs : l.IsSound) (htimed : l.settings.checkInterval.isTimed = true)
    {found : Option Resource}
    (h : ((l.copy? r.name).filter fun c => isLater c.modified r.modified) = found) :
    l.IsAtRest w (found.getD r) ∧ ∀ m, found = some m → m.name = r.name ∧ m.loader = l.name := by
  have hnot : l.settings.checkInterval ≠ .always := by
    intro halways
    rw [halways] at htimed
    cases htimed
  cases hcopy : l.copy? r.name with
  | none =>
    rw [hcopy] at h
    subst h
    refine ⟨⟨fun hi => absurd hi hnot, fun _ y hy => ?_⟩, nofun⟩
    cases hcopy.symm.trans hy
  | some y =>
    rw [hcopy] at h
    have hget := get?_of_copy? hcopy
    have hname := hs.name_eq hget
    cases hlater : isLater y.modified r.modified with
    | false =>
      obtain rfl : none = found := by simpa [Option.filter, hlater] using h
      refine ⟨⟨fun hi => absurd hi hnot, fun _ z hz => ?_⟩, nofun⟩
      obtain rfl : y = z := Option.some.inj (hcopy.symm.trans hz)
      exact hlater
    | true =>
      obtain rfl : some y = found := by simpa [Option.filter, hlater] using h
      refine ⟨⟨fun hi => absurd hi hnot, fun _ z hz => ?_⟩, fun m hm => ?_⟩
      · obtain rfl : y = z := by
          rw [Option.getD_some, hname] at hz
          exact Option.some.inj (hcopy.symm.trans hz)
        exact isLater_self _
      · obtain rfl := Option.some.inj hm
        exact ⟨hname, hs.loader_eq hget⟩

/-- **A look at the file that does not fail leaves a loader at rest** about what it has come to, if it had
no stray copy when it was time to look. -/
theorem isAtRest_of_reread (hstray : l.settings.checkInterval.isTimed = true →
      ∀ y, l.copy? r.name = some y → isLater y.modified r.modified = true →
        ∃ t, w.modified r.path = .ok t ∧ isLater (some t) r.modified = true)
    {found : Option Resource} (h : (l.reread w r).1 = .ok found) :
    (l.reread w r).2.IsAtRest w (found.getD r) ∧
      ∀ m, found = some m → m.name = r.name ∧ m.loader = l.name := by
  obtain ⟨hl, hnot⟩ | ⟨e, -, hl⟩ | ⟨fresh, t, -, -, hread, hl⟩ := reread_cases w l r <;>
    rw [hl] at h ⊢
  · obtain rfl := Except.ok.inj h
    refine ⟨⟨fun _ => hnot, fun htimed y hy => ?_⟩, nofun⟩
    cases hlater : isLater y.modified r.modified with
    | false => exact hlater
    | true =>
      obtain ⟨t, ht, htlater⟩ := hstray htimed y hy hlater
      rw [hnot t ht] at htlater
      cases htlater
  · cases h
  · obtain rfl := Except.ok.inj h
    have heq := (read_eq_ok hread).2
    have hpath : fresh.path = r.path := by rw [heq]
    refine ⟨isAtRest_remember (hpath ▸ hread), fun m hm => ?_⟩
    obtain rfl := Option.some.inj hm
    rw [heq]
    exact ⟨rfl, rfl⟩

/-- **A look that does not fail leaves a loader at rest** about what it has come to: the later copy, if
there is one, else the resource. -/
theorem isAtRest_of_refresh {found : Option Resource} (hs : l.IsSound) (hstray : l.KeepsNoStray w r)
    (h : (l.refresh w r).1 = .ok found) :
    (l.refresh w r).2.IsAtRest w (found.getD r) ∧
      ∀ m, found = some m → m.name = r.name ∧ m.loader = l.name := by
  obtain ⟨hnever, hl⟩ | ⟨hi, hdue, hl⟩ | ⟨hi, hdue, hl⟩ := refresh_cases w l r <;> rw [hl] at h ⊢
  · obtain rfl := Except.ok.inj h
    refine ⟨⟨fun hi => ?_, fun hi => ?_⟩, nofun⟩ <;> rw [hnever] at hi <;> cases hi
  · exact isAtRest_of_copy hs (isTimed_of_not_due hi hdue) (Except.ok.inj h)
  · exact isAtRest_of_reread (l := l.noteCheck w.now r.name) (fun htimed => hstray htimed hdue) h

/-- **A loader at rest brings nothing** while no file changes, if it is not time to look at one again. -/
theorem IsAtRest.refresh_eq_none (h : l.IsAtRest w r) (hmodified : w'.modified r.path = w.modified r.path)
    (hs : l'.settings = l.settings)
    (hwait : l.settings.checkInterval.isTimed = true →
      l'.copy? r.name = l.copy? r.name ∧ l'.isDue w'.now r.name = false) :
    (l'.refresh w' r).1 = .ok none := by
  rw [fst_refresh, hs]
  cases hinterval : l.settings.checkInterval with
  | never => rfl
  | always =>
    have hnot := h.file hinterval
    rw [← hmodified] at hnot
    rw [if_neg (by simp), isDue_of_always (hs ▸ hinterval), if_pos rfl, looked]
    split
    · rfl
    · rename_i t ht
      simp [hnot t ht]
  | every s =>
    have htimed : l.settings.checkInterval.isTimed = true := by rw [hinterval]; rfl
    obtain ⟨hcopy, hdue⟩ := hwait htimed
    rw [if_neg (by simp), hdue, if_neg (by simp), hcopy]
    cases hy : l.copy? r.name with
    | none => rfl
    | some y => simp [Option.filter, h.copy htimed y hy]

/-- What is held under the name of a resource decides what a look for a later copy comes to. -/
theorem SameAt.fst_refresh_eq (h : SameAt r.name l' l) :
    (l'.refresh w r).1 = (l.refresh w r).1 := by
  rw [fst_refresh, fst_refresh, h.settings, h.isDue_eq, h.copy?_eq, looked_congr h.settings]

end Loader

namespace Chain

variable {w w' : World} {c c' c'' : Chain} {n : String} {r s m : Resource}
  {rs found members : List Resource} {known : List String}

/-! ## Chains at rest -/

/-- **A chain is at rest about a resource** — the loader is that it comes from. -/
def IsAtRest (w : World) (c : Chain) (r : Resource) : Prop :=
  ∀ l ∈ c, l.name = r.loader → l.IsAtRest w r

/-- The loader of a resource keeps no stray copy of it. -/
def KeepsNoStray (w : World) (c : Chain) (r : Resource) : Prop :=
  ∀ l ∈ c, l.name = r.loader → l.KeepsNoStray w r

theorem IsAtRest.find (h : IsAtRest w c r) (hn : r.name ≠ n) : IsAtRest w (find w n c).2 r :=
  forall_find (fun l hl hname => (hl (by rwa [Loader.name, Loader.settings_eq_of_load] at hname)).congr
    (Loader.sameAt_load hn)) h

theorem IsAtRest.refresh (h : IsAtRest w c r) (hn : r.name ≠ s.name) :
    IsAtRest w (refresh w s c).2 r :=
  forall_refresh (fun l _ hl hname => (hl (by rwa [Loader.name, Loader.settings_refresh] at hname)).congr
    (Loader.sameAt_refresh hn)) h

theorem KeepsNoStray.refresh (h : KeepsNoStray w c r) (hn : r.name ≠ s.name) :
    KeepsNoStray w (Chain.refresh w s c).2 r :=
  forall_refresh (fun l _ hl hname => (hl (by rwa [Loader.name, Loader.settings_refresh] at hname)).congr
    (Loader.sameAt_refresh hn)) h

theorem IsAtRest.asks {ns : List String} (h : IsAtRest w c r) (hasks : Asks w ns c c')
    (hn : r.name ∉ ns) : IsAtRest w c' r :=
  hasks.keeps (P := fun c => IsAtRest w c r)
    (fun _ hin _ hc => hc.find fun heq => hn (heq ▸ hin)) h

/-- A chain is at rest about a resource of its first loader if that loader is. -/
theorem isAtRest_of_head {l : Loader} (hnodup : (names (l :: c)).Nodup) (hname : r.loader = l.name)
    (h : l.IsAtRest w r) : IsAtRest w (l :: c) r := by
  refine List.forall_mem_cons.2 ⟨fun _ => h, fun l' hl' hname' => ?_⟩
  have hin : l.name ∈ names c := by
    rw [← hname, ← hname']
    exact List.mem_map_of_mem hl'
  exact absurd hin (List.nodup_cons.1 hnodup).1

/-- A chain is at rest about a resource of another than its first loader if the others are. -/
theorem isAtRest_of_tail {l : Loader} (hname : l.name ≠ r.loader) (h : IsAtRest w c r) :
    IsAtRest w (l :: c) r :=
  List.forall_mem_cons.2 ⟨fun hname' => absurd hname' hname, h⟩

/-- **What a chain has found leaves it at rest.** -/
theorem isAtRest_of_find : ∀ {c : Chain}, c.IsSound → c.names.Nodup →
    answer w c n = .ok (some r) → IsAtRest w (Chain.find w n c).2 r ∧ r.loader ∈ c.names
  | [], _, _, h => by simp [answer, Chain.find] at h
  | l :: ls, hc, hnodup, h => by
    obtain ⟨hl, hls⟩ := List.forall_mem_cons.1 hc
    have hnames := names_find w n (l :: ls)
    obtain ⟨e, -, hf⟩ | ⟨s, hload, hf⟩ | ⟨-, hf⟩ := find_cases w n l ls <;> rw [answer, hf] at h <;>
      rw [hf] at hnames ⊢
    · cases h
    · obtain rfl : s = r := by simpa using h
      have hname : s.loader = l.name := (hl.eq_of_load hload).2
      refine ⟨isAtRest_of_head (by rwa [hnames]) ?_ (Loader.isAtRest_of_load hload hl), ?_⟩
      · rw [hname, Loader.name, Loader.name, Loader.settings_eq_of_load]
      · rw [hname]
        exact List.mem_cons_self
    · obtain ⟨hrest, hin⟩ := isAtRest_of_find hls (List.nodup_cons.1 hnodup).2 h
      refine ⟨isAtRest_of_tail (fun hname => ?_) hrest, List.mem_cons_of_mem _ hin⟩
      rw [Loader.name, Loader.settings_eq_of_load, ← Loader.name] at hname
      rw [← hname] at hin
      exact (List.nodup_cons.1 hnodup).1 hin

/-- **A look that does not fail leaves a chain at rest** about what it has come to. -/
theorem isAtRest_of_refresh {found : Option Resource} : ∀ {c : Chain}, c.IsSound → c.names.Nodup →
    KeepsNoStray w c r → (Chain.refresh w r c).1 = .ok found →
      IsAtRest w (Chain.refresh w r c).2 (found.getD r) ∧
        ∀ m, found = some m → m.name = r.name ∧ m.loader = r.loader
  | [], _, _, _, h => by
    obtain rfl := Except.ok.inj h
    refine ⟨fun l hl => ?_, fun m hm => ?_⟩
    · cases hl
    · cases hm
  | l :: ls, hc, hnodup, hstray, h => by
    obtain ⟨hl, hls⟩ := List.forall_mem_cons.1 hc
    obtain ⟨hstray, hstrays⟩ := List.forall_mem_cons.1 hstray
    have hnames := names_refresh w r (l :: ls)
    obtain ⟨hname, hf⟩ | ⟨hname, hf⟩ := refresh_cons w r l ls <;> rw [hf] at h hnames ⊢
    · have hrefresh : (l.refresh w r).1 = .ok found := by
        rcases hresult : (l.refresh w r).1 with e | a <;> rw [hresult] at h
        · cases h
        · exact congrArg _ (Except.ok.inj h)
      obtain ⟨hrest, hfound⟩ := Loader.isAtRest_of_refresh hl (hstray hname) hrefresh
      refine ⟨isAtRest_of_head (by rwa [hnames]) ?_ hrest, fun m hm => ?_⟩
      · rw [Loader.name, Loader.settings_refresh, ← Loader.name]
        cases found with
        | none => exact hname.symm
        | some m => exact (hfound m rfl).2
      · rw [← hname]
        exact hfound m hm
    · obtain ⟨hrest, hfound⟩ := isAtRest_of_refresh hls (List.nodup_cons.1 hnodup).2 hstrays h
      refine ⟨isAtRest_of_tail ?_ hrest, hfound⟩
      cases found with
      | none => exact hname
      | some m => rwa [show (some m).getD r = m from rfl, (hfound m rfl).2]

/-- **Looks that do not fail leave a chain at rest** about every later copy, and about the resources that
have none. -/
theorem isAtRest_of_refreshAll : ∀ {rs : List Resource} {c : Chain} {changed : List Resource},
    c.IsSound → c.names.Nodup → (rs.map Resource.name).Nodup → (∀ r ∈ rs, KeepsNoStray w c r) →
      (refreshAll w rs c).1 = .ok changed →
        (∀ m ∈ changed, IsAtRest w (refreshAll w rs c).2 m) ∧
        ∀ r ∈ rs, r.name ∉ changed.map Resource.name → IsAtRest w (refreshAll w rs c).2 r
  | [], c, changed, _, _, _, _, h => by
    obtain rfl := Except.ok.inj h
    simp
  | r :: rs, c, _, hc, hnodup, hrs, hstray, h => by
    obtain ⟨found, rest, hf, hg, rfl, hlast⟩ := refreshAll_cons_ok h
    rw [List.map_cons, List.nodup_cons] at hrs
    obtain ⟨hout, hrs⟩ := hrs
    obtain ⟨hr, hstrays⟩ := List.forall_mem_cons.1 hstray
    have hne : ∀ s ∈ rs, s.name ≠ r.name := fun s hs heq => hout (heq ▸ List.mem_map_of_mem hs)
    have hc' := hc.refresh w r
    obtain ⟨hchanged, hold⟩ := isAtRest_of_refreshAll hc' (by rwa [names_refresh]) hrs
      (fun s hs => (hstrays s hs).refresh (hne s hs)) hg
    obtain ⟨hfirst, hfound⟩ := isAtRest_of_refresh hc hnodup hr hf
    -- what the first look has come to is of another name than all that is looked at after it
    have hfirst : IsAtRest w (refreshAll w (r :: rs) c).2 (found.getD r) := by
      rw [hlast]
      refine keeps_refreshAll (P := fun c => IsAtRest w c (found.getD r))
        (fun s hs c hrest => hrest.refresh ?_) hfirst
      have hname : (found.getD r).name = r.name := by
        cases found with
        | none => rfl
        | some m => exact (hfound m rfl).1
      rw [hname]
      exact (hne s hs).symm
    refine ⟨fun m hm => ?_, fun s hs hno => ?_⟩
    · rcases List.mem_append.1 hm with hm | hm
      · obtain rfl := Option.mem_toList.1 hm
        exact hfirst
      · rw [hlast]
        exact hchanged m hm
    · rw [List.map_append, List.mem_append, not_or] at hno
      rcases List.mem_cons.1 hs with rfl | hs
      · cases found with
        | none => exact hfirst
        | some m => exact absurd (by simp [(hfound m rfl).1]) hno.1
      · rw [hlast]
        exact hold s hs hno.2

/-! ## Walks -/

theorem isAtRest_of_findFirst : ∀ {ns : List String} {c : Chain}, c.IsSound → c.names.Nodup →
    (findFirst w ns c).1 = .ok (some r) → IsAtRest w (findFirst w ns c).2 r
  | [], _, _, _, h => by cases h
  | n :: ns, c, hc, hnodup, h => by
    have hc' := hc.find w n
    have hnames := names_find w n c
    rw [findFirst] at h ⊢
    rcases hf : Chain.find w n c with ⟨(e | _ | s), c'⟩ <;> rw [hf] at h hc' hnames <;>
      dsimp only at h ⊢
    · cases h
    · exact isAtRest_of_findFirst hc' (by rwa [hnames]) h
    · obtain rfl : s = r := by simpa using h
      have hrest := (isAtRest_of_find hc hnodup (congrArg Prod.fst hf)).1
      rwa [hf] at hrest

theorem IsAtRest.follow (h : IsAtRest w c r) (hc : c.IsSound) (hn : r.name ∈ known)
    (refs : List Reference) : IsAtRest w (Chain.follow w known refs c).2 r := by
  obtain ⟨asked, hasks, hnew, -⟩ := asks_follow (w := w) hc refs known
  exact h.asks hasks fun hin => hnew _ hin hn

theorem names_follow (hc : c.IsSound) (w : World) (known : List String) (refs : List Reference) :
    (Chain.follow w known refs c).2.names = c.names := by
  obtain ⟨asked, hasks, -⟩ := asks_follow (w := w) hc refs known
  rw [names_eq, hasks.settings_eq, ← names_eq]

/-- **What is found for references leaves a chain at rest.** -/
theorem isAtRest_of_follow : ∀ {refs : List Reference} {known : List String} {c : Chain}
    {found : List Resource}, c.IsSound → c.names.Nodup → (Chain.follow w known refs c).1 = .ok found →
      ∀ m ∈ found, IsAtRest w (Chain.follow w known refs c).2 m
  | [], _, _, found, _, _, h => by
    obtain rfl := Except.ok.inj h
    simp
  | ref :: refs, known, c, found, hc, hnodup, h => by
    obtain ⟨asked, hasks, -, -⟩ := asks_findFirst (w := w) ref.candidates c
    have hsound : IsSound (findFirst w ref.candidates c).2 :=
      hasks.keeps (fun n _ c hc => hc.find w n) hc
    have hnames : (findFirst w ref.candidates c).2.names.Nodup := by
      rwa [names_eq, hasks.settings_eq, ← names_eq]
    have hfirst : ∀ r, (findFirst w ref.candidates c).1 = .ok (some r) →
        IsAtRest w (findFirst w ref.candidates c).2 r := fun _ => isAtRest_of_findFirst hc hnodup
    obtain ⟨-, hf⟩ | ⟨-, ⟨e, c', hc', hf⟩ | ⟨c', hc', -, hf⟩ | ⟨c', hc', -, hf⟩ | ⟨r, c', hc', hf⟩⟩ :=
      follow_cases w known ref refs c <;> rw [hf] at h ⊢
    · exact isAtRest_of_follow hc hnodup h
    · cases h
    · rw [hc'] at hsound hnames
      exact isAtRest_of_follow hsound hnames h
    · cases h
    · rw [hc'] at hsound hnames hfirst
      obtain ⟨others, hothers, rfl⟩ := map_eq_ok.1 h
      exact List.forall_mem_cons.2 ⟨(hfirst r rfl).follow hsound List.mem_cons_self refs,
        isAtRest_of_follow hsound hnames hothers⟩

/-- **A walk leaves a chain at rest** about all that it brings, if it is at rest about what it begins
with. -/
theorem Walks.isAtRest {waiting : List Resource} {a : Except Error (List Resource)}
    (h : Walks w known waiting c a c') (hc : c.IsSound) (hnodup : c.names.Nodup)
    (hwaiting : ∀ r ∈ waiting, IsAtRest w c r ∧ r.name ∈ known) :
    ∀ members, a = .ok members → ∀ m ∈ members, IsAtRest w c' m := by
  induction h with
  | nothing =>
    intro members h m hm
    obtain rfl := Except.ok.inj h
    cases hm
  | failed => exact fun _ h => by cases h
  | @onward known r waiting found c c' c'' a hf hwalk ih =>
    intro members h
    have hc' := hc.follow w known (Reference.ofText r.source)
    have hnames := names_follow hc w known (Reference.ofText r.source)
    have hfound : ∀ rs, (Chain.follow w known (Reference.ofText r.source) c).1 = .ok rs →
        ∀ m ∈ rs, IsAtRest w (Chain.follow w known (Reference.ofText r.source) c).2 m := fun _ =>
      isAtRest_of_follow hc hnodup
    have hkeep := fun s hs => ((hwaiting s hs).1).follow hc (hwaiting s hs).2
      (Reference.ofText r.source)
    rw [hf] at hc' hnames hfound hkeep
    obtain ⟨asked, hasks, hnew, -⟩ := hwalk.asks hc'
    have hnext : ∀ s ∈ waiting ++ found,
        IsAtRest w c' s ∧ s.name ∈ found.map Resource.name ++ known := by
      intro s hs
      rcases List.mem_append.1 hs with hs | hs
      · exact ⟨hkeep s (List.mem_cons_of_mem r hs),
          List.mem_append_right _ (hwaiting s (List.mem_cons_of_mem r hs)).2⟩
      · exact ⟨hfound found rfl s hs, List.mem_append_left _ (List.mem_map_of_mem hs)⟩
    obtain ⟨rest, rfl, rfl⟩ := map_eq_ok.1 h
    refine List.forall_mem_cons.2
      ⟨(hkeep r List.mem_cons_self).asks hasks fun hin => hnew _ hin ?_,
        ih hc' (by rwa [hnames]) hnext rest rfl⟩
    exact List.mem_append_right _ (hwaiting r List.mem_cons_self).2

/-- **A chain that has looked for later copies without failing is at rest** about all that it has brought,
and about the resources in whose place nothing has come. -/
theorem isAtRest_of_collectChanges (hc : c.IsSound) (hnodup : c.names.Nodup)
    (hrs : (rs.map Resource.name).Nodup) (hstray : ∀ r ∈ rs, KeepsNoStray w c r)
    (h : (c.collectChanges w rs).1 = .ok members) :
    (∀ m ∈ members, IsAtRest w (c.collectChanges w rs).2 m) ∧
      ∀ r ∈ rs, r.name ∉ members.map Resource.name → IsAtRest w (c.collectChanges w rs).2 r := by
  have hc' := hc.refreshAll w rs
  have hnames : (refreshAll w rs c).2.names = c.names := by
    rw [names_eq, settings_refreshAll, ← names_eq]
  have hlooks : ∀ changed, (refreshAll w rs c).1 = .ok changed →
      (∀ m ∈ changed, IsAtRest w (refreshAll w rs c).2 m) ∧
        ∀ r ∈ rs, r.name ∉ changed.map Resource.name → IsAtRest w (refreshAll w rs c).2 r :=
    fun _ => isAtRest_of_refreshAll hc hnodup hrs hstray
  have hnamed : ∀ changed, (refreshAll w rs c).1 = .ok changed →
      (changed.map Resource.name).Sublist (rs.map Resource.name) := fun _ => names_refreshAll hc
  rw [collectChanges_eq] at h ⊢
  rcases hf : refreshAll w rs c with ⟨(e | changed), c'⟩ <;> rw [hf] at h hc' hnames hlooks hnamed
  · cases h
  · obtain ⟨hchanged, hold⟩ := hlooks changed rfl
    have hwalk := walks_collectFrom hc' w (rs.map Resource.name) changed
    obtain ⟨asked, hasks, hnew, hok⟩ := hwalk.asks hc'
    obtain ⟨-, hsub, -⟩ := hok members h
    refine ⟨hwalk.isAtRest hc' (by rwa [hnames]) (fun m hm => ⟨hchanged m hm, ?_⟩) members h,
      fun r hr hno => ?_⟩
    · exact (hnamed changed rfl).subset (List.mem_map_of_mem hm)
    · have hrest := hold r hr fun hin => hno (List.map_subset _ hsub hin)
      exact hrest.asks hasks fun hin => hnew _ hin (List.mem_map_of_mem hr)

/-! ## Nothing to bring -/

/-- No look at a resource brings anything. -/
def BringsNothing (w : World) (c : Chain) (r : Resource) : Prop :=
  ∀ l ∈ c, l.name = r.loader → (l.refresh w r).1 = .ok none

theorem BringsNothing.refresh (h : BringsNothing w c r) (hn : r.name ≠ s.name) :
    BringsNothing w (Chain.refresh w s c).2 r :=
  forall_refresh (fun l _ hl hname => by
    rw [(Loader.sameAt_refresh hn).fst_refresh_eq]
    exact hl (by rwa [Loader.name, Loader.settings_refresh] at hname)) h

theorem BringsNothing.fst_refresh : ∀ {c : Chain}, BringsNothing w c r →
    (Chain.refresh w r c).1 = .ok none
  | [], _ => rfl
  | l :: ls, h => by
    obtain ⟨hl, hls⟩ := List.forall_mem_cons.1 h
    obtain ⟨hname, hf⟩ | ⟨-, hf⟩ := refresh_cons w r l ls <;> rw [hf]
    · rw [hl hname]
      rfl
    · exact BringsNothing.fst_refresh hls

theorem collectChanges_of_bringsNothing (hrs : (rs.map Resource.name).Nodup)
    (h : ∀ r ∈ rs, BringsNothing w c r) : (c.collectChanges w rs).1 = .ok [] := by
  have hlooks : (refreshAll w rs c).1 = .ok [] := by
    induction rs generalizing c with
    | nil => rfl
    | cons r rs ih =>
      rw [List.map_cons, List.nodup_cons] at hrs
      obtain ⟨hr, hothers⟩ := List.forall_mem_cons.1 h
      have hnone := ih (c := (Chain.refresh w r c).2) hrs.2 fun s hs => (hothers s hs).refresh
        fun heq => hrs.1 (heq ▸ List.mem_map_of_mem hs)
      have hfirst := hr.fst_refresh
      rw [refreshAll]
      rcases hf : Chain.refresh w r c with ⟨a, c'⟩
      rw [hf] at hfirst hnone
      obtain rfl : a = .ok none := hfirst
      rcases hg : refreshAll w rs c' with ⟨b, c''⟩
      rw [hg] at hnone
      obtain rfl : b = .ok [] := hnone
      simp [hg]
  rw [collectChanges]
  rcases hf : refreshAll w rs c with ⟨a, c'⟩
  rw [hf] at hlooks
  obtain rfl : a = .ok [] := hlooks
  rfl

/-- **Loaders that wait are left alone** — each is the loader it was, and one that waits between its looks
has the copies of its resources that it had, at whose files it is not time to look again. -/
def Waits (now : Instant) (rs : List Resource) (c c' : Chain) : Prop :=
  ∀ l' ∈ c', ∃ l ∈ c, l'.settings = l.settings ∧
    (l.settings.checkInterval.isTimed = true → ∀ r ∈ rs, l.name = r.loader →
      l'.copy? r.name = l.copy? r.name ∧ l'.isDue now r.name = false)

/-- **A chain at rest brings nothing** while no file changes and the loaders that wait are left alone. -/
theorem collectChanges_of_isAtRest (hrs : (rs.map Resource.name).Nodup)
    (hrest : ∀ r ∈ rs, IsAtRest w c r) (hmodified : ∀ r ∈ rs, w'.modified r.path = w.modified r.path)
    (hwaits : Waits w'.now rs c c') : (c'.collectChanges w' rs).1 = .ok [] := by
  refine collectChanges_of_bringsNothing hrs fun r hr l' hl' hname => ?_
  obtain ⟨l, hl, hsettings, hwait⟩ := hwaits l' hl'
  have hname' : l.name = r.loader := by
    rw [← hname, Loader.name, Loader.name, hsettings]
  exact (hrest r hr l hl hname').refresh_eq_none (hmodified r hr) hsettings fun htimed =>
    hwait htimed r hr hname'

end Chain

end QueryPress
