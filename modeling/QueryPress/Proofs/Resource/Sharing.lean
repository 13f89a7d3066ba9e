import QueryPress.Proofs.Resource.Holdings

/-!
# Proofs/Resource/Sharing — loaders that serve several templates

A chain backs a resource for one template while others ask it for names and look for later copies,
also under the same name — provided that copies which are looked at, and the resources of the others,
are settled: their files are where the loader looks for the name now.  Otherwise a look on behalf of
another template may put a copy of another file in the place of the one that is backed.
-/

namespace QueryPress

/-- **Settled, where copies are looked at** — a resource of a loader that keeps copies and looks at
their files is settled. -/
def settledTrait (w : World) : Trait := fun settings r =>
  settings.checkInterval = .always → settings.cache = true → Loader.IsSettled w { settings } r

variable {w w' : World}

theorem settledTrait_isRegular (w : World) : (settledTrait w).IsRegular w where
  found hloc hread _ _ := (Loader.isSettled_of_read hloc hread).congr rfl
  reread {l s r} hs hread hi hc := by
    have hloc := (hs hi hc).located
    have hset := Loader.isSettled_of_read (l := l) (by rw [← hloc]; rfl) hread
    exact hset.congr rfl

theorem settledTrait_ages (ha : w.Ages w') {settings : LoaderSettings} {r : Resource}
    (h : settledTrait w settings r) : settledTrait w' settings r :=
  fun hi hc => (h hi hc).ages ha

namespace Loader

variable {l : Loader} {n : String} {r s fresh : Resource}

theorem IsSettled.of_trait (h : settledTrait w l.settings r)
    (hi : l.settings.checkInterval = .always) (hc : l.settings.cache = true) : l.IsSettled w r :=
  (h hi hc).congr rfl

theorem Backs.claim (h : l.Backs w r) (now : Instant) (m : String) :
    (l.claim now m).2.Backs w r := by
  unfold Loader.claim
  split
  · exact h.noteCheck now m
  · exact h

/-- What is read of the file of a backed resource, be it later or not, takes nothing away. -/
theorem Backs.remember (h : l.Backs w r) (hi : l.settings.checkInterval = .always)
    (hname : fresh.name = r.name)
    (hnew : l.settings.cache = true → fresh = r ∨ Supersedes w fresh r) :
    (l.remember w.now fresh).Backs w r where
  loader := by rw [h.loader, Loader.name, Loader.name, settings_remember]
  kept hn := by
    rw [settings_remember, hi] at hn
    cases hn
  looked _ hc := by
    rw [settings_remember] at hc
    refine ⟨(h.looked hi hc).1, fresh, ?_, hnew hc⟩
    rw [get?_copies_remember, if_pos ⟨hc, hname.symm⟩]
  found _ hc := by
    rw [settings_remember] at hc
    exact (h.found hi hc).congr (settings_remember l w.now fresh)

/-- A backed resource is where its loader looks for it, if the copies are settled. -/
theorem Backs.located (hs : l.IsSound) (hk : l.Keeps (settledTrait w)) (h : l.Backs w r)
    (hi : l.settings.checkInterval = .always) : l.locate? w r.name = some r.path := by
  cases hc : l.settings.cache with
  | false => exact (h.found hi hc).located
  | true =>
    obtain ⟨-, y, hy, hor⟩ := h.looked hi hc
    have hsettled := IsSettled.of_trait (hk _ _ hy) hi hc
    have hname := hs.name_eq hy
    rcases hor with rfl | hsup
    · exact hsettled.located
    · rw [← hname, hsettled.located, hsup.path]

/-- A copy that is not handed out has been superseded, and so has what it stands for. -/
theorem Backs.later_of_kept (hk : l.Keeps (settledTrait w)) (h : l.Backs w r)
    (hi : l.settings.checkInterval = .always) (hc : l.settings.cache = true)
    (hno : l.kept? w r.name = none) :
    ∃ t, w.modified r.path = .ok t ∧ isLater (some t) r.modified = true := by
  obtain ⟨-, y, hy, hor⟩ := h.looked hi hc
  obtain ⟨bytes, t, m, hentry, -⟩ := (IsSettled.of_trait (hk _ _ hy) hi hc).timed
  have hmod := World.modified_of_entry hentry
  have hlater : isLater (some t) y.modified = true := by
    simpa [kept?, copy?, hc, hy, Option.filter, isDue_of_always hi, isCurrent, hmod] using hno
  rcases hor with rfl | hsup
  · exact ⟨t, hmod, hlater⟩
  · exact ⟨t, by rwa [← hsup.path], isLater_trans hlater hsup.later⟩

/-- **A resource stays backed where its name is asked for**, if the copies are settled. -/
theorem Backs.load_settled (hp : l.IsPrompt) (hs : l.IsSound) (hk : l.Keeps (settledTrait w))
    (h : l.Backs w r) : (l.load w r.name).2.Backs w r := by
  rcases hp with hi | ⟨hi, hc⟩
  · obtain ⟨copy, -, -, hload⟩ | ⟨hno, l₁, hl₁, hload⟩ := load_cases w l r.name <;> rw [hload]
    · exact h.claim w.now r.name
    · have hset : l₁.settings = l.settings := by rcases hl₁ with rfl | rfl <;> rfl
      have h₁ : l₁.Backs w r := by
        rcases hl₁ with rfl | rfl
        · exact h
        · exact h.noteCheck w.now r.name
      have hlocated : l₁.locate? w r.name = some r.path := by
        rw [← h.located hs hk hi, locate?, locate?, hset]
      obtain ⟨hloc, hs⟩ | ⟨path, e, -, -, hs⟩ | ⟨path, fresh, hloc, hread, hs⟩ :=
        search_cases w l₁ r.name <;> rw [hs]
      · rw [hlocated] at hloc
        cases hloc
      · exact h₁
      · obtain rfl : r.path = path := by simpa [hlocated] using hloc
        refine h₁.remember (by rw [hset, hi]) (by rw [(read_eq_ok hread).2]) fun hc => .inr ?_
        rw [hset] at hc
        obtain ⟨t, ht, hlater⟩ := h.later_of_kept hk hi hc hno
        exact supersedes_of_read ht hlater hread
  · obtain ⟨hcopy, hcheck⟩ := h.kept hi
    rwa [load_of_kept hi hc hcopy hcheck]

/-- **A resource stays backed through a look for a later copy of another resource of its name**, if
both are settled. -/
theorem Backs.refresh_settled (hp : l.IsPrompt) (h : l.Backs w r) (hr : settledTrait w l.settings r)
    (hs : s.IsGiven ∨ settledTrait w l.settings s) (hname : s.name = r.name) :
    (l.refresh w s).2.Backs w r := by
  obtain ⟨-, hf⟩ | ⟨hi, ⟨hf, -⟩ | ⟨e, hf⟩ | ⟨fresh, t, ht, hlater, hread, hf⟩⟩ :=
    look_cases hp w s <;> rw [hf]
  · exact h
  · exact h.noteCheck w.now s.name
  · exact h.noteCheck w.now s.name
  · refine (h.noteCheck w.now s.name).remember hi
      (by rw [(read_eq_ok hread).2, hname]) fun hc => ?_
    rcases hs with hs | hs
    · cases (hs.modified w).symm.trans ht
    · have hsettled := IsSettled.of_trait hr hi hc
      have hpath : s.path = r.path := by
        have hloc := (IsSettled.of_trait hs hi hc).located
        rw [hname, hsettled.located] at hloc
        simpa using hloc.symm
      rw [hname, hpath] at hread
      rw [hpath] at ht
      cases hcase : isLater (some t) r.modified with
      | false =>
        have hsame := hsettled.read_eq h.loader fun t' ht' => by
          obtain rfl : t = t' := by simpa [ht] using ht'
          exact hcase
        exact .inl (Except.ok.inj (hread.symm.trans hsame))
      | true => exact .inr (supersedes_of_read ht hcase hread)

/-- Nothing comes back by a look for a later copy, if what is looked at is settled. -/
theorem Lacks.refresh_settled (hp : l.IsPrompt) (h : l.Lacks w n)
    (hs : s.IsGiven ∨ settledTrait w l.settings s) : (l.refresh w s).2.Lacks w n := by
  by_cases hname : n = s.name
  · subst hname
    obtain ⟨-, hf⟩ | ⟨hi, ⟨hf, -⟩ | ⟨e, hf⟩ | ⟨fresh, t, ht, hlater, hread, hf⟩⟩ :=
      look_cases hp w s <;> rw [hf]
    · exact h
    · exact h.noteCheck w.now s.name
    · exact h.noteCheck w.now s.name
    · cases hc : l.settings.cache with
      | false =>
        have hset : (l.noteCheck w.now s.name).settings.cache = false := hc
        rw [remember_of_not_cache w.now hset]
        exact (h.noteCheck w.now s.name).noteCheck w.now fresh.name
      | true =>
        rcases hs with hs | hs
        · cases (hs.modified w).symm.trans ht
        · have hloc := (IsSettled.of_trait hs hi hc).located
          rw [h.locate] at hloc
          cases hloc
  · exact h.congr (sameAt_refresh hname)

end Loader

namespace Chain

variable {c c' : Chain} {n : String} {r s : Resource} {rs : List Resource}

/-- **A chain is calm** about some resources — the copies that are looked at are settled, and so are
the resources. -/
structure IsCalm (w : World) (c : Chain) (rs : List Resource) : Prop where
  copies : Keeps (settledTrait w) c
  resources : ∀ s ∈ rs, s.IsGiven ∨ Has (settledTrait w) c s

theorem IsCalm.find (h : IsCalm w c rs) (n : String) : IsCalm w (find w n c).2 rs where
  copies := h.copies.find (settledTrait_isRegular w) n
  resources s hs := (h.resources s hs).imp id (·.congr (settings_find w n c))

theorem IsCalm.refresh (h : IsCalm w c rs) (hc : c.IsOrderly) (hs : s ∈ rs) :
    IsCalm w (refresh w s c).2 rs where
  copies := (h.copies.refresh (settledTrait_isRegular w) hc.sound fun _ hl hname =>
    (h.resources s hs).imp id (·.of_mem hc.nodup hl hname)).1
  resources s' hs' := (h.resources s' hs').imp id (·.congr (settings_refresh w s c))

/-- **A chain whose copies are settled goes on backing a resource**, whatever it is asked for. -/
theorem Backs.find_settled (hc : c.IsOrderly) (hk : Keeps (settledTrait w) c) (h : Backs w c r)
    (n : String) : Backs w (Chain.find w n c).2 r := by
  by_cases hn : r.name = n
  · subst hn
    induction h with
    | @here l ls r hl =>
      obtain ⟨hprompt, hsound, -, -⟩ := hc.of_cons
      have hl' := hl.load_settled hprompt hsound (hk l List.mem_cons_self)
      rcases snd_find_cons w r.name l ls with hf | hf <;> rw [hf]
      · exact .here hl'
      · exact .here hl'
    | @further l ls r hl hls ih =>
      obtain ⟨-, -, -, hcs⟩ := hc.of_cons
      rcases snd_find_cons w r.name l ls with hf | hf <;> rw [hf]
      · exact .further (hl.load r.name) hls
      · exact .further (hl.load r.name) (ih hcs fun k hk' => hk k (List.mem_cons_of_mem l hk'))
  · exact h.find hn

/-- **A calm chain goes on backing a resource** through a look for a later copy of any other. -/
theorem Backs.refresh_settled (hc : c.IsOrderly) (h : Backs w c r)
    (hr : ∀ l ∈ c, r.loader = l.name → settledTrait w l.settings r)
    (hs : ∀ l ∈ c, s.loader = l.name → s.IsGiven ∨ settledTrait w l.settings s) :
    Backs w (Chain.refresh w s c).2 r := by
  by_cases hn : s.name = r.name
  · induction h with
    | @here l ls r hl =>
      obtain ⟨hprompt, -, -, -⟩ := hc.of_cons
      obtain ⟨hname, hf⟩ | ⟨-, hf⟩ := refresh_cons w s l ls <;> rw [hf]
      · exact .here (hl.refresh_settled hprompt (hr l List.mem_cons_self hl.loader)
          (hs l List.mem_cons_self hname.symm) hn)
      · exact .here hl
    | @further l ls r hl hls ih =>
      obtain ⟨hprompt, -, -, hcs⟩ := hc.of_cons
      obtain ⟨hname, hf⟩ | ⟨-, hf⟩ := refresh_cons w s l ls <;> rw [hf]
      · exact .further (hl.refresh_settled hprompt (hs l List.mem_cons_self hname.symm)) hls
      · exact .further hl (ih hcs (fun k hk => hr k (List.mem_cons_of_mem l hk))
          (fun k hk => hs k (List.mem_cons_of_mem l hk)) hn)
  · exact h.refresh_of_ne (Ne.symm hn)

theorem Lacks.refresh_settled (hc : c.IsOrderly) (h : Lacks w c n)
    (hs : ∀ l ∈ c, s.loader = l.name → s.IsGiven ∨ settledTrait w l.settings s) :
    Lacks w (Chain.refresh w s c).2 n := by
  have hkeep := forall_refresh (w := w) (r := s)
    (P := fun l => l.IsPrompt ∧ (s.loader = l.name → s.IsGiven ∨ settledTrait w l.settings s) ∧
      l.Lacks w n) (fun l hname hl => ?_) fun l hl => ⟨hc.prompt l hl, hs l hl, h l hl⟩
  · exact fun l hl => (hkeep l hl).2.2
  · obtain ⟨hprompt, hs, hlacks⟩ := hl
    have hset := Loader.settings_refresh w l s
    refine ⟨hprompt.congr hset, ?_, hlacks.refresh_settled hprompt (hs hname.symm)⟩
    rwa [Loader.name, hset]

/-- **What a calm chain backs and lacks for one template it backs and lacks after it has looked for
later copies for another.** -/
theorem IsCalm.collectChanges (hc : c.IsOrderly) (h : IsCalm w c rs) :
    (∀ r, Has (settledTrait w) c r → Backs w c r → Backs w (c.collectChanges w rs).2 r) ∧
    ∀ n, Lacks w c n → Lacks w (c.collectChanges w rs).2 n := by
  -- every look and every question keeps the chain in order, calm, and backing and lacking
  have hlook : ∀ P : Chain → Prop,
      (∀ s ∈ rs, ∀ c, (c.IsOrderly ∧ IsCalm w c rs) ∧ P c → P (Chain.refresh w s c).2) →
      (∀ n c, (c.IsOrderly ∧ IsCalm w c rs) ∧ P c → P (Chain.find w n c).2) → P c →
        P (c.collectChanges w rs).2 := by
    intro P hrefresh hfind hP
    have hall := keeps_refreshAll (w := w)
      (P := fun c => (c.IsOrderly ∧ IsCalm w c rs) ∧ P c)
      (fun s hs c hall => ⟨⟨hall.1.1.refresh w s, hall.1.2.refresh hall.1.1 hs⟩,
        hrefresh s hs c hall⟩) ⟨⟨hc, h⟩, hP⟩
    obtain hs | ⟨changed, hs⟩ := snd_collectChanges w rs c <;> rw [hs]
    · exact hall.2
    · obtain ⟨asked, hasks, -⟩ := asks_collectFrom hall.1.1.sound w (rs.map Resource.name) changed
      exact (hasks.keeps (P := fun c => (c.IsOrderly ∧ IsCalm w c rs) ∧ P c)
        (fun n _ c hall => ⟨⟨hall.1.1.find w n, hall.1.2.find n⟩, hfind n c hall⟩) hall).2
  refine ⟨fun r hr hback => ?_, fun n hlacks => ?_⟩
  · have hkeep := hlook (fun c => Has (settledTrait w) c r ∧ Backs w c r)
      (fun s hs c ⟨⟨hc, hcalm⟩, hr, hback⟩ => ⟨hr.congr (settings_refresh w s c),
        hback.refresh_settled hc (fun l hl hname => hr.of_mem hc.nodup hl hname) fun l hl hname =>
          (hcalm.resources s hs).imp id (·.of_mem hc.nodup hl hname)⟩)
      (fun n c ⟨⟨hc, hcalm⟩, hr, hback⟩ => ⟨hr.congr (settings_find w n c),
        hback.find_settled hc hcalm.copies n⟩) ⟨hr, hback⟩
    exact hkeep.2
  · exact hlook (fun c => Lacks w c n)
      (fun s hs c ⟨⟨hc, hcalm⟩, hlacks⟩ => hlacks.refresh_settled hc fun l hl hname =>
        (hcalm.resources s hs).imp id (·.of_mem hc.nodup hl hname))
      (fun m c ⟨_, hlacks⟩ => hlacks.find m) hlacks

end Chain

end QueryPress
