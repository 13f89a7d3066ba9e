import QueryPress.Proofs.Resource.Closure
import QueryPress.Proofs.Resource.Serving

/-!
# Proofs/Resource/Renewing — what a look for later copies comes to

Resources of different names, each backed by the chain or still, are looked at one after the other and
then what the later copies refer to is collected.  Whatever comes of it, the chain goes on backing the
resources and lacking what it lacks.  Where nothing fails it *serves* all that there is afterwards: the
later copies, what was collected for them, and the resources that have no later copy
(`renews_of_collectChanges`).
-/

namespace QueryPress

/-- A resource that was given in memory; no file is behind it. -/
def Resource.IsGiven (r : Resource) : Prop := r.path = ""

/-- Among resources of different names, the name tells which it is. -/
theorem Resource.eq_of_name {r s : Resource} : ∀ {rs : List Resource},
    (rs.map Resource.name).Nodup → r ∈ rs → s ∈ rs → r.name = s.name → r = s
  | t :: rs, hnodup, hr, hs, hname => by
    rw [List.map_cons, List.nodup_cons] at hnodup
    obtain ⟨hout, hnodup⟩ := hnodup
    rcases List.mem_cons.1 hr with rfl | hr' <;> rcases List.mem_cons.1 hs with rfl | hs'
    · rfl
    · exact absurd (hname ▸ List.mem_map_of_mem hs') hout
    · exact absurd (hname ▸ List.mem_map_of_mem hr') hout
    · exact Resource.eq_of_name hnodup hr' hs' hname

theorem World.modified_empty (w : World) : w.modified "" = .error .notFound := by
  simp [World.modified, World.entry, World.place, bind, Except.bind]

/-- A text in memory is no file's. -/
theorem Resource.IsGiven.modified {r : Resource} (h : r.IsGiven) (w : World) :
    w.modified r.path = .error .notFound := by
  rw [Resource.IsGiven] at h
  rw [h, World.modified_empty]

/-- A resource of a loader that does not look again stays as it is. -/
theorem Loader.fst_refresh_of_never {w : World} {l : Loader} {r : Resource}
    (h : l.settings.checkInterval = .never) : (l.refresh w r).1 = .ok none := by
  simp [Loader.refresh, h]

theorem Loader.fst_refresh_of_isGiven {w : World} {l : Loader} {r : Resource} (hp : l.IsPrompt)
    (h : r.IsGiven) : (l.refresh w r).1 = .ok none := by
  rcases hp with hi | ⟨hi, -⟩
  · simp [Loader.refresh, hi, Loader.claim, Loader.isDue_of_always hi, Loader.reread, h.modified]
  · exact Loader.fst_refresh_of_never hi

namespace Chain

open Answers

variable {w : World} {c c' : Chain} {n : String} {r s : Resource} {rs changed members : List Resource}

/-! ## One resource -/

/-- **A chain serves a resource** — it backs it and has it under its name. -/
def Serves (w : World) (c : Chain) (r : Resource) : Prop :=
  Backs w c r ∧ answer w c r.name = .ok (some r)

theorem Backs.refresh_of_ne (h : Backs w c r) (hn : r.name ≠ s.name) :
    Backs w (refresh w s c).2 r := by
  induction h with
  | @here l ls r hl =>
    obtain ⟨-, hf⟩ | ⟨-, hf⟩ := refresh_cons w s l ls <;> rw [hf]
    · exact .here (hl.congr (Loader.sameAt_refresh hn))
    · exact .here hl
  | @further l ls r hl hls ih =>
    obtain ⟨-, hf⟩ | ⟨-, hf⟩ := refresh_cons w s l ls <;> rw [hf]
    · exact .further (hl.congr (Loader.sameAt_refresh hn)) hls
    · exact .further hl (ih hn)

theorem Lacks.refresh_of_ne (h : Lacks w c n) (hn : n ≠ s.name) : Lacks w (refresh w s c).2 n :=
  forall_refresh (fun _ _ hl => hl.congr (Loader.sameAt_refresh hn)) h

/-- **A resource is still** — it was given in memory, or its loader does not look at files again. -/
def IsStill (c : Chain) (r : Resource) : Prop :=
  r.IsGiven ∨ ∀ settings ∈ c.map Loader.settings, settings.name = r.loader →
    settings.checkInterval = .never

theorem IsStill.congr (h : IsStill c r) (hs : c'.map Loader.settings = c.map Loader.settings) :
    IsStill c' r := by
  rwa [IsStill, hs]

theorem fst_refresh_of_isStill : ∀ {c : Chain}, c.IsOrderly → IsStill c r →
    (refresh w r c).1 = .ok none
  | [], _, _ => rfl
  | l :: ls, hc, hstill => by
    obtain ⟨hprompt, -, -, hls⟩ := hc.of_cons
    obtain ⟨hname, hf⟩ | ⟨-, hf⟩ := refresh_cons w r l ls <;> rw [hf]
    · have hnone : (l.refresh w r).1 = .ok none := by
        rcases hstill with hgiven | hnever
        · exact Loader.fst_refresh_of_isGiven hprompt hgiven
        · exact Loader.fst_refresh_of_never (hnever l.settings List.mem_cons_self hname)
      rw [hnone]
      rfl
    · exact fst_refresh_of_isStill hls
        (hstill.imp id fun hnever settings hs => hnever settings (List.mem_cons_of_mem _ hs))

/-- **A look for a later copy of a backed resource** leaves it backed, and if it does not fail, the
chain serves what it has come to. -/
theorem Backs.refresh (hc : c.IsOrderly) (h : Backs w c r) :
    Backs w (refresh w r c).2 r ∧ ∀ found, (refresh w r c).1 = .ok found →
      (found.getD r).name = r.name ∧ Serves w (refresh w r c).2 (found.getD r) := by
  induction h with
  | @here l ls r hl =>
    obtain ⟨hprompt, -, -, -⟩ := hc.of_cons
    obtain ⟨-, hf⟩ | ⟨hne, -⟩ := refresh_cons w r l ls
    · rw [hf]
      refine ⟨.here (hl.refresh hprompt), fun found hfound => ?_⟩
      obtain ⟨hname, hback, hload⟩ := Loader.load_refresh hprompt hl (mapError_eq_ok.1 hfound)
      refine ⟨hname, .here hback, ?_⟩
      rw [hname, answer_cons, hload]
    · exact absurd hl.loader.symm hne
  | @further l ls r hl hls ih =>
    obtain ⟨-, -, hout, htail⟩ := hc.of_cons
    obtain ⟨heq, -⟩ | ⟨-, hf⟩ := refresh_cons w r l ls
    · rw [heq] at hout
      exact absurd hls.loader_mem hout
    · rw [hf]
      obtain ⟨hback, hok⟩ := ih htail
      refine ⟨.further hl hback, fun found hfound => ?_⟩
      obtain ⟨hname, hback', hans⟩ := hok found hfound
      refine ⟨hname, .further (by rwa [hname]) hback', ?_⟩
      rw [hname] at hans ⊢
      rw [answer_cons, hl.fst_load]
      exact hans

/-! ## Resources of different names -/

/-- What every look keeps is kept. -/
theorem keeps_refreshAll {P : Chain → Prop} : ∀ {rs : List Resource} {c : Chain},
    (∀ s ∈ rs, ∀ c, P c → P (refresh w s c).2) → P c → P (refreshAll w rs c).2
  | [], _, _, hc => hc
  | r :: rs, c, h, hc => by
    obtain ⟨hr, hrs⟩ := List.forall_mem_cons.1 h
    have hfirst := hr c hc
    rw [refreshAll]
    rcases hf : Chain.refresh w r c with ⟨(e | found), c'⟩ <;> rw [hf] at hfirst
    · exact hfirst
    · have hrest := keeps_refreshAll hrs hfirst
      rcases hg : refreshAll w rs c' with ⟨(e | changed), c''⟩ <;> rw [hg] at hrest <;>
        simpa [hg] using hrest

theorem settings_refreshAll (w : World) (rs : List Resource) (c : Chain) :
    (refreshAll w rs c).2.map Loader.settings = c.map Loader.settings :=
  keeps_refreshAll (P := fun c' => c'.map Loader.settings = c.map Loader.settings)
    (fun s _ c' hc' => (settings_refresh w s c').trans hc') rfl

theorem IsOrderly.refreshAll (h : c.IsOrderly) (w : World) (rs : List Resource) :
    (refreshAll w rs c).2.IsOrderly :=
  keeps_refreshAll (fun s _ _ hc => hc.refresh w s) h

theorem Lacks.refreshAll (h : Lacks w c n) (hn : n ∉ rs.map Resource.name) :
    Lacks w (refreshAll w rs c).2 n := by
  refine keeps_refreshAll (P := fun c => Lacks w c n) (fun s hs _ hc => hc.refresh_of_ne ?_) h
  rintro rfl
  exact hn (List.mem_map_of_mem hs)

theorem answer_refreshAll (hn : n ∉ rs.map Resource.name) :
    answer w (refreshAll w rs c).2 n = answer w c n := by
  refine keeps_refreshAll (P := fun c' => answer w c' n = answer w c n) (fun s hs c' hc' => ?_) rfl
  rw [answer_refresh, hc']
  rintro rfl
  exact hn (List.mem_map_of_mem hs)

/-- **Looks for later copies leave a resource backed** that is one of them, or of another name. -/
theorem Backs.refreshAll (hc : c.IsOrderly) (h : Backs w c r)
    (hn : ∀ s ∈ rs, s = r ∨ s.name ≠ r.name) : Backs w (refreshAll w rs c).2 r := by
  have hkeep : (Chain.refreshAll w rs c).2.IsOrderly ∧
      Backs w (Chain.refreshAll w rs c).2 r := by
    refine keeps_refreshAll (P := fun c => c.IsOrderly ∧ Backs w c r) ?_ ⟨hc, h⟩
    rintro s hs c ⟨hc, hback⟩
    refine ⟨hc.refresh w s, ?_⟩
    rcases hn s hs with rfl | hne
    · exact (hback.refresh hc).1
    · exact hback.refresh_of_ne hne.symm
  exact hkeep.2

/-- What is served stays so while resources of other names are looked at. -/
theorem Serves.refreshAll (hc : c.IsOrderly) (h : Serves w c r) (hn : r.name ∉ rs.map Resource.name) :
    Serves w (refreshAll w rs c).2 r where
  left := h.1.refreshAll hc fun _ hs => .inr fun heq => hn (heq ▸ List.mem_map_of_mem hs)
  right := by
    rw [answer_refreshAll hn]
    exact h.2

theorem refreshAll_cons_ok {all : List Resource}
    (h : (refreshAll w (r :: rs) c).1 = .ok all) :
    ∃ found rest, (refresh w r c).1 = .ok found ∧
      (refreshAll w rs (refresh w r c).2).1 = .ok rest ∧ all = found.toList ++ rest ∧
      (refreshAll w (r :: rs) c).2 = (refreshAll w rs (refresh w r c).2).2 := by
  rw [Chain.refreshAll] at h ⊢
  rcases hf : Chain.refresh w r c with ⟨(e | found), c'⟩ <;> simp only [hf] at h ⊢
  · cases h
  · rcases hg : Chain.refreshAll w rs c' with ⟨(e | rest), c''⟩ <;> simp only [hg] at h ⊢
    · cases h
    · exact ⟨found, rest, rfl, rfl, (Except.ok.inj h).symm, trivial⟩

/-- **Where no look fails, the chain serves what the looks have come to** — each later copy in place
of the resource of its name, and the resources that have none. -/
theorem refreshAll_serves : ∀ {rs : List Resource} {c : Chain} {changed : List Resource},
    c.IsOrderly → (rs.map Resource.name).Nodup → (∀ r ∈ rs, IsStill c r ∨ Backs w c r) →
    (refreshAll w rs c).1 = .ok changed →
      (changed.map Resource.name).Sublist (rs.map Resource.name) ∧
      (∀ m ∈ changed, Serves w (refreshAll w rs c).2 m) ∧
      ∀ r ∈ rs, (IsStill c r → r.name ∉ changed.map Resource.name) ∧
        (r.name ∉ changed.map Resource.name → Backs w c r → Serves w (refreshAll w rs c).2 r)
  | [], c, changed, _, _, _, h => by
    obtain rfl : [] = changed := by simpa [refreshAll] using h
    simp
  | r :: rs, c, changed, hc, hnodup, hback, h => by
    obtain ⟨found, rest, hf, hg, rfl, hlast⟩ := refreshAll_cons_ok h
    rw [List.map_cons, List.nodup_cons] at hnodup
    obtain ⟨hout, hnodup⟩ := hnodup
    obtain ⟨hr, hrs⟩ := List.forall_mem_cons.1 hback
    have hne : ∀ s ∈ rs, s.name ≠ r.name := fun s hs heq => hout (heq ▸ List.mem_map_of_mem hs)
    have hc' := hc.refresh w r
    have hset := settings_refresh w r c
    obtain ⟨hsub, hchanged, hold⟩ := refreshAll_serves hc' hnodup
      (fun s hs => (hrs s hs).imp (·.congr hset) (·.refresh_of_ne (hne s hs))) hg
    -- what the first look has come to is of another name than all that is looked at after it
    have hlater : ∀ m : Resource, m.name = r.name → Serves w (Chain.refresh w r c).2 m →
        Serves w (Chain.refreshAll w (r :: rs) c).2 m := by
      intro m hm hserves
      rw [hlast]
      exact hserves.refreshAll hc' (by rwa [hm])
    have hrest : r.name ∉ rest.map Resource.name := fun hin => hout (hsub.subset hin)
    have hold' : ∀ s ∈ rs, s.name ∉ rest.map Resource.name → Backs w c s →
        Serves w (Chain.refreshAll w (r :: rs) c).2 s := fun s hs hno hb => by
      rw [hlast]
      exact (hold s hs).2 hno (hb.refresh_of_ne (hne s hs))
    rw [hlast] at *
    cases found with
    | none =>
      exact ⟨hsub.cons _, hchanged, List.forall_mem_cons.2 ⟨⟨fun _ => hrest, fun _ hb =>
        hlater r rfl ((hb.refresh hc).2 none hf).2⟩,
        fun s hs => ⟨fun hstill => (hold s hs).1 (hstill.congr hset), hold' s hs⟩⟩⟩
    | some m =>
      have hnot : ¬ IsStill c r := fun hstill => by
        rw [fst_refresh_of_isStill hc hstill] at hf
        cases hf
      obtain ⟨hname, hserves⟩ := ((hr.resolve_left hnot).refresh hc).2 (some m) hf
      have hname : m.name = r.name := hname
      refine ⟨?_, List.forall_mem_cons.2 ⟨hlater m hname hserves, hchanged⟩, ?_⟩
      · rw [Option.toList, List.singleton_append, List.map_cons, List.map_cons, hname]
        exact hsub.cons_cons _
      · refine List.forall_mem_cons.2 ⟨⟨fun hstill => absurd hstill hnot, fun hno => ?_⟩,
          fun s hs => ⟨fun hstill hin => ?_, fun hno => ?_⟩⟩
        · simp [hname] at hno
        · have hin : s.name = m.name ∨ s.name ∈ rest.map Resource.name := by simpa using hin
          rcases hin with heq | hin
          · exact hne s hs (heq.trans hname)
          · exact (hold s hs).1 (hstill.congr hset) hin
        · exact hold' s hs fun hin => hno (by simp at hin ⊢; exact .inr hin)

theorem name_of_refresh : ∀ {c : Chain}, c.IsSound → (refresh w r c).1 = .ok (some m) →
    m.name = r.name
  | [], _, h => by simp [Chain.refresh] at h
  | l :: ls, hc, h => by
    obtain ⟨hl, hls⟩ := List.forall_mem_cons.1 hc
    obtain ⟨-, hf⟩ | ⟨-, hf⟩ := refresh_cons w r l ls <;> rw [hf] at h
    · exact hl.name_of_refresh (mapError_eq_ok.1 h)
    · exact name_of_refresh hls h

theorem IsSound.refresh (hc : c.IsSound) (w : World) (r : Resource) :
    (Chain.refresh w r c).2.IsSound :=
  forall_refresh (fun _ _ hl => hl.refresh w r) hc

theorem IsSound.refreshAll (hc : c.IsSound) (w : World) (rs : List Resource) :
    (refreshAll w rs c).2.IsSound :=
  keeps_refreshAll (fun s _ _ hc => hc.refresh w s) hc

/-- Later copies bear names of what was looked at, each once. -/
theorem names_refreshAll : ∀ {rs : List Resource} {c : Chain} {changed : List Resource},
    c.IsSound → (refreshAll w rs c).1 = .ok changed →
      (changed.map Resource.name).Sublist (rs.map Resource.name)
  | [], _, _, _, h => by
    obtain rfl := Except.ok.inj h
    exact List.Sublist.refl _
  | r :: rs, c, _, hc, h => by
    obtain ⟨found, rest, hf, hg, rfl, -⟩ := refreshAll_cons_ok h
    have hsub := names_refreshAll (hc.refresh w r) hg
    cases found with
    | none => exact hsub.cons _
    | some m => simpa [name_of_refresh hc hf] using hsub.cons_cons r.name

/-! ## What the later copies refer to -/

/-- To collect is to ask for names that are not known. -/
theorem asks_collectFrom (hc : c.IsSound) (w : World) (known : List String)
    (start : List Resource) :
    ∃ asked, Asks w asked c (c.collectFrom w known start).2 ∧ (∀ n ∈ asked, n ∉ known) := by
  obtain ⟨asked, hasks, hnew, -⟩ := (walks_collectFrom hc w known start).asks hc
  exact ⟨asked, hasks, hnew⟩

/-- To look for later copies is to look at all resources and then to collect what the later copies
refer to. -/
theorem collectChanges_eq (w : World) (rs : List Resource) (c : Chain) :
    c.collectChanges w rs = match refreshAll w rs c with
      | (.error e, c) => (.error e, c)
      | (.ok changed, c) => c.collectFrom w (rs.map Resource.name) changed := by
  rw [collectChanges]
  rcases refreshAll w rs c with ⟨(e | (_ | ⟨m, changed⟩)), c'⟩
  · rfl
  · have hnone : ∀ n known, collectTo w n known [] c' = (.ok [], c') := by
      rintro (_ | n) known <;> rfl
    exact (hnone _ _).symm
  · rfl

theorem snd_collectChanges (w : World) (rs : List Resource) (c : Chain) :
    (c.collectChanges w rs).2 = (refreshAll w rs c).2 ∨
      ∃ changed, (c.collectChanges w rs).2
        = ((refreshAll w rs c).2.collectFrom w (rs.map Resource.name) changed).2 := by
  rw [collectChanges_eq]
  rcases refreshAll w rs c with ⟨(e | changed), c'⟩
  · exact .inl rfl
  · exact .inr ⟨changed, rfl⟩

theorem Asks.settings_eq {ns : List String} (h : Asks w ns c c') :
    c'.map Loader.settings = c.map Loader.settings :=
  h.keeps (P := fun c' => c'.map Loader.settings = c.map Loader.settings)
    (fun n _ c' hc' => (settings_find w n c').trans hc') rfl

theorem settings_collectChanges (hc : c.IsSound) (w : World) (rs : List Resource) :
    (c.collectChanges w rs).2.map Loader.settings = c.map Loader.settings := by
  have hset := settings_refreshAll w rs c
  obtain hs | ⟨changed, hs⟩ := snd_collectChanges w rs c <;> rw [hs]
  · exact hset
  · obtain ⟨asked, hasks, -⟩ :=
      asks_collectFrom (hc.refreshAll w rs) w (rs.map Resource.name) changed
    exact hasks.settings_eq.trans hset

theorem IsSound.collectChanges (hc : c.IsSound) (w : World) (rs : List Resource) :
    (c.collectChanges w rs).2.IsSound := by
  have hc' := hc.refreshAll w rs
  obtain hs | ⟨changed, hs⟩ := snd_collectChanges w rs c <;> rw [hs]
  · exact hc'
  · obtain ⟨asked, hasks, -⟩ := asks_collectFrom hc' w (rs.map Resource.name) changed
    exact hasks.keeps (fun n _ c hc => hc.find w n) hc'

theorem IsOrderly.collectChanges (h : c.IsOrderly) (w : World) (rs : List Resource) :
    (c.collectChanges w rs).2.IsOrderly := by
  have hc' := h.refreshAll w rs
  obtain hs | ⟨changed, hs⟩ := snd_collectChanges w rs c <;> rw [hs]
  · exact hc'
  · obtain ⟨asked, hasks, -⟩ := asks_collectFrom hc'.sound w (rs.map Resource.name) changed
    exact hasks.isOrderly hc'

/-- **A chain that has looked for later copies of a resource goes on backing it**, also where something
has failed. -/
theorem Backs.collectChanges (hc : c.IsOrderly) (hnodup : (rs.map Resource.name).Nodup)
    (h : Backs w c r) (hr : r ∈ rs) : Backs w (c.collectChanges w rs).2 r := by
  have hne : ∀ s ∈ rs, s = r ∨ s.name ≠ r.name := by
    intro s hs
    by_cases hname : s.name = r.name
    · exact .inl (Resource.eq_of_name hnodup hs hr hname)
    · exact .inr hname
  have hback := h.refreshAll hc hne
  obtain hs | ⟨changed, hs⟩ := snd_collectChanges w rs c <;> rw [hs]
  · exact hback
  · obtain ⟨asked, hasks, hnew⟩ :=
      asks_collectFrom (hc.refreshAll w rs).sound w (rs.map Resource.name) changed
    refine hasks.keeps (P := fun c => Backs w c r) (fun n hn c hc => hc.find ?_) hback
    rintro rfl
    exact hnew _ hn (List.mem_map_of_mem hr)

theorem Lacks.collectChanges (hc : c.IsOrderly) (h : Lacks w c n)
    (hn : n ∉ rs.map Resource.name) : Lacks w (c.collectChanges w rs).2 n := by
  have hlacks := h.refreshAll hn
  obtain hs | ⟨changed, hs⟩ := snd_collectChanges w rs c <;> rw [hs]
  · exact hlacks
  · obtain ⟨asked, hasks, -⟩ :=
      asks_collectFrom (hc.refreshAll w rs).sound w (rs.map Resource.name) changed
    exact hasks.keeps (P := fun c => Lacks w c n) (fun m _ c hc => hc.find m) hlacks

/-- **What collecting comes to where nothing fails** — resources of different names, the first ones and
others that were not known, which the chain serves like all it served under a known name; and every
reference of theirs is settled by a known name or one of theirs, or is optional and lacking. -/
structure Collects (w : World) (c : Chain) (known : List String) (start members : List Resource)
    (c' : Chain) : Prop where
  nodup : (members.map Resource.name).Nodup
  starts : start ⊆ members
  serves : ∀ m ∈ members, m ∈ start ∨ (m.name ∉ known ∧ Serves w c' m)
  keeps : ∀ r, r.name ∈ known → Serves w c r → Serves w c' r
  settled : ∀ m ∈ members, ∀ ref ∈ Reference.ofText m.source,
    (∃ n ∈ ref.candidates, n ∈ known ++ members.map Resource.name) ∨
      (ref.optional = true ∧ ∀ n ∈ ref.candidates, Lacks w c' n)

theorem collects_of_collectFrom {known : List String} {start : List Resource} (hc : c.IsOrderly)
    (hnodup : (start.map Resource.name).Nodup) (hknown : start.map Resource.name ⊆ known)
    (h : (c.collectFrom w known start).1 = .ok members) :
    Collects w c known start members (c.collectFrom w known start).2 := by
  obtain ⟨asked, hasks, hnew, hok⟩ := (walks_collectFrom hc.sound w known start).asks hc.sound
  obtain ⟨hall, hsub, hcome, hrefs⟩ := hok members h
  obtain ⟨hstands, -⟩ := hasks.standsBy hc hall
  have hkeep := hasks.answer_eq hall
  have hend : Ends (answer w c) known start (c.collectFrom w known start).1 :=
    ends_collectFrom hc.sound w fun n => ⟨fun hn => List.mem_append_left _ hn,
      fun hn => (List.mem_append.1 hn).elim id fun hn => hknown hn⟩
  rw [h] at hend
  have hnamed := isNamed_answer hc.sound w
  have hsettled := hend.reaches.settled hnamed
  have hdistinct := hend.reaches.nodup hnamed hnodup
  simp only [List.append_nil] at hsettled hdistinct
  refine ⟨hdistinct, hsub, fun m hm => ?_, ?_, fun m hm ref href => ?_⟩
  · refine (hcome m hm).imp id fun ⟨hasked, hans⟩ => ?_
    rw [← hkeep] at hans
    exact ⟨hnew m.name hasked, (hstands _ hasked).1 m hans, hans⟩
  · rintro r hr ⟨hback, hans⟩
    refine ⟨hasks.keeps (P := fun c => Backs w c r) (fun n hn c hc => hc.find ?_) hback,
      by rw [hkeep, hans]⟩
    rintro rfl
    exact hnew _ hn hr
  · rcases hsettled m hm ref href with hin | ⟨hoptional, hnone⟩
    · exact .inl hin
    · rcases hrefs m hm ref href with ⟨n, hn, hin⟩ | hsub
      · exact .inl ⟨n, hn, List.mem_append.2 (List.mem_append.1 hin).symm⟩
      · refine .inr ⟨hoptional, fun n hn => (hstands n (hsub hn)).2 ?_⟩
        rw [hkeep, hnone n hn]

/-- **What a look for later copies comes to where nothing fails** — resources of different names, none
in the place of a still one, which the chain serves like those that have no later copy; and every
reference of theirs is settled. -/
structure Renews (w : World) (c : Chain) (rs members : List Resource) (c' : Chain) : Prop where
  nodup : (members.map Resource.name).Nodup
  serves : ∀ m ∈ members, Serves w c' m
  still : ∀ r ∈ rs, IsStill c r → r.name ∉ members.map Resource.name
  old : ∀ r ∈ rs, r.name ∉ members.map Resource.name → Backs w c r → Serves w c' r
  settled : ∀ m ∈ members, ∀ ref ∈ Reference.ofText m.source,
    (∃ n ∈ ref.candidates, n ∈ rs.map Resource.name ++ members.map Resource.name) ∨
      (ref.optional = true ∧ ∀ n ∈ ref.candidates, Lacks w c' n)

/-- **A look for later copies that does not fail renews all there is.** -/
theorem renews_of_collectChanges (hc : c.IsOrderly) (hnodup : (rs.map Resource.name).Nodup)
    (hback : ∀ r ∈ rs, IsStill c r ∨ Backs w c r)
    (h : (c.collectChanges w rs).1 = .ok members) :
    Renews w c rs members (c.collectChanges w rs).2 := by
  have hc' := hc.refreshAll w rs
  have hlooks : ∀ changed, (refreshAll w rs c).1 = .ok changed → _ := fun _ =>
    refreshAll_serves hc hnodup hback
  rw [collectChanges_eq] at h ⊢
  rcases hf : refreshAll w rs c with ⟨(e | changed), c'⟩ <;> rw [hf] at h hlooks hc'
  · cases h
  · obtain ⟨hsub, hchanged, hold⟩ := hlooks changed rfl
    have hcollects := collects_of_collectFrom hc' (hnodup.sublist hsub) hsub.subset h
    refine ⟨hcollects.nodup, fun m hm => ?_, fun r hr hstill hin => ?_, fun r hr hno hb => ?_,
      hcollects.settled⟩
    · rcases hcollects.serves m hm with hm | ⟨-, hserves⟩
      · exact hcollects.keeps m (hsub.subset (List.mem_map_of_mem hm)) (hchanged m hm)
      · exact hserves
    · obtain ⟨m, hm, hname⟩ := List.mem_map.1 hin
      rcases hcollects.serves m hm with hm | ⟨hout, -⟩
      · exact (hold r hr).1 hstill (hname ▸ List.mem_map_of_mem hm)
      · exact hout (hname ▸ List.mem_map_of_mem hr)
    · refine hcollects.keeps r (List.mem_map_of_mem hr) ((hold r hr).2 (fun hin => hno ?_) hb)
      exact List.map_subset _ hcollects.starts hin

end Chain

end QueryPress
