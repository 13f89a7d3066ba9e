import QueryPress.Proofs.Resource.Renewing

/-!
# Proofs/Resource/Holdings — what holds of all that a chain holds and hands out

A property of resources, said with the settings of a loader, is *regular* if it holds of whatever the
loader finds and of whatever it reads again.  Then what holds of the copies of a chain and of the
resources that are looked at holds of the copies afterwards and of all that is handed out
(`Keeps.collectChanges`).
-/

namespace QueryPress

/-- A property of a resource, in view of the settings of its loader. -/
abbrev Trait := LoaderSettings → Resource → Prop

/-- **A regular property** holds of what is found on the disk, and of what is read again for a resource
that it holds of. -/
structure Trait.IsRegular (w : World) (R : Trait) : Prop where
  found : ∀ {l : Loader} {n path r}, l.locate? w n = some path → l.read w n path = .ok r →
    R l.settings r
  reread : ∀ {l : Loader} {s r}, R l.settings s → l.read w s.name s.path = .ok r →
    R l.settings r

namespace Loader

variable {w : World} {l : Loader} {R : Trait} {n : String} {r s : Resource}

/-- A property holds of every copy of a loader. -/
def Keeps (R : Trait) (l : Loader) : Prop :=
  ∀ n y, Table.get? l.copies n = some y → R l.settings y

theorem Keeps.noteCheck (h : l.Keeps R) (now : Instant) (n : String) :
    (l.noteCheck now n).Keeps R := h

theorem Keeps.claim (h : l.Keeps R) (now : Instant) (n : String) :
    (l.claim now n).2.Keeps R := by
  unfold Loader.claim
  split
  · exact h
  · exact h

theorem Keeps.remember (h : l.Keeps R) (now : Instant) (hr : R l.settings r) :
    (l.remember now r).Keeps R := by
  intro n y hy
  rw [settings_remember]
  rw [get?_copies_remember] at hy
  split at hy
  · obtain rfl := Option.some.inj hy
    exact hr
  · exact h n y hy

theorem Keeps.evict (h : l.Keeps R) (n : String) : (l.evict n).Keeps R := by
  intro m y hy
  rw [get?_copies_evict] at hy
  split at hy
  · cases hy
  · exact h m y hy

/-- **What is loaded has the property, and so have the copies afterwards.** -/
theorem Keeps.load (hR : R.IsRegular w) (h : l.Keeps R) :
    (l.load w n).2.Keeps R ∧ ∀ r, (l.load w n).1 = .ok (some r) → R l.settings r := by
  obtain ⟨copy, hcopy, -, hs⟩ | ⟨-, l₁, hl₁, hs⟩ := load_cases w l n <;> rw [hs]
  · refine ⟨h.claim w.now n, fun r hr => ?_⟩
    obtain rfl : copy = r := by simpa using hr
    exact h n copy (get?_of_copy? hcopy)
  · have hset : l₁.settings = l.settings := by rcases hl₁ with rfl | rfl <;> rfl
    have h₁ : l₁.Keeps R := by rcases hl₁ with rfl | rfl <;> exact h
    obtain ⟨-, hs⟩ | ⟨path, e, -, -, hs⟩ | ⟨path, r, hloc, hread, hs⟩ := search_cases w l₁ n <;>
      rw [hs]
    · exact ⟨h₁.evict n, by simp⟩
    · exact ⟨h₁, by simp⟩
    · have hr := hR.found hloc hread
      refine ⟨h₁.remember w.now hr, fun r' hr' => ?_⟩
      obtain rfl : r = r' := by simpa using hr'
      rwa [hset] at hr

/-- **What is read again has the property**, if the resource has it that is looked at. -/
theorem Keeps.reread (hR : R.IsRegular w) (h : l.Keeps R) (hs : s.IsGiven ∨ R l.settings s) :
    (l.reread w s).2.Keeps R ∧
      ∀ r, (l.reread w s).1 = .ok (some r) → r.loader = l.name ∧ R l.settings r := by
  obtain ⟨hf, -⟩ | ⟨e, -, hf⟩ | ⟨fresh, t, ht, -, hread, hf⟩ := reread_cases w l s <;> rw [hf]
  · exact ⟨h, by simp⟩
  · exact ⟨h, by simp⟩
  · rcases hs with hs | hs
    · cases (hs.modified w).symm.trans ht
    · have hfresh := hR.reread hs hread
      refine ⟨h.remember w.now hfresh, fun r hr => ?_⟩
      obtain rfl : fresh = r := by simpa using hr
      exact ⟨by rw [(read_eq_ok hread).2], hfresh⟩

/-- **What a look for a later copy brings has the property**, be it read again or a copy that is kept. -/
theorem Keeps.refresh (hl : l.IsSound) (hR : R.IsRegular w) (h : l.Keeps R)
    (hs : s.IsGiven ∨ R l.settings s) :
    (l.refresh w s).2.Keeps R ∧
      ∀ r, (l.refresh w s).1 = .ok (some r) → r.loader = l.name ∧ R l.settings r := by
  obtain ⟨-, hf⟩ | ⟨-, -, hf⟩ | ⟨-, -, hf⟩ := refresh_cases w l s <;> rw [hf]
  · exact ⟨h, by simp⟩
  · refine ⟨h, fun r hr => ?_⟩
    have hcopy := get?_of_copy? (Option.filter_eq_some_iff.1 (Except.ok.inj hr)).1
    exact ⟨hl.loader_eq hcopy, h _ r hcopy⟩
  · exact (h.noteCheck w.now s.name).reread hR hs

end Loader

namespace Chain

variable {w : World} {c c' : Chain} {R : Trait} {n : String} {r s : Resource}
  {rs members : List Resource}

/-- A property holds of every copy in a chain. -/
def Keeps (R : Trait) (c : Chain) : Prop := ∀ l ∈ c, l.Keeps R

/-- **A property holds of a resource**, in view of the loader in the chain that it comes from. -/
def Has (R : Trait) (c : Chain) (r : Resource) : Prop :=
  ∃ settings ∈ c.map Loader.settings, r.loader = settings.name ∧ R settings r

theorem Has.congr (h : Has R c r) (hs : c'.map Loader.settings = c.map Loader.settings) :
    Has R c' r := by
  rwa [Has, hs]

/-- The settings of a chain in order tell which of them a resource comes from. -/
theorem Has.of_mem (hc : c.names.Nodup) (h : Has R c r) {l : Loader} (hl : l ∈ c)
    (hname : r.loader = l.name) : R l.settings r := by
  obtain ⟨settings, hmem, hloader, hR⟩ := h
  obtain ⟨l', hl', rfl⟩ := List.mem_map.1 hmem
  have heq : l'.settings = l.settings := by
    induction c with
    | nil => cases hl
    | cons k ks ih =>
      obtain ⟨hout, hks⟩ := List.nodup_cons.1 hc
      rcases List.mem_cons.1 hl with rfl | hl₁ <;> rcases List.mem_cons.1 hl' with rfl | hl₂
      · rfl
      · exact absurd (List.mem_map.2 ⟨l', hl₂, hloader.symm.trans hname⟩) hout
      · exact absurd (List.mem_map.2 ⟨l, hl₁, hname.symm.trans hloader⟩) hout
      · exact ih hks hl₁ hl₂ (List.mem_map_of_mem hl₂)
  rwa [← heq]

theorem has_cons {l : Loader} (h : Has R c r) : Has R (l :: c) r := by
  obtain ⟨settings, hmem, hrest⟩ := h
  exact ⟨settings, List.mem_cons_of_mem _ hmem, hrest⟩

theorem Keeps.find (hR : R.IsRegular w) (h : Keeps R c) (n : String) : Keeps R (find w n c).2 :=
  forall_find (fun _ hl => (hl.load hR).1) h

/-- **What a chain says it has under a name has the property.** -/
theorem Keeps.has_of_answer (hR : R.IsRegular w) : ∀ {c : Chain}, c.IsSound → Keeps R c →
    answer w c n = .ok (some r) → Has R c r
  | [], _, _, hr => by simp [answer, Chain.find] at hr
  | l :: ls, hc, h, hr => by
    obtain ⟨hl, hls⟩ := List.forall_mem_cons.1 h
    obtain ⟨hsl, hsls⟩ := List.forall_mem_cons.1 hc
    rw [answer_cons] at hr
    cases hload : (l.load w n).1 with
    | error e => simp [hload] at hr
    | ok a =>
      cases a with
      | none => exact has_cons (Keeps.has_of_answer hR hsls hls (by simpa [hload] using hr))
      | some r' =>
        obtain rfl : r' = r := by simpa [hload] using hr
        exact ⟨l.settings, List.mem_cons_self, (hsl.eq_of_load hload).2, (hl.load hR).2 r' hload⟩

theorem Keeps.refresh (hR : R.IsRegular w) : ∀ {c : Chain}, c.IsSound → Keeps R c →
    (∀ l ∈ c, s.loader = l.name → s.IsGiven ∨ R l.settings s) →
      Keeps R (refresh w s c).2 ∧ ∀ r, (refresh w s c).1 = .ok (some r) → Has R c r
  | [], _, h, _ => ⟨h, by simp [Chain.refresh]⟩
  | l :: ls, hc, h, hs => by
    obtain ⟨hcl, hcs⟩ := List.forall_mem_cons.1 hc
    obtain ⟨hl, hls⟩ := List.forall_mem_cons.1 h
    obtain ⟨hsl, hsls⟩ := List.forall_mem_cons.1 hs
    obtain ⟨hname, hf⟩ | ⟨-, hf⟩ := refresh_cons w s l ls <;> rw [hf]
    · obtain ⟨hkeeps, hfound⟩ := hl.refresh hcl hR (hsl hname.symm)
      refine ⟨List.forall_mem_cons.2 ⟨hkeeps, hls⟩, fun r hr => ?_⟩
      exact ⟨l.settings, List.mem_cons_self, hfound r (mapError_eq_ok.1 hr)⟩
    · obtain ⟨hkeeps, hfound⟩ := Keeps.refresh hR hcs hls hsls
      exact ⟨List.forall_mem_cons.2 ⟨hl, hkeeps⟩, fun r hr => has_cons (hfound r hr)⟩

/-! ## All that a look for later copies brings -/

theorem Asks.keepsTrait {ns : List String} (h : Asks w ns c c') (hR : R.IsRegular w)
    (hc : Keeps R c) : Keeps R c' :=
  h.keeps (P := Keeps R) (fun n _ _ hc => hc.find hR n) hc

theorem Keeps.refreshAll (hR : R.IsRegular w) : ∀ {rs : List Resource} {c : Chain},
    c.IsSound → c.names.Nodup → Keeps R c → (∀ s ∈ rs, s.IsGiven ∨ Has R c s) →
      Keeps R (refreshAll w rs c).2 ∧
        ∀ changed, (refreshAll w rs c).1 = .ok changed → ∀ m ∈ changed, Has R c m
  | [], _, _, _, h, _ => ⟨h, fun changed hch => by
      obtain rfl : [] = changed := by simpa [Chain.refreshAll] using hch
      simp⟩
  | s :: rs, c, hc, hnodup, h, hs => by
    obtain ⟨hs, hrs⟩ := List.forall_mem_cons.1 hs
    obtain ⟨hkeeps, hfound⟩ := h.refresh hR hc
      (s := s) fun l hl hname => hs.imp id fun hs => hs.of_mem hnodup hl hname
    have hset := settings_refresh w s c
    have hc' := hc.refresh w s
    rw [← names_refresh w s c] at hnodup
    rcases hf : Chain.refresh w s c with ⟨(e | found), c'⟩ <;>
      rw [hf] at hkeeps hfound hset hc' hnodup <;> rw [Chain.refreshAll, hf]
    · exact ⟨hkeeps, by simp⟩
    · obtain ⟨hkeeps', hrest⟩ := Keeps.refreshAll hR hc' hnodup hkeeps
        (fun s hs => (hrs s hs).imp id (·.congr hset))
      rcases hg : Chain.refreshAll w rs c' with ⟨(e | rest), c''⟩ <;>
        rw [hg] at hkeeps' hrest <;> simp only [hg]
      · exact ⟨hkeeps', by simp⟩
      · refine ⟨hkeeps', fun changed hch m hm => ?_⟩
        obtain rfl : found.toList ++ rest = changed := by simpa using hch
        rcases List.mem_append.1 hm with hm | hm
        · obtain rfl : found = some m := by simpa using hm
          exact hfound m rfl
        · exact (hrest rest rfl m hm).congr hset.symm

/-- A regular property of the copies holds of all that is collected. -/
theorem Keeps.collectFrom (hR : R.IsRegular w) (hc : c.IsSound) (h : Keeps R c)
    (known : List String) (start : List Resource) :
    Keeps R (c.collectFrom w known start).2 ∧
      ∀ members, (c.collectFrom w known start).1 = .ok members →
        ∀ m ∈ members, m ∈ start ∨ Has R c m := by
  obtain ⟨asked, hasks, -, hok⟩ := (walks_collectFrom hc w known start).asks hc
  refine ⟨hasks.keepsTrait hR h, fun members hmembers m hm => ?_⟩
  obtain ⟨-, -, hcome, -⟩ := hok members hmembers
  exact (hcome m hm).imp id fun ⟨_, hans⟩ => Keeps.has_of_answer hR hc h hans

/-- **A regular property of the copies and of the resources that are looked at** holds of the copies
afterwards, and of all that is brought. -/
theorem Keeps.collectChanges (hR : R.IsRegular w) (hc : c.IsSound) (hnodup : c.names.Nodup)
    (h : Keeps R c) (hs : ∀ s ∈ rs, s.IsGiven ∨ Has R c s) :
    Keeps R (c.collectChanges w rs).2 ∧
      ∀ members, (c.collectChanges w rs).1 = .ok members → ∀ m ∈ members, Has R c m := by
  have hset := settings_refreshAll w rs c
  have hc' := hc.refreshAll w rs
  obtain ⟨hkeeps, hchanged⟩ := h.refreshAll hR hc hnodup hs
  rw [collectChanges_eq]
  rcases hf : Chain.refreshAll w rs c with ⟨(e | changed), c'⟩ <;>
    rw [hf] at hset hc' hkeeps hchanged
  · exact ⟨hkeeps, by simp⟩
  · obtain ⟨hkeeps', hmembers⟩ :=
      hkeeps.collectFrom hR hc' (rs.map Resource.name) changed
    refine ⟨hkeeps', fun members hm m hin => ?_⟩
    rcases hmembers members hm m hin with hin | hhas
    · exact hchanged changed rfl m hin
    · exact hhas.congr hset.symm

end Chain

end QueryPress
