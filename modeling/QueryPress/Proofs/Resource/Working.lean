import QueryPress.Proofs.Resource.Renewing

/-!
# Proofs/Resource/Working — loaders take up no copy of a file that is not there

Whatever is asked of loaders, each of them *works*: it loads names, looks for later copies and forgets
names, in worlds of some kind (`Works`).  In worlds that lack some files it takes up none of them
(`TakesNone`), since a copy is taken up only of a file that is read; so what it hands out of them later it
had already (`Chain.Works.copy?_of_load`).
-/

namespace QueryPress

variable {w : World} {W : World → Prop} {P : Path → Prop} {n : String} {r : Resource}

namespace Loader

variable {l l' l'' : Loader}

/-! ## A loader at work -/

/-- **A loader has worked** in worlds of some kind — it was asked for names and for later copies of
resources, and told to forget names. -/
inductive Works (W : World → Prop) (l : Loader) : Loader → Prop
  | rest : Works W l l
  | load {l' : Loader} {w : World} (n : String) : Works W l l' → W w → Works W l (l'.load w n).2
  | refresh {l' : Loader} {w : World} (r : Resource) : Works W l l' → W w →
      Works W l (l'.refresh w r).2
  | evict {l' : Loader} (n : String) : Works W l l' → Works W l (l'.evict n)

theorem Works.trans (h : Works W l l') (h' : Works W l' l'') : Works W l l'' := by
  induction h' with
  | rest => exact h
  | load n _ hw ih => exact .load n ih hw
  | refresh r _ hw ih => exact .refresh r ih hw
  | evict n _ ih => exact .evict n ih

theorem Works.isSound (h : Works W l l') (hl : l.IsSound) : l'.IsSound := by
  induction h with
  | rest => exact hl
  | load n _ _ ih => exact ih.load _ n
  | refresh r _ _ ih => exact ih.refresh _ r
  | evict n _ ih => exact ih.evict n

/-! ## Files that are not there -/

/-- **A loader has taken up none of some files** — each copy that it keeps of one of them it kept before,
under the same name. -/
structure TakesNone (P : Path → Prop) (l l' : Loader) : Prop where
  settings : l'.settings = l.settings
  copies : ∀ {n r}, P r.path → Table.get? l'.copies n = some r → Table.get? l.copies n = some r

theorem TakesNone.refl (P : Path → Prop) (l : Loader) : TakesNone P l l := ⟨rfl, fun _ h => h⟩

theorem TakesNone.trans (h : TakesNone P l l') (h' : TakesNone P l' l'') : TakesNone P l l'' :=
  ⟨h'.settings.trans h.settings, fun hP hr => h.copies hP (h'.copies hP hr)⟩

theorem TakesNone.copy?_eq (h : TakesNone P l l') (hP : P r.path) (hr : l'.copy? n = some r) :
    l.copy? n = some r := by
  simp only [copy?, Option.ite_none_right_eq_some] at hr ⊢
  exact ⟨h.settings ▸ hr.1, h.copies hP hr.2⟩

theorem takesNone_noteCheck (now : Instant) (n : String) : TakesNone P l (l.noteCheck now n) :=
  ⟨rfl, fun _ h => h⟩

theorem takesNone_claim (now : Instant) (n : String) : TakesNone P l (l.claim now n).2 :=
  ⟨settings_claim l now n, fun _ h => by rwa [copies_claim] at h⟩

theorem takesNone_evict (n : String) : TakesNone P l (l.evict n) where
  settings := rfl
  copies _ hr := by
    rw [get?_copies_evict] at hr
    split at hr
    · cases hr
    · exact hr

theorem takesNone_remember (now : Instant) (hr : ¬ P r.path) : TakesNone P l (l.remember now r) where
  settings := settings_remember l now r
  copies {n s} hs hcopy := by
    rw [get?_copies_remember] at hcopy
    split at hcopy
    · obtain rfl := Option.some.inj hcopy
      exact absurd hs hr
    · exact hcopy

variable (hw : ∀ p, P p → w.isFile p = false)

include hw

/-- What is read is a file that is there. -/
theorem not_of_read {path : Path} (h : l.read w n path = .ok r) : ¬ P r.path := by
  obtain ⟨htext, hr⟩ := read_eq_ok h
  intro hP
  rw [hr] at hP
  have hfile := World.isFile_of_readText htext
  rw [hw path hP] at hfile
  cases hfile

theorem takesNone_search (n : String) : TakesNone P l (l.search w n).2 := by
  obtain ⟨-, hs⟩ | ⟨path, e, -, -, hs⟩ | ⟨path, r, -, hr, hs⟩ := search_cases w l n <;> rw [hs]
  · exact takesNone_evict n
  · exact .refl P l
  · exact takesNone_remember w.now (not_of_read hw hr)

/-- **A load takes up no file that is not there.** -/
theorem takesNone_load (n : String) : TakesNone P l (l.load w n).2 := by
  obtain ⟨r, -, -, hs⟩ | ⟨-, l₁, hl₁, hs⟩ := load_cases w l n <;> rw [hs]
  · exact takesNone_claim w.now n
  · rcases hl₁ with rfl | rfl
    · exact takesNone_search hw n
    · exact (takesNone_noteCheck w.now n).trans (takesNone_search hw n)

/-- **A look for a later copy takes up no file that is not there.** -/
theorem takesNone_refresh (r : Resource) : TakesNone P l (l.refresh w r).2 := by
  obtain ⟨-, hs⟩ | ⟨-, -, hs⟩ | ⟨-, -, hs⟩ := refresh_cases w l r <;> rw [hs]
  · exact .refl P l
  · exact .refl P l
  · refine (takesNone_noteCheck w.now r.name).trans ?_
    obtain ⟨hs, -⟩ | ⟨e, -, hs⟩ | ⟨fresh, t, -, -, hr, hs⟩ :=
      reread_cases w (l.noteCheck w.now r.name) r <;> rw [hs]
    · exact .refl P _
    · exact .refl P _
    · exact takesNone_remember w.now (not_of_read hw hr)

/-- **What is handed out of a file that is not there** is a copy that is kept. -/
theorem copy?_of_load (hP : P r.path) (h : (l.load w n).1 = .ok (some r)) : l.copy? n = some r := by
  obtain ⟨copy, hcopy, -, hs⟩ | ⟨-, l₁, -, hs⟩ := load_cases w l n <;> rw [hs] at h
  · exact hcopy.trans (Except.ok.inj h)
  · obtain ⟨path, -, hread, -⟩ := exists_read_of_search h
    exact absurd hP (not_of_read hw hread)

omit hw in
/-- **A loader at work takes up none of the files that its worlds lack.** -/
theorem Works.takesNone (hW : ∀ v, W v → ∀ p, P p → v.isFile p = false) (h : Works W l l') :
    TakesNone P l l' := by
  induction h with
  | rest => exact .refl P l
  | load n _ hw ih => exact ih.trans (takesNone_load (hW _ hw) n)
  | refresh r _ hw ih => exact ih.trans (takesNone_refresh (hW _ hw) r)
  | evict n _ ih => exact ih.trans (takesNone_evict n)

end Loader

namespace Chain

variable {c c' c'' : Chain}

/-- **Loaders have worked** in worlds of some kind. -/
def Works (W : World → Prop) (c c' : Chain) : Prop := ∀ l' ∈ c', ∃ l ∈ c, Loader.Works W l l'

namespace Works

theorem rest (W : World → Prop) (c : Chain) : Works W c c := fun l hl => ⟨l, hl, .rest⟩

theorem trans (h : Works W c c') (h' : Works W c' c'') : Works W c c'' := by
  intro l'' hl''
  obtain ⟨l', hl', hworks'⟩ := h' l'' hl''
  obtain ⟨l, hl, hworks⟩ := h l' hl'
  exact ⟨l, hl, hworks.trans hworks'⟩

theorem isSound (h : Works W c c') (hc : c.IsSound) : c'.IsSound := by
  intro l' hl'
  obtain ⟨l, hl, hworks⟩ := h l' hl'
  exact hworks.isSound (hc l hl)

/-! ## What is asked of a chain is work -/

theorem find (h : Works W c c') (hw : W w) (n : String) : Works W c (Chain.find w n c').2 :=
  forall_find (P := fun l' => ∃ l ∈ c, Loader.Works W l l')
    (fun _ ⟨l, hl, hworks⟩ => ⟨l, hl, .load n hworks hw⟩) h

theorem asks {ns : List String} (h : Works W c c') (hw : W w) (hasks : Asks w ns c' c'') :
    Works W c c'' :=
  hasks.keeps (P := Works W c) (fun n _ _ hc => hc.find hw n) h

theorem evict (h : Works W c c') (n : String) : Works W c (c'.evict n) := by
  intro l' hl'
  obtain ⟨m, hm, rfl⟩ := List.mem_map.1 hl'
  obtain ⟨l, hl, hworks⟩ := h m hm
  exact ⟨l, hl, .evict n hworks⟩

theorem collectFrom (h : Works W c c') (hc : c.IsSound) (hw : W w) (known : List String)
    (start : List Resource) : Works W c (c'.collectFrom w known start).2 := by
  obtain ⟨asked, hasks, -⟩ := asks_collectFrom (h.isSound hc) w known start
  exact h.asks hw hasks

theorem refresh (h : Works W c c') (hw : W w) (r : Resource) :
    Works W c (Chain.refresh w r c').2 :=
  forall_refresh (P := fun l' => ∃ l ∈ c, Loader.Works W l l')
    (fun _ _ ⟨l, hl, hworks⟩ => ⟨l, hl, .refresh r hworks hw⟩) h

theorem collectChanges (h : Works W c c') (hc : c.IsSound) (hw : W w) (rs : List Resource) :
    Works W c (c'.collectChanges w rs).2 := by
  have hlooks : Works W c (refreshAll w rs c').2 :=
    keeps_refreshAll (P := Works W c) (fun r _ _ hc => hc.refresh hw r) h
  obtain hs | ⟨changed, hs⟩ := snd_collectChanges w rs c' <;> rw [hs]
  · exact hlooks
  · exact hlooks.collectFrom hc hw _ changed

/-! ## What is handed out afterwards -/

/-- **What loaders at work hand out of a file that their worlds lack** they kept before, under the same
name. -/
theorem copy?_of_load (h : Works W c c') (hW : ∀ v, W v → ∀ p, P p → v.isFile p = false) (hw : W w)
    {l' : Loader} (hl' : l' ∈ c') (hP : P r.path) (hload : (l'.load w n).1 = .ok (some r)) :
    ∃ l ∈ c, l.copy? n = some r := by
  obtain ⟨l, hl, hworks⟩ := h l' hl'
  exact ⟨l, hl, (hworks.takesNone hW).copy?_eq hP (Loader.copy?_of_load (hW w hw) hP hload)⟩

end Works

/-- What a chain has under a name, one of its loaders has. -/
theorem exists_load_of_answer : ∀ {c : Chain}, answer w c n = .ok (some r) →
    ∃ l ∈ c, (l.load w n).1 = .ok (some r)
  | [], h => by simp [answer, Chain.find] at h
  | l :: ls, h => by
    rw [answer_cons] at h
    cases hload : (l.load w n).1 with
    | error e => simp [hload] at h
    | ok found =>
      rw [hload] at h
      cases found with
      | some s =>
        obtain rfl : s = r := by simpa using h
        exact ⟨l, List.mem_cons_self, hload⟩
      | none =>
        obtain ⟨m, hm, hr⟩ := exists_load_of_answer h
        exact ⟨m, List.mem_cons_of_mem l hm, hr⟩

end Chain

end QueryPress
