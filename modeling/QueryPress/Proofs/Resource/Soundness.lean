import QueryPress.Proofs.Resource.Loading

/-!
# Proofs/Resource/Soundness — the tables of a loader fit each other in every state it comes to

A copy is filed under its own name, comes from the loader that keeps it, and its file has been
looked at: every operation keeps it so, also where it fails half way (`Reachable.isSound`).
-/

namespace QueryPress.Loader

variable {w : World} {l : Loader} {name : String} {r : Resource}

/-! ## A look at a resource that was loaded before -/

/-- **Reading again ends in one of three ways** — the file is gone or not later, it cannot be read,
or it is read and remembered. -/
theorem reread_cases (w : World) (l : Loader) (r : Resource) :
    (l.reread w r = (.ok none, l) ∧
      ∀ t, w.modified r.path = .ok t → isLater (some t) r.modified = false) ∨
    (∃ e, l.read w r.name r.path = .error e ∧ l.reread w r = (.error e, l)) ∨
    (∃ fresh t, w.modified r.path = .ok t ∧ isLater (some t) r.modified = true ∧
      l.read w r.name r.path = .ok fresh ∧
      l.reread w r = (.ok (some fresh), l.remember w.now fresh)) := by
  unfold reread
  cases ht : w.modified r.path with
  | error e => exact .inl ⟨rfl, fun t h => by cases h⟩
  | ok t =>
    cases hlater : isLater (some t) r.modified with
    | false => exact .inl ⟨by simp [hlater], fun t' h => by cases h; exact hlater⟩
    | true =>
      cases hr : l.read w r.name r.path with
      | error e => exact .inr (.inl ⟨e, rfl, by simp [hlater]⟩)
      | ok fresh => exact .inr (.inr ⟨fresh, t, rfl, hlater, rfl, by simp [hlater]⟩)

/-- **A refresh does nothing, hands out the copy, or reads again.** -/
theorem refresh_cases (w : World) (l : Loader) (r : Resource) :
    (l.settings.checkInterval = .never ∧ l.refresh w r = (.ok none, l)) ∨
    (l.settings.checkInterval ≠ .never ∧ l.isDue w.now r.name = false ∧
      l.refresh w r
        = (.ok ((l.copy? r.name).filter fun c => isLater c.modified r.modified), l)) ∨
    (l.settings.checkInterval ≠ .never ∧ l.isDue w.now r.name = true ∧
      l.refresh w r = (l.noteCheck w.now r.name).reread w r) := by
  unfold refresh claim
  by_cases hi : l.settings.checkInterval = .never
  · exact .inl ⟨hi, by simp [hi]⟩
  · by_cases hd : l.isDue w.now r.name = true
    · exact .inr (.inr ⟨hi, hd, by simp [hi, hd]⟩)
    · exact .inr (.inl ⟨hi, by simpa using hd, by simp [hi, hd]⟩)

/-! ## Tables that fit each other -/

/-- **The tables of a loader are sound** — a copy is filed under its own name, comes from this
loader, and its file has been looked at. -/
structure IsSound (l : Loader) : Prop where
  name_eq : ∀ {n r}, Table.get? l.copies n = some r → r.name = n
  loader_eq : ∀ {n r}, Table.get? l.copies n = some r → r.loader = l.name
  isChecked : ∀ {n r}, Table.get? l.copies n = some r → (Table.get? l.checks n).isSome

theorem isSound_start (settings : LoaderSettings) : IsSound { settings } where
  name_eq h := by simp at h
  loader_eq h := by simp at h
  isChecked h := by simp at h

theorem IsSound.noteCheck (h : l.IsSound) (now : Instant) (name : String) :
    (l.noteCheck now name).IsSound where
  name_eq := h.name_eq
  loader_eq := h.loader_eq
  isChecked {n r} hr := by
    rw [get?_checks_noteCheck]
    split
    · rfl
    · exact h.isChecked hr

theorem IsSound.claim (h : l.IsSound) (now : Instant) (name : String) :
    (l.claim now name).2.IsSound := by
  unfold Loader.claim
  split
  · exact h.noteCheck now name
  · exact h

theorem IsSound.evict (h : l.IsSound) (name : String) : (l.evict name).IsSound where
  name_eq {n r} hr := by
    rw [get?_copies_evict] at hr
    split at hr
    · simp at hr
    · exact h.name_eq hr
  loader_eq {n r} hr := by
    rw [get?_copies_evict] at hr
    split at hr
    · simp at hr
    · exact h.loader_eq hr
  isChecked {n r} hr := by
    rw [get?_copies_evict] at hr
    rw [get?_checks_evict]
    split at hr
    · simp at hr
    · simpa [*] using h.isChecked hr

theorem IsSound.remember (h : l.IsSound) (now : Instant) (hr : r.loader = l.name) :
    (l.remember now r).IsSound where
  name_eq {n s} hs := by
    rw [get?_copies_remember] at hs
    split at hs
    · rename_i hn
      obtain rfl := Option.some.inj hs
      exact hn.2.symm
    · exact h.name_eq hs
  loader_eq {n s} hs := by
    rw [get?_copies_remember] at hs
    simp only [name, settings_remember]
    split at hs
    · obtain rfl := Option.some.inj hs
      exact hr
    · exact h.loader_eq hs
  isChecked {n s} hs := by
    rw [get?_copies_remember] at hs
    rw [get?_checks_remember]
    split
    · rfl
    · exact h.isChecked (by simpa [*] using hs)

theorem IsSound.search (h : l.IsSound) (w : World) (name : String) :
    (l.search w name).2.IsSound := by
  obtain ⟨-, hs⟩ | ⟨path, e, -, -, hs⟩ | ⟨path, r, -, hr, hs⟩ := search_cases w l name <;> rw [hs]
  · exact h.evict name
  · exact h
  · exact h.remember w.now (by rw [(read_eq_ok hr).2])

theorem IsSound.load (h : l.IsSound) (w : World) (name : String) : (l.load w name).2.IsSound := by
  obtain ⟨r, -, -, hs⟩ | ⟨-, l₁, hl₁, hs⟩ := load_cases w l name <;> rw [hs]
  · exact h.claim w.now name
  · rcases hl₁ with rfl | rfl
    · exact h.search w name
    · exact (h.noteCheck w.now name).search w name

theorem IsSound.reread (h : l.IsSound) (w : World) (r : Resource) :
    (l.reread w r).2.IsSound := by
  obtain ⟨hs, -⟩ | ⟨e, -, hs⟩ | ⟨fresh, t, -, -, hr, hs⟩ := reread_cases w l r <;> rw [hs]
  · exact h
  · exact h
  · exact h.remember w.now (by rw [(read_eq_ok hr).2])

theorem IsSound.refresh (h : l.IsSound) (w : World) (r : Resource) :
    (l.refresh w r).2.IsSound := by
  obtain ⟨-, hs⟩ | ⟨-, -, hs⟩ | ⟨-, -, hs⟩ := refresh_cases w l r <;> rw [hs]
  · exact h
  · exact h
  · exact (h.noteCheck w.now r.name).reread w r

/-! ## Every state is sound -/

/-- The states a loader can come to: it starts without copies, is asked for names and for later
copies and told to forget names, and in between the world changes as it likes. -/
inductive Reachable : Loader → Prop
  | start (settings : LoaderSettings) : Reachable { settings }
  | load {l : Loader} (w : World) (name : String) : Reachable l → Reachable (l.load w name).2
  | refresh {l : Loader} (w : World) (r : Resource) : Reachable l → Reachable (l.refresh w r).2
  | evict {l : Loader} (name : String) : Reachable l → Reachable (l.evict name)

/-- **Every state a loader can come to is sound.** -/
theorem Reachable.isSound (h : l.Reachable) : l.IsSound := by
  induction h with
  | start settings => exact isSound_start settings
  | load w name _ ih => exact ih.load w name
  | refresh w r _ ih => exact ih.refresh w r
  | evict name _ ih => exact ih.evict name

/-- **What is loaded bears the name it was asked for under, and that of the loader.** -/
theorem IsSound.eq_of_load (h : l.IsSound) (hr : (l.load w name).1 = .ok (some r)) :
    r.name = name ∧ r.loader = l.name := by
  rw [fst_load] at hr
  cases hk : l.kept? w name with
  | some copy =>
    have hcopy := get?_of_kept? hk
    simp only [hk, Except.ok.injEq, Option.some.injEq] at hr
    obtain rfl := hr
    exact ⟨h.name_eq hcopy, h.loader_eq hcopy⟩
  | none =>
    simp only [hk, found] at hr
    cases hl : l.locate? w name with
    | none => simp [hl] at hr
    | some path =>
      rw [hl] at hr
      obtain ⟨found, hread, hfound⟩ := map_eq_ok.1 hr
      obtain rfl := Option.some.inj hfound
      rw [(read_eq_ok hread).2]
      exact ⟨rfl, rfl⟩

/-- A later copy bears the name of what it is a copy of. -/
theorem IsSound.name_of_refresh (h : l.IsSound) {m : Resource}
    (hm : (l.refresh w r).1 = .ok (some m)) : m.name = r.name := by
  obtain ⟨-, hs⟩ | ⟨-, -, hs⟩ | ⟨-, -, hs⟩ := refresh_cases w l r <;> rw [hs] at hm
  · cases hm
  · have hcopy := (Option.filter_eq_some_iff.1 (Except.ok.inj hm)).1
    exact h.name_eq (get?_of_copy? hcopy)
  · obtain ⟨hs, -⟩ | ⟨e, -, hs⟩ | ⟨fresh, t, -, -, hr, hs⟩ :=
      reread_cases w (l.noteCheck w.now r.name) r <;> rw [hs] at hm
    · cases hm
    · cases hm
    · obtain rfl : fresh = m := by simpa using hm
      rw [(read_eq_ok hr).2]

end QueryPress.Loader
