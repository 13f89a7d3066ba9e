import QueryPress.Proofs.Resource.Keeping

/-!
# Proofs/Resource/Origins — every copy that a loader keeps has stood on the disk

A request does one of three things to the copies of a loader (`files_answer`): it leaves them alone, it
drops the one under its name, or it files what it has just read and hands out.  So a request that fails
leaves them alone, a loader that is to keep none has none, and each copy was at some moment what its file
was (`tables_sound`), whatever has become of the file since.
-/

namespace QueryPress

/-- **A resource stands on the disk** — the file at its path has its text, and was written at its time. -/
def Resource.StandsIn (w : World) (r : Resource) : Prop :=
  ∃ bytes t, w.entry r.path = .ok (.file bytes t) ∧ String.fromUTF8? bytes = some r.source ∧
    r.modified = some t

namespace Loader

variable {w : World} {l l' : Loader} {n : String} {r : Resource} {path : Path} {worlds : List World}
  {a : Except IoError (Option Resource)} {copies : Table Resource}

/-- What is read stands on the disk. -/
theorem standsIn_of_read (h : l.read w n path = .ok r) : r.StandsIn w := by
  obtain ⟨bytes, t, hentry, hdecode, hr⟩ := read_eq_ok_iff.1 h
  rw [hr]
  exact ⟨bytes, t, hentry, hdecode, rfl⟩

/-! ## What a request does to the copies -/

/-- **What becomes of the copies of a loader** that is asked something about a name, and what it answers —
they are left alone, one is dropped, or one is filed that was read just now. -/
inductive Files (w : World) (n : String) (l : Loader) :
    Except IoError (Option Resource) → Table Resource → Prop
  | left (a : Except IoError (Option Resource)) : Files w n l a l.copies
  | dropped : Files w n l (.ok none) (Table.erase l.copies n)
  | filed {r : Resource} : l.settings.cache = true → r.StandsIn w →
      Files w n l (.ok (some r)) (Table.insert l.copies n r)

/-- Only the settings and the copies matter, not when files were looked at. -/
theorem Files.congr (h : Files w n l' a copies) (hsettings : l'.settings = l.settings)
    (hcopies : l'.copies = l.copies) : Files w n l a copies := by
  cases h with
  | left a => exact hcopies ▸ .left a
  | dropped => exact hcopies ▸ .dropped
  | filed hcache hstands => exact hcopies ▸ .filed (hsettings ▸ hcache) hstands

/-- What fails leaves the copies alone. -/
theorem Files.eq_of_error {e : IoError} (h : Files w n l (.error e) copies) : copies = l.copies := by
  cases h
  rfl

/-- A loader that is to keep no copies goes on having none. -/
theorem Files.eq_nil (h : Files w n l a copies) (hcache : l.settings.cache = false)
    (hnone : l.copies = []) : copies = [] := by
  cases h with
  | left => exact hnone
  | dropped => rw [hnone, Table.erase]
  | filed hkeeps _ => cases hkeeps.symm.trans hcache

/-- A copy that was not there before stands on the disk. -/
theorem Files.old_or_standsIn (h : Files w n l a copies) {m : String}
    (hr : Table.get? copies m = some r) : Table.get? l.copies m = some r ∨ r.StandsIn w := by
  cases h with
  | left => exact .inl hr
  | dropped =>
    rw [Table.get?_erase, Option.ite_none_left_eq_some] at hr
    exact .inl hr.2
  | filed _ hstands =>
    rw [Table.get?_insert] at hr
    split at hr
    · exact .inr (Option.some.inj hr ▸ hstands)
    · exact .inl hr

/-- What was read is filed, if copies are kept. -/
theorem files_remember (h : l.read w n path = .ok r) :
    Files w n l (.ok (some r)) (l.remember w.now r).copies := by
  have hname : r.name = n := by rw [(read_eq_ok h).2]
  cases hcache : l.settings.cache with
  | true =>
    rw [remember_of_cache w.now hcache, hname]
    exact .filed hcache (standsIn_of_read h)
  | false =>
    rw [remember_of_not_cache w.now hcache]
    exact .left _

theorem files_search (w : World) (l : Loader) (n : String) :
    Files w n l (l.search w n).1 (l.search w n).2.copies := by
  obtain ⟨-, hs⟩ | ⟨path, e, -, -, hs⟩ | ⟨path, r, -, hread, hs⟩ := search_cases w l n <;> rw [hs]
  · exact .dropped
  · exact .left _
  · exact files_remember hread

theorem files_reread (w : World) (l : Loader) (r : Resource) :
    Files w r.name l (l.reread w r).1 (l.reread w r).2.copies := by
  obtain ⟨hs, -⟩ | ⟨e, -, hs⟩ | ⟨fresh, t, -, -, hread, hs⟩ := reread_cases w l r <;> rw [hs]
  · exact .left _
  · exact .left _
  · exact files_remember hread

/-- **A request leaves the copies alone, drops one, or files one** that was read just now. -/
theorem files_answer (w : World) (l : Loader) (request : Request) :
    Files w request.name l (l.answer w request).1 (l.answer w request).2.copies := by
  cases request with
  | load n =>
    obtain ⟨r, -, -, hs⟩ | ⟨-, l₁, hl₁, hs⟩ := load_cases w l n <;> rw [answer, hs]
    · have hcopies : (l.claim w.now n).2.copies = l.copies := copies_claim w.now
      exact hcopies ▸ .left _
    · rcases hl₁ with rfl | rfl
      · exact files_search w l₁ n
      · exact (files_search w _ n).congr rfl rfl
  | refresh r =>
    obtain ⟨-, hs⟩ | ⟨-, -, hs⟩ | ⟨-, -, hs⟩ := refresh_cases w l r <;> rw [answer, hs]
    · exact .left _
    · exact .left _
    · exact (files_reread w _ r).congr rfl rfl
  | evict n => exact .dropped

/-! ## What every request keeps -/

/-- **The tables of a loader are borne out** by some moments — they fit each other, there are copies only
if they are to be kept, and each has stood on the disk at one of the moments. -/
structure IsBorneOut (worlds : List World) (l : Loader) : Prop where
  sound : l.IsSound
  none_kept : l.settings.cache = false → l.copies = []
  stood : ∀ {n r}, Table.get? l.copies n = some r → ∃ w ∈ worlds, r.StandsIn w

theorem isBorneOut_start (worlds : List World) (settings : LoaderSettings) :
    IsBorneOut worlds { settings } where
  sound := isSound_start settings
  none_kept _ := rfl
  stood h := by simp at h

theorem IsBorneOut.answer (h : l.IsBorneOut worlds) (hw : w ∈ worlds) (request : Request) :
    (l.answer w request).2.IsBorneOut worlds where
  sound := h.sound.answer w request
  none_kept hcache := by
    rw [settings_answer] at hcache
    exact (files_answer w l request).eq_nil hcache (h.none_kept hcache)
  stood hr := by
    rcases (files_answer w l request).old_or_standsIn hr with hr | hstands
    · exact h.stood hr
    · exact ⟨w, hw, hstands⟩

/-- **Tables stay borne out** by the moments at which the loader is asked something. -/
theorem IsBorneOut.after (h : l.IsBorneOut worlds) {events : List Event}
    (hevents : ∀ e ∈ events, e.world ∈ worlds) : (l.after events).IsBorneOut worlds := by
  induction events generalizing l with
  | nil => exact h
  | cons e events ih =>
    obtain ⟨he, hevents⟩ := List.forall_mem_cons.1 hevents
    exact ih (h.answer he e.request) hevents

theorem settings_after (l : Loader) (events : List Event) :
    (l.after events).settings = l.settings := by
  induction events generalizing l with
  | nil => rfl
  | cons e events ih => exact (ih _).trans (settings_answer e.world l e.request)

/-- **The tables of a loader are sound.**

Ask a loader what you like, in whatever order, while files are written, edited and removed.  Whatever it
keeps a copy of has been looked at; the copy is filed under its own name and bears the name of the loader;
and it has the text and the time that the file at its path had together when the loader was asked something
before.  A loader that is to keep no copies has none.  And whatever it is asked next, in whatever world: if
that fails, then the copies are those that it had. -/
theorem tables_sound (settings : LoaderSettings) (events : List Event) :
    let l := Loader.after { settings } events
    (∀ n r, Table.get? l.copies n = some r →
      (Table.get? l.checks n).isSome ∧ r.name = n ∧ r.loader = settings.name ∧
        ∃ e ∈ events, r.StandsIn e.world) ∧
    (settings.cache = false → l.copies = []) ∧
    ∀ (w : World) (request : Request) (e : IoError),
      (l.answer w request).1 = .error e → (l.answer w request).2.copies = l.copies := by
  intro l
  have hl : l.IsBorneOut (events.map Event.world) :=
    (isBorneOut_start _ settings).after fun e he => List.mem_map_of_mem he
  have hsettings : l.settings = settings := settings_after _ events
  refine ⟨fun n r hr => ?_, fun hcache => hl.none_kept (hsettings ▸ hcache),
    fun w request e he => (he ▸ files_answer w l request).eq_of_error⟩
  obtain ⟨w, hw, hstands⟩ := hl.stood hr
  obtain ⟨e, he, rfl⟩ := List.mem_map.1 hw
  have hloader : r.loader = settings.name := (hl.sound.loader_eq hr).trans (by rw [Loader.name, hsettings])
  exact ⟨hl.sound.isChecked hr, hl.sound.name_eq hr, hloader, e, he, hstands⟩

end Loader

end QueryPress
