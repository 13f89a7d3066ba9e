import QueryPress.Proofs.Disk.Reading
import QueryPress.Proofs.Table
import QueryPress.Resource.Chain

/-!
# Proofs/Resource/Loading — what a loader answers, and what its answers leave behind

`load` answers with the copy it may still hand out (`kept?`), and without one with what stands on the
disk (`found`, which the tables have no part in).  Loading a name touches what the tables hold under
that name and nothing else, and an answer that is no failure is given again when it is asked for
again (`fst_load_load`) — so while the disk stands still the answers of a loader are one function of the
name.
-/

namespace QueryPress

namespace Loader

variable {w : World} {l l' : Loader} {name other : String} {r : Resource}

/-! ## What an operation does to the tables -/

@[simp] theorem copies_noteCheck (now : Instant) : (l.noteCheck now name).copies = l.copies := rfl

@[simp] theorem get?_checks_noteCheck (now : Instant) (n : String) :
    Table.get? (l.noteCheck now name).checks n
      = if n = name then some now else Table.get? l.checks n :=
  Table.get?_insert _ _ _ _

@[simp] theorem copies_claim (now : Instant) : (l.claim now name).2.copies = l.copies := by
  unfold claim
  split <;> rfl

@[simp] theorem get?_copies_evict (n : String) :
    Table.get? (l.evict name).copies n = if n = name then none else Table.get? l.copies n :=
  Table.get?_erase _ _ _

@[simp] theorem get?_checks_evict (n : String) :
    Table.get? (l.evict name).checks n = if n = name then none else Table.get? l.checks n :=
  Table.get?_erase _ _ _

theorem remember_of_cache (now : Instant) (h : l.settings.cache = true) :
    l.remember now r
      = { l.noteCheck now r.name with copies := Table.insert l.copies r.name r } := by
  simp [remember, h]

theorem remember_of_not_cache (now : Instant) (h : l.settings.cache = false) :
    l.remember now r = l.noteCheck now r.name := by
  simp [remember, h]

@[simp] theorem get?_copies_remember (now : Instant) (n : String) :
    Table.get? (l.remember now r).copies n
      = if l.settings.cache = true ∧ n = r.name then some r else Table.get? l.copies n := by
  cases hc : l.settings.cache
  · simp [remember_of_not_cache now hc]
  · simp [remember_of_cache now hc, Table.get?_insert]

@[simp] theorem get?_checks_remember (now : Instant) (n : String) :
    Table.get? (l.remember now r).checks n
      = if n = r.name then some now else Table.get? l.checks n := by
  cases hc : l.settings.cache
  · simp [remember_of_not_cache now hc]
  · simp [remember_of_cache now hc]

/-! ## What a loader answers -/

/-- What stands on the disk under a name. -/
def found (w : World) (l : Loader) (name : String) : Except IoError (Option Resource) :=
  match l.locate? w name with
  | none => .ok none
  | some path => (l.read w name path).map some

/-- The copy that may be handed out as it is. -/
def kept? (w : World) (l : Loader) (name : String) : Option Resource :=
  (l.copy? name).filter fun r => ! l.isDue w.now name || isCurrent w r

/-- A copy that is kept under a name is one of the copies. -/
theorem get?_of_copy? (h : l.copy? name = some r) : Table.get? l.copies name = some r := by
  simp only [copy?, Option.ite_none_right_eq_some] at h
  exact h.2

theorem get?_of_kept? (h : l.kept? w name = some r) : Table.get? l.copies name = some r :=
  get?_of_copy? (Option.filter_eq_some_iff.1 h).1

theorem found_congr (h : l.settings = l'.settings) : l.found w name = l'.found w name := by
  simp only [found, locate?, read, Loader.name, h]

/-- What is read of a file: its text and its time, under the name that was asked for. -/
theorem read_eq_ok {path : Path} (h : l.read w name path = .ok r) :
    w.readText path = .ok r.source ∧
      r = { name, loader := l.name, path, source := r.source,
            modified := (w.modified path).toOption } := by
  obtain ⟨text, htext, h⟩ := bind_eq_ok.1 h
  obtain rfl := Except.ok.inj h
  exact ⟨htext, rfl⟩

/-- **What is read stands in a file**, with the time of the file. -/
theorem read_eq_ok_iff {path : Path} : l.read w name path = .ok r ↔
    ∃ bytes t, w.entry path = .ok (.file bytes t) ∧ String.fromUTF8? bytes = some r.source ∧
      r = { name, loader := l.name, path, source := r.source, modified := some t } := by
  constructor
  · intro h
    obtain ⟨htext, hr⟩ := read_eq_ok h
    obtain ⟨bytes, t, hentry, hdecode⟩ := World.readText_eq_ok.1 htext
    rw [World.modified_of_entry hentry] at hr
    exact ⟨bytes, t, hentry, hdecode, hr⟩
  · rintro ⟨bytes, t, hentry, hdecode, hr⟩
    have htext := World.readText_eq_ok.2 ⟨bytes, t, hentry, hdecode⟩
    rw [hr]
    simp only [Loader.read, htext, World.modified_of_entry hentry, Except.toOption, bind, Except.bind,
      pure, Except.pure]

/-- **A search ends in one of three ways** — there is no file, it cannot be read, or it is read and
remembered. -/
theorem search_cases (w : World) (l : Loader) (name : String) :
    (l.locate? w name = none ∧ l.search w name = (.ok none, l.evict name)) ∨
    (∃ path e, l.locate? w name = some path ∧ l.read w name path = .error e ∧
      l.search w name = (.error e, l)) ∨
    (∃ path r, l.locate? w name = some path ∧ l.read w name path = .ok r ∧
      l.search w name = (.ok (some r), l.remember w.now r)) := by
  unfold search
  cases l.locate? w name with
  | none => exact .inl ⟨rfl, rfl⟩
  | some path =>
    cases hr : l.read w name path with
    | error e => exact .inr (.inl ⟨path, e, rfl, hr, by simp [hr]⟩)
    | ok r => exact .inr (.inr ⟨path, r, rfl, hr, by simp [hr]⟩)

/-- **A load hands out the copy that is kept or searches the disk**, perhaps with a look taken
down. -/
theorem load_cases (w : World) (l : Loader) (name : String) :
    (∃ r, l.copy? name = some r ∧ l.kept? w name = some r ∧
      l.load w name = (.ok (some r), (l.claim w.now name).2)) ∨
    (l.kept? w name = none ∧ ∃ l₁, (l₁ = l ∨ l₁ = l.noteCheck w.now name) ∧
      l.load w name = l₁.search w name) := by
  unfold load kept?
  cases hc : l.copy? name with
  | none => exact .inr ⟨rfl, l, .inl rfl, rfl⟩
  | some copy =>
    by_cases hd : l.isDue w.now name = true
    · by_cases hk : isCurrent w copy = true
      · exact .inl ⟨copy, rfl, by simp [Option.filter, hk], by simp [claim, hd, hk]⟩
      · exact .inr ⟨by simp [Option.filter, hd, hk], _, .inr rfl, by simp [claim, hd, hk]⟩
    · exact .inl ⟨copy, rfl, by simp [Option.filter, hd], by simp [claim, hd]⟩

theorem fst_search : (l.search w name).1 = l.found w name := by
  unfold found
  obtain ⟨hl, h⟩ | ⟨path, e, hl, hr, h⟩ | ⟨path, r, hl, hr, h⟩ := search_cases w l name <;>
    simp [h, hl]
  · simp [hr, Except.map]
  · simp [hr, Except.map]

/-- What a search has found was read, and is remembered. -/
theorem exists_read_of_search (h : (l.search w name).1 = .ok (some r)) :
    ∃ path, l.locate? w name = some path ∧ l.read w name path = .ok r ∧
      l.search w name = (.ok (some r), l.remember w.now r) := by
  obtain ⟨-, hs⟩ | ⟨path, e, -, -, hs⟩ | ⟨path, found, hloc, hread, hs⟩ := search_cases w l name <;>
    rw [hs] at h <;> cases h
  exact ⟨path, hloc, hread, hs⟩

/-- **What a load answers** — the copy that is kept, else what stands on the disk. -/
theorem fst_load :
    (l.load w name).1 = match l.kept? w name with
      | some r => .ok (some r)
      | none => l.found w name := by
  obtain ⟨r, -, hk, h⟩ | ⟨hk, l₁, hl₁, h⟩ := load_cases w l name
  · rw [h, hk]
  · rw [h, hk, fst_search]
    rcases hl₁ with rfl | rfl <;> rfl

/-! ## What a load leaves behind -/

/-- Two loaders with the same settings hold the same under a name. -/
structure SameAt (name : String) (l l' : Loader) : Prop where
  settings : l.settings = l'.settings
  copies : Table.get? l.copies name = Table.get? l'.copies name
  checks : Table.get? l.checks name = Table.get? l'.checks name

theorem SameAt.refl (name : String) (l : Loader) : SameAt name l l := ⟨rfl, rfl, rfl⟩

theorem SameAt.symm (h : SameAt name l l') : SameAt name l' l :=
  ⟨h.settings.symm, h.copies.symm, h.checks.symm⟩

theorem SameAt.trans {l'' : Loader} (h : SameAt name l l') (h' : SameAt name l' l'') :
    SameAt name l l'' :=
  ⟨h.settings.trans h'.settings, h.copies.trans h'.copies, h.checks.trans h'.checks⟩

theorem SameAt.copy?_eq (h : SameAt name l l') : l.copy? name = l'.copy? name := by
  simp only [copy?, h.settings, h.copies]

theorem SameAt.isDue_eq {now : Instant} (h : SameAt name l l') :
    l.isDue now name = l'.isDue now name := by
  simp only [isDue, h.settings, h.checks]

theorem SameAt.kept?_eq (h : SameAt name l l') : l.kept? w name = l'.kept? w name := by
  simp only [kept?, h.copy?_eq, h.isDue_eq]

/-- What is held under a name decides what is answered for it. -/
theorem SameAt.fst_load_eq (h : SameAt name l l') : (l.load w name).1 = (l'.load w name).1 := by
  rw [fst_load, fst_load, h.kept?_eq, found_congr h.settings]

theorem sameAt_noteCheck (now : Instant) (h : other ≠ name) :
    SameAt other (l.noteCheck now name) l :=
  ⟨rfl, rfl, by simp [h]⟩

theorem sameAt_claim (now : Instant) (h : other ≠ name) :
    SameAt other (l.claim now name).2 l := by
  unfold claim
  split
  · exact sameAt_noteCheck now h
  · exact .refl _ _

theorem sameAt_search (h : other ≠ name) : SameAt other (l.search w name).2 l := by
  obtain ⟨-, hs⟩ | ⟨path, e, -, -, hs⟩ | ⟨path, r, -, hr, hs⟩ := search_cases w l name <;> rw [hs]
  · exact ⟨rfl, by simp [h], by simp [h]⟩
  · exact .refl _ _
  · have hn : r.name = name := by rw [(read_eq_ok hr).2]
    exact ⟨settings_remember _ _ _, by simp [hn, h], by simp [hn, h]⟩

/-- **Loading a name leaves the tables alone under every other name.** -/
theorem sameAt_load (h : other ≠ name) : SameAt other (l.load w name).2 l := by
  obtain ⟨r, -, -, hs⟩ | ⟨-, l₁, hl₁, hs⟩ := load_cases w l name <;> rw [hs]
  · exact sameAt_claim w.now h
  · refine (sameAt_search h).trans ?_
    rcases hl₁ with rfl | rfl
    · exact .refl _ _
    · exact sameAt_noteCheck w.now h

theorem sameAt_evict (h : other ≠ name) : SameAt other (l.evict name) l :=
  ⟨rfl, by simp [h], by simp [h]⟩

theorem settings_eq_of_load (w : World) (l : Loader) (name : String) :
    (l.load w name).2.settings = l.settings := by
  obtain ⟨r, -, -, hs⟩ | ⟨-, l₁, hl₁, hs⟩ := load_cases w l name <;> rw [hs]
  · simp
  · obtain ⟨-, hs⟩ | ⟨path, e, -, -, hs⟩ | ⟨path, r, -, -, hs⟩ := search_cases w l₁ name <;>
      rw [hs] <;> rcases hl₁ with rfl | rfl <;> simp

/-- A copy that is as the file is now is current. -/
theorem isCurrent_of_read {path : Path} (h : l.read w name path = .ok r) :
    isCurrent w r = true := by
  obtain ⟨bytes, t, hentry, -, hr⟩ := read_eq_ok_iff.1 h
  rw [hr]
  simp [isCurrent, World.modified_of_entry hentry, isLater]

/-- What a search has found is found again. -/
theorem fst_load_search {a : Option Resource} (h : (l.search w name).1 = .ok a) :
    ((l.search w name).2.load w name).1 = .ok a := by
  obtain ⟨hl, hs⟩ | ⟨path, e, hl, hr, hs⟩ | ⟨path, r, hl, hr, hs⟩ := search_cases w l name <;>
    rw [hs] at h ⊢
  · rw [← h, fst_load]
    have hk : (l.evict name).kept? w name = none := by simp [kept?, copy?]
    simp only [hk, found_congr (settings_evict l name)]
    simp [found, hl]
  · cases h
  · have hn : r.name = name := by rw [(read_eq_ok hr).2]
    rw [← h, fst_load]
    cases hc : l.settings.cache with
    | true =>
      have hk : (l.remember w.now r).kept? w name = some r := by
        simp [kept?, copy?, hc, hn, isCurrent_of_read hr]
      simp only [hk]
    | false =>
      have hk : (l.remember w.now r).kept? w name = none := by simp [kept?, copy?, hc]
      simp only [hk, found_congr (settings_remember l w.now r)]
      simp [found, hl, hr, Except.map]

/-- **A loader repeats itself** — an answer that is no failure is given again. -/
theorem fst_load_load {a : Option Resource} (h : (l.load w name).1 = .ok a) :
    ((l.load w name).2.load w name).1 = .ok a := by
  obtain ⟨r, hc, hk, hs⟩ | ⟨-, l₁, -, hs⟩ := load_cases w l name
  · rw [hs] at h ⊢
    rw [← h, fst_load]
    have hk' : (l.claim w.now name).2.kept? w name = some r := by
      unfold claim
      split
      · have hcur : isCurrent w r = true := by simpa [kept?, hc, Option.filter, *] using hk
        have hc' : (l.noteCheck w.now name).copy? name = some r := hc
        simp [kept?, hc', Option.filter, hcur]
      · exact hk
    simp only [hk']
  · rw [hs] at h ⊢
    exact fst_load_search h

/-- **While the disk stands still a loader's answers do not change** — loading one name changes no
answer, unless it fails. -/
theorem fst_load_load_of_ok {a : Option Resource} (h : (l.load w name).1 = .ok a) (other : String) :
    ((l.load w name).2.load w other).1 = (l.load w other).1 := by
  by_cases hn : other = name
  · rw [hn, fst_load_load h, h]
  · exact (sameAt_load hn).fst_load_eq

end Loader

end QueryPress
