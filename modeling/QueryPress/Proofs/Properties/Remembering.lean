import QueryPress.Properties.Shelf
import QueryPress.Proofs.Attempt
import QueryPress.Proofs.Disk.Reading

/-!
# Proofs/Properties/Remembering — what snapshots remember is true, and stays theirs

A snapshot answers a query as if it worked the answer out anew (`Sheet.IsTrue.answer_eq`), because all
that it remembers is what it would work out.  And nothing that is done to a source changes a snapshot that
it has had (`Shelf.Grows`): a reload puts a new one beside it.
-/

namespace QueryPress.Properties

variable {w : World} {q : Query} {i : Nat}

/-- **The answer from the contents of a file**, worked out anew. -/
def Query.answer (values : Table String) : Query → Answer
  | .get key => .text (values.get? key)
  | .list key => .texts (Snapshot.list ⟨values, 0⟩ key)
  | .set key => .texts (Snapshot.set ⟨values, 0⟩ key)
  | .keys => .texts values.keys
  | .value => .object (Snapshot.value ⟨values, 0⟩)

/-- **A snapshot is taken of a file that is a text**, and of nothing else. -/
theorem Snapshot.ofFile_eq_ok {path : Path} {snapshot : Snapshot} : ofFile w path = .ok snapshot ↔
    ∃ bytes t text, w.entry path = .ok (.file bytes t) ∧ String.fromUTF8? bytes = some text ∧
      snapshot = ⟨read text, t⟩ := by
  constructor
  · intro h
    obtain ⟨t, htime, h⟩ := bind_eq_ok.1 h
    obtain ⟨text, htext, h⟩ := bind_eq_ok.1 h
    obtain ⟨bytes, t', hentry, hdecode⟩ := World.readText_eq_ok.1 htext
    rw [World.modified_of_entry hentry] at htime
    obtain rfl := Except.ok.inj htime
    exact ⟨bytes, t', text, hentry, hdecode, (Except.ok.inj h).symm⟩
  · rintro ⟨bytes, t, text, hentry, hdecode, rfl⟩
    have htext : w.readText path = .ok text := World.readText_eq_ok.2 ⟨bytes, t, hentry, hdecode⟩
    simp only [ofFile, World.modified_of_entry hentry, htext, bind, Except.bind, pure, Except.pure]

/-! ## A look at the file -/

/-- A file that is a text is later than a snapshot if the next one would be. -/
theorem Source.isOutdated_of_ofFile {s : Source} {snapshot : Snapshot}
    (h : Snapshot.ofFile w s.path = .ok snapshot) :
    s.isOutdated w = true ↔ s.snapshot.modified < snapshot.modified := by
  obtain ⟨bytes, t, text, hentry, -, rfl⟩ := Snapshot.ofFile_eq_ok.1 h
  rw [isOutdated, World.modified_of_entry hentry, decide_eq_true_iff]

/-- **A source gets ready to answer in one of three ways** — it is not time to look at the file; the source
looks and keeps its snapshot, for the file is not later or cannot be read; or it takes a new one. -/
theorem Source.fresh_cases (w : World) (s : Source) :
    (s.isDue w.now = false ∧ s.fresh w = s) ∨
    (s.isDue w.now = true ∧ (s.isOutdated w = true → ∃ e, Snapshot.ofFile w s.path = .error e) ∧
      s.fresh w = { s with lastCheck := w.now }) ∨
    (s.isDue w.now = true ∧ s.isOutdated w = true ∧ ∃ snapshot, Snapshot.ofFile w s.path = .ok snapshot ∧
      s.fresh w = { s with lastCheck := w.now, snapshot }) := by
  unfold fresh check
  cases hdue : s.isDue w.now with
  | false => exact .inl ⟨rfl, rfl⟩
  | true =>
    cases houtdated : s.isOutdated w with
    | false => exact .inr (.inl ⟨rfl, fun h => absurd h Bool.false_ne_true, rfl⟩)
    | true =>
      simp only [if_true, reload]
      cases hread : Snapshot.ofFile w s.path with
      | error e => exact .inr (.inl ⟨trivial, fun _ => ⟨e, rfl⟩, rfl⟩)
      | ok snapshot => exact .inr (.inr ⟨trivial, trivial, snapshot, rfl, rfl⟩)

/-! ## All that is remembered is true -/

theorem Snapshot.listFrom_congr {s s' : Snapshot} (h : s.values = s'.values) (key : String) :
    ∀ n i, s.listFrom key n i = s'.listFrom key n i
  | 0, _ => rfl
  | n + 1, i => by
    have hget : s.get? (numberedKey key i) = s'.get? (numberedKey key i) := by
      rw [get?, get?, h]
    simp only [listFrom, hget, listFrom_congr h key n]

/-- Lists come from the values alone. -/
theorem Snapshot.list_eq (s : Snapshot) (key : String) : s.list key = list ⟨s.values, 0⟩ key := by
  have h := @listFrom_congr s ⟨s.values, 0⟩ rfl key s.values.length 0
  exact h

/-- What a table has under a key is what `f` makes of the key. -/
def Remembers (t : Table (List String)) (f : String → List String) : Prop :=
  ∀ key l, t.get? key = some l → l = f key

theorem Remembers.insert {t : Table (List String)} {f : String → List String} (h : Remembers t f)
    (key : String) : Remembers (t.insert key (f key)) f := by
  intro key' l hl
  rw [Table.get?_insert] at hl
  split at hl
  · rename_i heq
    exact heq ▸ (Option.some.inj hl).symm
  · exact h key' l hl

namespace Sheet

variable {s : Sheet}

/-- **What a snapshot remembers is what it would work out.** -/
structure IsTrue (s : Sheet) : Prop where
  lists : Remembers s.lists s.snapshot.list
  sets : Remembers s.sets s.snapshot.set
  object : ∀ v, s.object = some v → v = s.snapshot.value

theorem isTrue_new (snapshot : Snapshot) : IsTrue { snapshot } := ⟨nofun, nofun, nofun⟩

theorem IsTrue.answer (h : s.IsTrue) (q : Query) : (s.answer q).2.IsTrue := by
  cases q with
  | get key => exact h
  | keys => exact h
  | list key =>
    simp only [Sheet.answer]
    split
    · exact h
    · exact ⟨h.lists.insert key, h.sets, h.object⟩
  | set key =>
    simp only [Sheet.answer]
    split
    · exact h
    · exact ⟨h.lists, h.sets.insert key, h.object⟩
  | value =>
    simp only [Sheet.answer]
    split
    · exact h
    · exact ⟨h.lists, h.sets, fun v hv => (Option.some.inj hv).symm⟩

/-- **A snapshot answers from its contents**, whatever it was asked before. -/
theorem IsTrue.answer_eq (h : s.IsTrue) (q : Query) :
    (s.answer q).1 = q.answer s.snapshot.values := by
  cases q with
  | get key => rfl
  | keys => rfl
  | list key =>
    simp only [Sheet.answer, Query.answer, ← Snapshot.list_eq]
    split
    · rename_i l hl
      rw [h.lists key l hl]
    · rfl
  | set key =>
    have hset : s.snapshot.set key = Snapshot.set ⟨s.snapshot.values, 0⟩ key := by
      rw [Snapshot.set, Snapshot.set, ← Snapshot.list_eq]
    simp only [Sheet.answer, Query.answer, ← hset]
    split
    · rename_i l hl
      rw [h.sets key l hl]
    · rfl
  | value =>
    simp only [Sheet.answer, Query.answer]
    split
    · rename_i v hv
      rw [h.object v hv]
      rfl
    · rfl

end Sheet

namespace Shelf

variable {s s' s'' : Shelf}

/-- Every snapshot on the shelf remembers what is true. -/
def IsTrue (s : Shelf) : Prop := ∀ i, (s.sheet i).IsTrue

theorem IsTrue.of_sheets (htop : s.top.IsTrue) (holder : ∀ sheet ∈ s.older, sheet.IsTrue) :
    s.IsTrue := by
  intro i
  rw [sheet, List.getD_eq_getElem?_getD]
  cases h : s.older[i]? with
  | none => exact htop
  | some sheet => exact holder sheet (List.mem_of_getElem? h)

theorem sheet_length (s : Shelf) : s.sheet s.older.length = s.top := by
  simp [sheet]

theorem sheet_of_lt (h : i < s.older.length) : s.sheet i = s.older[i] := by
  simp [sheet, h]

theorem IsTrue.top (h : s.IsTrue) : s.top.IsTrue := s.sheet_length ▸ h _

theorem IsTrue.older (h : s.IsTrue) : ∀ sheet ∈ s.older, sheet.IsTrue := by
  intro sheet hin
  obtain ⟨i, hi, rfl⟩ := List.mem_iff_getElem.1 hin
  exact sheet_of_lt hi ▸ h i

theorem IsTrue.check (h : s.IsTrue) (w : World) : (s.check w).2.IsTrue := h

theorem IsTrue.reload (h : s.IsTrue) (w : World) : (s.reload w).IsTrue := by
  rw [Shelf.reload]
  split
  · refine .of_sheets (Sheet.isTrue_new _) fun sheet hin => ?_
    rcases List.mem_append.1 hin with hin | hin
    · exact h.older sheet hin
    · exact List.mem_singleton.1 hin ▸ h.top
  · exact h

theorem IsTrue.fresh (h : s.IsTrue) (w : World) : (s.fresh w).IsTrue := by
  simp only [Shelf.fresh]
  split
  · exact (h.check w).reload w
  · exact h.check w

theorem IsTrue.answer (h : s.IsTrue) (w : World) (q : Query) : (s.answer w q).2.IsTrue :=
  .of_sheets ((h.fresh w).top.answer q) (h.fresh w).older

theorem IsTrue.answerOf (h : s.IsTrue) (i : Nat) (q : Query) : (s.answerOf i q).2.IsTrue := by
  simp only [Shelf.answerOf]
  split
  · refine .of_sheets h.top fun sheet hin => ?_
    rcases List.mem_or_eq_of_mem_set hin with hin | rfl
    · exact h.older sheet hin
    · exact (h i).answer q
  · exact .of_sheets ((h i).answer q) h.older

/-! ## Snapshots stay as they were -/

/-- **Snapshots have come to a shelf**, if any, and none was changed; the shelf is still that of the same
file. -/
structure Grows (s s' : Shelf) : Prop where
  length : s.older.length ≤ s'.older.length
  snapshot : ∀ i ≤ s.older.length, (s'.sheet i).snapshot = (s.sheet i).snapshot
  path : s'.path = s.path
  interval : s'.interval = s.interval

theorem Grows.refl (s : Shelf) : Grows s s := ⟨Nat.le_refl _, fun _ _ => rfl, rfl, rfl⟩

theorem Grows.trans (h : Grows s s') (h' : Grows s' s'') : Grows s s'' where
  length := Nat.le_trans h.length h'.length
  snapshot i hi := (h'.snapshot i (Nat.le_trans hi h.length)).trans (h.snapshot i hi)
  path := h'.path.trans h.path
  interval := h'.interval.trans h.interval

theorem grows_check (w : World) (s : Shelf) : Grows s (s.check w).2 :=
  ⟨Nat.le_refl _, fun _ _ => rfl, rfl, rfl⟩

theorem grows_reload (w : World) (s : Shelf) : Grows s (s.reload w) := by
  rw [reload]
  split
  · refine ⟨by simp, fun i hi => ?_, rfl, rfl⟩
    rcases Nat.lt_or_eq_of_le hi with hi | rfl
    · simp [sheet, List.getElem?_append, hi]
    · simp [sheet]
  · exact .refl s

theorem grows_fresh (w : World) (s : Shelf) : Grows s (s.fresh w) := by
  simp only [fresh]
  split
  · exact (s.grows_check w).trans (grows_reload w _)
  · exact s.grows_check w

/-- An answer of the current snapshot changes no snapshot. -/
theorem grows_top (s : Shelf) (q : Query) : Grows s { s with top := (s.top.answer q).2 } := by
  refine ⟨Nat.le_refl _, fun i hi => ?_, rfl, rfl⟩
  rcases Nat.lt_or_eq_of_le hi with hi | rfl
  · simp [sheet, hi]
  · simp [sheet]

theorem grows_answer (w : World) (s : Shelf) (q : Query) : Grows s (s.answer w q).2 :=
  (s.grows_fresh w).trans (grows_top _ q)

theorem grows_answerOf (s : Shelf) (i : Nat) (q : Query) : Grows s (s.answerOf i q).2 := by
  simp only [answerOf]
  split
  · rename_i hi
    refine ⟨by simp, fun j _ => ?_, rfl, rfl⟩
    by_cases hij : i = j
    · subst hij
      simp [sheet, hi]
    · simp [sheet, List.getElem?_set_ne hij]
  · rename_i hi
    have htop : s.sheet i = s.top := by simp [sheet, Nat.not_lt.1 hi]
    rw [htop]
    exact s.grows_top q

theorem top_answerOf (s : Shelf) (i : Nat) (q : Query) :
    (s.answerOf i q).2.top.snapshot = s.top.snapshot := by
  simp only [answerOf]
  split
  · rfl
  · rename_i hi
    simp [sheet, Nat.not_lt.1 hi]

/-- **A reload brings the present contents** if they can be read. -/
theorem top_reload (w : World) (s : Shelf) :
    (s.reload w).top.snapshot.values =
      ((w.readText s.path).toOption.map read).getD s.top.snapshot.values := by
  cases htext : w.readText s.path with
  | error e =>
    have hfile : ∀ snapshot, Snapshot.ofFile w s.path ≠ .ok snapshot := by
      intro snapshot hok
      obtain ⟨t, -, hok⟩ := bind_eq_ok.1 hok
      obtain ⟨text, hread, -⟩ := bind_eq_ok.1 hok
      rw [htext] at hread
      cases hread
    rw [reload]
    split
    · exact absurd ‹_› (hfile _)
    · rfl
  | ok text =>
    obtain ⟨t, ht⟩ := World.modified_of_isFile (World.isFile_of_readText htext)
    simp [reload, Snapshot.ofFile, ht, htext, bind, Except.bind, pure, Except.pure,
      Except.toOption]

end Shelf

end QueryPress.Properties
