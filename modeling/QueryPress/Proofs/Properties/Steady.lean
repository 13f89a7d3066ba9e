import QueryPress.Merge.Lookup
import QueryPress.Proofs.Disk.Aging
import QueryPress.Proofs.Properties.Remembering
import QueryPress.Proofs.Table

/-!
# Proofs/Properties/Steady — sources that keep what they have while they are asked

The clock goes on while a template is merged, and a source may come due before it is asked again.  A source
that is *up to date* has nothing to read then (`Source.IsCurrent`), and it is *steady* if it is up to date
whenever it comes due (`Source.IsSteady`).  Steady sources keep what they have, however often they are asked
and however much time passes meanwhile (`Source.IsSteady.fresh`), so what a registry shows stays the same
(`Registry.Shows.insert_fresh`).
-/

namespace QueryPress.Properties

variable {w w' : World} {s : Source} {registry : Registry} {shown : Table (Table String)} {n : String}

/-! ## A look at the file -/

/-- **What a source has after it has looked at its file** — the contents of the file if it is time to look
and the file, which is a text, is later than the snapshot; and else what it has had. -/
inductive Source.Finds (w : World) (s : Source) : Table String → Prop
  | latest {bytes : ByteArray} {t : Instant} {text : String} : s.isDue w.now = true →
      w.entry s.path = .ok (.file bytes t) → String.fromUTF8? bytes = some text →
      s.snapshot.modified < t → Finds w s (read text)
  | last : (∀ bytes t text, s.isDue w.now = true → w.entry s.path = .ok (.file bytes t) →
      String.fromUTF8? bytes = some text → t ≤ s.snapshot.modified) → Finds w s s.snapshot.values

theorem Source.finds_fresh (w : World) (s : Source) : s.Finds w (s.fresh w).snapshot.values := by
  obtain ⟨hdue, hs⟩ | ⟨hdue, hkept, hs⟩ | ⟨hdue, houtdated, snapshot, hread, hs⟩ := fresh_cases w s <;>
    rw [hs]
  · refine .last fun _ _ _ hdue' => ?_
    rw [hdue] at hdue'
    cases hdue'
  · refine .last fun bytes t text _ hentry hdecode => Nat.not_lt.1 fun hlt => ?_
    have hread := Snapshot.ofFile_eq_ok.2 ⟨bytes, t, text, hentry, hdecode, rfl⟩
    obtain ⟨e, he⟩ := hkept ((isOutdated_of_ofFile hread).2 hlt)
    cases he.symm.trans hread
  · have hlater := (isOutdated_of_ofFile hread).1 houtdated
    obtain ⟨bytes, t, text, hentry, hdecode, rfl⟩ := Snapshot.ofFile_eq_ok.1 hread
    exact .latest hdue hentry hdecode hlater

@[simp] theorem Source.path_fresh (w : World) (s : Source) : (s.fresh w).path = s.path := by
  obtain ⟨-, hs⟩ | ⟨-, -, hs⟩ | ⟨-, -, snapshot, -, hs⟩ := fresh_cases w s <;> rw [hs]

/-- A source that is not due stays as it is. -/
theorem Source.fresh_of_not_isDue (h : s.isDue w.now = false) : s.fresh w = s := by
  obtain ⟨-, hs⟩ | ⟨hdue, -⟩ | ⟨hdue, -⟩ := fresh_cases w s
  · exact hs
  all_goals
    rw [h] at hdue
    cases hdue

/-! ## Sources that are up to date -/

/-- **A source is up to date** — its file is not later than its snapshot, or cannot be read. -/
def Source.IsCurrent (w : World) (s : Source) : Prop :=
  ∀ snapshot, Snapshot.ofFile w s.path = .ok snapshot → snapshot.modified ≤ s.snapshot.modified

instance : Decidable (s.IsCurrent w) :=
  match hread : Snapshot.ofFile w s.path with
  | .ok snapshot => decidable_of_iff (snapshot.modified ≤ s.snapshot.modified)
      ⟨fun h _ heq => Except.ok.inj (hread.symm.trans heq) ▸ h, fun h => h snapshot hread⟩
  | .error _ => isTrue fun _ heq => nomatch hread.symm.trans heq

/-- Whether a source is up to date depends on nothing but what stands at its path. -/
theorem Source.IsCurrent.of_entry (h : s.IsCurrent w) (hentry : w'.entry s.path = w.entry s.path) :
    s.IsCurrent w' := by
  intro snapshot hread
  rw [Snapshot.ofFile_eq_ok, hentry, ← Snapshot.ofFile_eq_ok] at hread
  exact h snapshot hread

theorem Source.IsCurrent.later (h : s.IsCurrent w) (asked : Nat) : s.IsCurrent (w.later asked) :=
  h.of_entry rfl

/-- **A source that is up to date keeps its snapshot**, and stays up to date. -/
theorem Source.IsCurrent.fresh (h : s.IsCurrent w) :
    (s.fresh w).snapshot = s.snapshot ∧ (s.fresh w).IsCurrent w := by
  obtain ⟨-, hs⟩ | ⟨-, -, hs⟩ | ⟨-, houtdated, snapshot, hread, -⟩ := fresh_cases w s
  · rw [hs]
    exact ⟨rfl, h⟩
  · rw [hs]
    exact ⟨rfl, h⟩
  · exact absurd (h snapshot hread) (Nat.not_le.2 ((isOutdated_of_ofFile hread).1 houtdated))

/-- **A source that was due is up to date** when it has looked. -/
theorem Source.isCurrent_fresh (hdue : s.isDue w.now = true) : (s.fresh w).IsCurrent w := by
  obtain ⟨hnot, -⟩ | ⟨-, hkept, hs⟩ | ⟨-, -, snapshot, hread, hs⟩ := fresh_cases w s
  · rw [hdue] at hnot
    cases hnot
  · rw [hs]
    intro snapshot hread
    refine Nat.not_lt.1 fun hlt => ?_
    obtain ⟨e, he⟩ := hkept ((isOutdated_of_ofFile hread).2 hlt)
    cases he.symm.trans hread
  · rw [hs]
    intro snapshot' hread'
    obtain rfl := Except.ok.inj (hread.symm.trans hread')
    exact Nat.le_refl _

/-! ## Sources that are steady -/

/-- **A source is steady** — whenever it comes due while a template is merged, it is up to date. -/
def Source.IsSteady (w : World) (s : Source) : Prop :=
  ∀ asked, s.isDue (w.later asked).now = true → s.IsCurrent w

theorem Source.IsCurrent.isSteady (h : s.IsCurrent w) : s.IsSteady w := fun _ _ => h

/-- **A steady source keeps its snapshot** when it is asked, and stays steady. -/
theorem Source.IsSteady.fresh (h : s.IsSteady w) (asked : Nat) :
    (s.fresh (w.later asked)).snapshot = s.snapshot ∧ (s.fresh (w.later asked)).IsSteady w := by
  cases hdue : s.isDue (w.later asked).now with
  | false =>
    rw [fresh_of_not_isDue hdue]
    exact ⟨rfl, h⟩
  | true =>
    obtain ⟨hsnapshot, hcurrent⟩ := ((h asked hdue).later asked).fresh
    have hcurrent : (s.fresh (w.later asked)).IsCurrent w := hcurrent.of_entry rfl
    exact ⟨hsnapshot, hcurrent.isSteady⟩

/-- **A source is overtaken by its file** while a template is merged — it comes due, and the file, which is
a text, is later than what it has. -/
def Source.IsOvertaken (w : World) (s : Source) (values : Table String) : Prop :=
  ∃ asked bytes t text, s.isDue (w.later asked).now = true ∧ w.entry s.path = .ok (.file bytes t) ∧
    String.fromUTF8? bytes = some text ∧ s.snapshot.modified < t ∧ values = read text

/-- **The steady sources are those that no file overtakes.** -/
theorem Source.isSteady_iff : s.IsSteady w ↔ ∀ values, ¬ s.IsOvertaken w values := by
  constructor
  · rintro h values ⟨asked, bytes, t, text, hdue, hentry, hdecode, hlater, -⟩
    exact absurd (h asked hdue _ (Snapshot.ofFile_eq_ok.2 ⟨bytes, t, text, hentry, hdecode, rfl⟩))
      (Nat.not_le.2 hlater)
  · intro h asked hdue snapshot hread
    obtain ⟨bytes, t, text, hentry, hdecode, rfl⟩ := Snapshot.ofFile_eq_ok.1 hread
    exact Nat.not_lt.1 fun hlater => h _ ⟨asked, bytes, t, text, hdue, hentry, hdecode, hlater, rfl⟩

/-- **A source waits** until a template has been merged in a world — it does not come due, neither before
nor meanwhile. -/
def Source.Waits (w : World) (s : Source) : Prop :=
  s.isDue w.now = false ∧ ∀ asked, s.isDue (w.later asked).now = false

/-- **A steady source is steady once more** while no file changes, if it waits or is up to date. -/
theorem Source.IsSteady.again (h : s.IsSteady w) (hu : w.Unchanged w')
    (hwait : s.interval ≠ 0 → ¬ s.IsCurrent w → s.Waits w') :
    (s.fresh w').snapshot = s.snapshot ∧ (s.fresh w').IsSteady w' := by
  by_cases hcurrent : s.IsCurrent w
  · obtain ⟨hsnapshot, hcurrent'⟩ := (hcurrent.of_entry (hu s.path)).fresh
    exact ⟨hsnapshot, hcurrent'.isSteady⟩
  · -- a source that looks every time is up to date, because it has come due in the first world
    have hinterval : s.interval ≠ 0 := fun hzero => hcurrent (h 0 (by simp [isDue, hzero]))
    obtain ⟨hnow, hlater⟩ := hwait hinterval hcurrent
    rw [fresh_of_not_isDue hnow]
    refine ⟨rfl, fun asked hdue => ?_⟩
    rw [hlater asked] at hdue
    cases hdue

/-! ## What a registry shows -/

/-- What a function reads from a snapshot, it reads from its values. -/
theorem read_values (f : Lookup) (snapshot : Snapshot) (key : String) (arguments : Table Json) :
    f.read snapshot key arguments = f.read ⟨snapshot.values, 0⟩ key arguments := by
  cases f with
  | value => rfl
  | list => simp only [Lookup.read, snapshot.list_eq]
  | set => simp only [Lookup.read, Snapshot.set, snapshot.list_eq]

namespace Registry

/-- The contents of the sources of a registry, as they were when the files were read last. -/
def contents (registry : Registry) : Table (Table String) :=
  registry.map fun p => (p.1, p.2.snapshot.values)

/-- **The sources of a registry are steady.** -/
def IsSteady (w : World) (registry : Registry) : Prop := ∀ p ∈ registry, p.2.IsSteady w

theorem isSteady_of_isCurrent (h : ∀ p ∈ registry, p.2.IsCurrent w) : registry.IsSteady w :=
  fun p hp => (h p hp).isSteady

/-- **A registry shows some contents**, and goes on showing them while a template is merged. -/
structure Shows (w : World) (shown : Table (Table String)) (registry : Registry) : Prop where
  contents : registry.contents = shown
  steady : registry.IsSteady w

theorem get?_contents (n : String) :
    Table.get? registry.contents n = (Table.get? registry n).map fun s => s.snapshot.values :=
  Table.get?_mapValues (fun s : Source => s.snapshot.values) registry n

theorem get?_fresh (w : World) (registry : Registry) (n : String) :
    Table.get? (registry.fresh w) n = (Table.get? registry n).map (Source.fresh w) :=
  Table.get?_mapValues (Source.fresh w) registry n

theorem contents_insert (n : String) :
    Registry.contents (Table.insert registry n s) = Table.insert registry.contents n s.snapshot.values :=
  Table.mapValues_insert (fun s : Source => s.snapshot.values) registry n s

@[simp] theorem keys_contents : Table.keys registry.contents = Table.keys registry := by
  simp [Table.keys, Registry.contents, Function.comp_def]

@[simp] theorem keys_fresh (w : World) (registry : Registry) :
    Table.keys (registry.fresh w) = Table.keys registry := by
  simp [Table.keys, Registry.fresh, Function.comp_def]

theorem inOrder_contents_fresh (w : World) (h : Table.InOrder registry) :
    Table.InOrder (registry.fresh w).contents := by
  rwa [Table.InOrder, keys_contents, keys_fresh]

/-- **Sources that wait or are up to date go on showing the same** while no file changes. -/
theorem Shows.again (h : registry.Shows w shown) (hu : w.Unchanged w')
    (hwait : ∀ p ∈ registry, p.2.interval ≠ 0 → ¬ p.2.IsCurrent w → p.2.Waits w') :
    (registry.fresh w').Shows w' shown where
  contents := by
    rw [← h.contents, Registry.contents, Registry.contents, Registry.fresh, List.map_map]
    refine List.map_congr_left fun p hp => ?_
    exact congrArg (fun snapshot => (p.1, snapshot.values))
      ((h.steady p hp).again hu (hwait p hp)).1
  steady p hp := by
    obtain ⟨q, hq, rfl⟩ := List.mem_map.1 hp
    exact ((h.steady q hq).again hu (hwait q hq)).2

/-- **To ask one source changes nothing of what a registry shows.** -/
theorem Shows.insert_fresh (hshown : Table.InOrder shown) (h : registry.Shows w shown)
    (hs : Table.get? registry n = some s) (asked : Nat) :
    Table.get? shown n = some (s.fresh (w.later asked)).snapshot.values ∧
      Registry.Shows w shown (Table.insert registry n (s.fresh (w.later asked))) := by
  obtain ⟨hsnapshot, hsteady⟩ := (h.steady _ (Table.mem_of_get? hs)).fresh asked
  have hshows : Table.get? shown n = some (s.fresh (w.later asked)).snapshot.values := by
    rw [← h.contents, registry.get?_contents, hs, hsnapshot, Option.map_some]
  refine ⟨hshows, ?_, fun p hp => ?_⟩
  · rw [contents_insert, h.contents]
    exact Table.insert_eq_self hshown hshows
  · rcases Table.mem_insert hp with rfl | hp
    · exact hsteady
    · exact h.steady p hp

end Registry

end QueryPress.Properties
