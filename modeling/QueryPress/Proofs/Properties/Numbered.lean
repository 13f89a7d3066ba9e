import QueryPress.Merge.Lookup
import QueryPress.Proofs.Properties.Remembering
import QueryPress.Proofs.Table
import QueryPress.Proofs.Text.Bytes
import QueryPress.Proofs.Text.Decimal

/-!
# Proofs/Properties/Numbered — lists and sets of numbered values

The list of a key is found by counting: `key.0`, `key.1`, and so on, until a number has no entry.  Nothing
bounds the count but the properties themselves, of which there are finitely many, while no two numbers make
one key (`numberedKey_inj`).  So one of the first numbers has no entry (`exists_missing`), the count ends
there, and the bound that `Snapshot.list` counts up to is never what stops it (`counts_list`).
-/

namespace QueryPress.Properties

namespace Snapshot

variable {s : Snapshot} {key : String} {i : Nat} {l : List String}

/-- **Counting up from a number** until an entry is missing, without a bound: the values on the way. -/
inductive Counts (s : Snapshot) (key : String) : Nat → List String → Prop where
  | missing {i : Nat} (h : s.get? (numberedKey key i) = none) : Counts s key i []
  | found {i : Nat} {v : String} {l : List String} (h : s.get? (numberedKey key i) = some v)
      (rest : Counts s key (i + 1) l) : Counts s key i (v :: l)

/-! ## Numbers and keys -/

/-- **No two numbers make one key.** -/
theorem numberedKey_inj {i j : Nat} : numberedKey key i = numberedKey key j ↔ i = j := by
  refine ⟨fun h => ?_, fun h => h ▸ rfl⟩
  rw [numberedKey, numberedKey, String.append_right_inj, Nat.toString_eq_repr, Nat.toString_eq_repr] at h
  exact Text.eq_of_toDigits (by rw [← Nat.toList_repr, h, Nat.toList_repr])

/-- **Among the first numbers one has no entry** — there are more of them than there are entries. -/
theorem exists_missing (s : Snapshot) (key : String) :
    ∃ n ≤ s.values.length, s.get? (numberedKey key n) = none := by
  refine Classical.byContradiction fun hnone => ?_
  have hkeys : (List.range (s.values.length + 1)).map (numberedKey key) ⊆ s.values.keys := by
    intro k hk
    obtain ⟨n, hn, rfl⟩ := List.mem_map.1 hk
    cases hget : s.get? (numberedKey key n) with
    | none => exact absurd ⟨n, Nat.le_of_lt_succ (List.mem_range.1 hn), hget⟩ hnone
    | some v => exact List.mem_map_of_mem (Table.mem_of_get? hget)
  have hnodup : ((List.range (s.values.length + 1)).map (numberedKey key)).Nodup :=
    List.pairwise_map.2 (List.nodup_range.imp fun hne heq => hne (numberedKey_inj.1 heq))
  have hle := hnodup.length_le_of_subset hkeys
  rw [Table.keys, List.length_map, List.length_map, List.length_range] at hle
  omega

/-! ## The count -/

/-- **What was counted is what stands under the numbers**, and the next number has no entry. -/
theorem Counts.exact (h : Counts s key i l) :
    (∀ j (hj : j < l.length), s.get? (numberedKey key (i + j)) = some l[j]) ∧
      s.get? (numberedKey key (i + l.length)) = none := by
  induction h with
  | missing h => exact ⟨nofun, h⟩
  | @found i v l h _ ih =>
    obtain ⟨hfound, hmissing⟩ := ih
    refine ⟨fun j hj => ?_, ?_⟩
    · cases j with
      | zero => exact h
      | succ j => exact Nat.add_right_comm i 1 j ▸ hfound j (Nat.lt_of_succ_lt_succ hj)
    · exact Nat.add_right_comm i 1 l.length ▸ hmissing

/-- **A count ends in one way.** -/
theorem Counts.unique {m : List String} (h : Counts s key i l) (h' : Counts s key i m) : l = m := by
  induction h generalizing m with
  | missing h =>
    cases h' with
    | missing => rfl
    | found h' => cases h.symm.trans h'
  | found h _ ih =>
    cases h' with
    | missing h' => cases h'.symm.trans h
    | found h' rest => rw [Option.some.inj (h.symm.trans h'), ih rest]

/-- **A bound that is not reached** before an entry is missing makes no difference. -/
theorem counts_listFrom {n j : Nat} (hj : j ≤ n) (h : s.get? (numberedKey key (i + j)) = none) :
    Counts s key i (s.listFrom key n i) := by
  induction n generalizing i j with
  | zero =>
    obtain rfl := Nat.le_zero.1 hj
    exact .missing h
  | succ n ih =>
    rw [listFrom]
    split
    · exact .missing ‹_›
    · rename_i v hv
      cases j with
      | zero => cases h.symm.trans hv
      | succ j => exact .found hv (ih (Nat.le_of_succ_le_succ hj) (by rwa [Nat.add_right_comm]))

/-- **The list of a key is the whole count**, which ends. -/
theorem counts_list (s : Snapshot) (key : String) : Counts s key 0 (s.list key) := by
  obtain ⟨n, hn, hmissing⟩ := s.exists_missing key
  exact counts_listFrom hn (by rwa [Nat.zero_add])

/-! ## The set -/

theorem mem_set {v : String} : v ∈ s.set key ↔ v ∈ s.list key := by
  rw [set, Table.mem_keys_ofList, List.map_map]
  simp

/-- **A set is in the order of the bytes** of its values, each of which is in it once. -/
theorem pairwise_set (s : Snapshot) (key : String) :
    (s.set key).Pairwise fun v v' => Text.bytes v < Text.bytes v' :=
  (Table.inOrder_ofList _).imp Text.lt_iff_bytes_lt.1

end Snapshot

/-! ## Whatever was asked before -/

/-- A snapshot that has answered some queries. -/
def Snapshot.asked (s : Snapshot) (qs : List Query) : Sheet :=
  qs.foldl (fun sheet q => (sheet.answer q).2) { snapshot := s }

theorem Snapshot.isTrue_asked (s : Snapshot) (qs : List Query) :
    (s.asked qs).IsTrue ∧ (s.asked qs).snapshot = s := by
  rw [asked]
  suffices h : ∀ sheet : Sheet, sheet.IsTrue → sheet.snapshot = s →
      (qs.foldl (fun sheet q => (sheet.answer q).2) sheet).IsTrue ∧
        (qs.foldl (fun sheet q => (sheet.answer q).2) sheet).snapshot = s from
    h _ (Sheet.isTrue_new s) rfl
  induction qs with
  | nil => exact fun _ htrue hs => ⟨htrue, hs⟩
  | cons q qs ih => exact fun sheet htrue hs => ih _ (htrue.answer q) (by rw [Sheet.snapshot_answer, hs])

/-- **What a function reads** is read from the snapshot of the source that is ready to answer. -/
theorem run_lookup (f : Lookup) {w : World} {registry : Registry} {arguments : Table Json}
    {name key : String} {source : Source} (hsource : Table.get? registry name = some source)
    (hname : Table.get? arguments "source" = some (.string name))
    (hkey : Table.get? arguments "key" = some (.string key)) :
    f.run w registry arguments =
      .ok (f.read (source.fresh w).snapshot key arguments,
        Table.insert registry name (source.fresh w)) := by
  have hthere : Table.has registry name = true := by rw [Table.has, hsource, Option.isSome_some]
  simp only [Lookup.run, Lookup.stringArgument, hname, hkey, Option.bind_some, Json.string?, bind,
    Except.bind, hthere, Registry.freshAt?, hsource, Option.map_some, Bool.not_true, Bool.false_eq_true,
    if_false]
  rfl

/-- **Lists and sets of numbered values are exact, and finding them ends.**

Whatever a snapshot was asked before, it answers for the list of a key with the values of `key.0`,
`key.1`, …, up to the first number without an entry: that is what counting without a bound ends with, and
the list is no longer than the properties are many.  The set has the values of that list, each once, in
the order of the bytes.  And the functions of templates give the same for every source of the registry
that has the snapshot when it is ready to answer. -/
theorem numbered_values (s : Snapshot) (qs : List Query) (key : String) :
    ∃ l m : List String,
      ((s.asked qs).answer (.list key)).1 = .texts l ∧ ((s.asked qs).answer (.set key)).1 = .texts m ∧
      (∀ l', s.Counts key 0 l' ↔ l' = l) ∧
      (∀ i (hi : i < l.length), s.get? (Snapshot.numberedKey key i) = some l[i]) ∧
      s.get? (Snapshot.numberedKey key l.length) = none ∧
      l.length ≤ s.values.length ∧
      (∀ v, v ∈ m ↔ v ∈ l) ∧ m.Pairwise (fun v v' => Text.bytes v < Text.bytes v') ∧
      ∀ (w : World) (registry : Registry) (name : String) (source : Source) (arguments : Table Json),
        Table.get? registry name = some source → (source.fresh w).snapshot = s →
        Table.get? arguments "source" = some (.string name) →
        Table.get? arguments "key" = some (.string key) →
        Lookup.list.run w registry arguments =
            .ok (.array (l.map .string), Table.insert registry name (source.fresh w)) ∧
          Lookup.set.run w registry arguments =
            .ok (.array (m.map .string), Table.insert registry name (source.fresh w)) := by
  obtain ⟨htrue, hs⟩ := s.isTrue_asked qs
  have hcounts := s.counts_list key
  obtain ⟨hfound, hmissing⟩ := hcounts.exact
  simp only [Nat.zero_add] at hfound hmissing
  refine ⟨s.list key, s.set key, ?_, ?_, fun l' => ⟨fun h => h.unique hcounts, fun h => h ▸ hcounts⟩,
    hfound, hmissing, s.length_list_le key, fun _ => Snapshot.mem_set, s.pairwise_set key, ?_⟩
  · rw [htrue.answer_eq, hs, Query.answer, ← Snapshot.list_eq]
  · rw [htrue.answer_eq, hs, Query.answer, Snapshot.set, ← Snapshot.list_eq, Snapshot.set]
  · rintro w registry name source arguments hsource rfl hname hkey
    exact ⟨run_lookup .list hsource hname hkey, run_lookup .set hsource hname hkey⟩

/-- The list of `a` begins at `a.0` and ends before `a.2`; neither `a.10` nor `a.0.0` is in it. -/
theorem numbered_values_two :
    let s : Snapshot :=
      ⟨[("a.0", "y"), ("a.0.0", "p"), ("a.1", "x"), ("a.10", "q")], 0⟩
    let source : Source := { name := "cfg", path := "cfg", interval := 1, snapshot := s, lastCheck := 0 }
    (((s.asked [.list "a.0", .set "a"]).answer (.list "a")).1 = .texts ["y", "x"]) ∧
      Lookup.list.run {} [("cfg", source)] [("key", .string "a"), ("source", .string "cfg")] =
        .ok (.array [.string "y", .string "x"], [("cfg", source)]) := by
  intro s source
  obtain ⟨l, m, hl, -, hcounts, -, -, -, -, -, hrun⟩ := numbered_values s [.list "a.0", .set "a"] "a"
  have hcount : s.Counts "a" 0 ["y", "x"] :=
    .found (by decide) (.found (by decide) (.missing (by decide)))
  obtain rfl := (hcounts _).1 hcount
  have hfresh : source.fresh {} = source := by simp [Source.fresh, Source.check, Source.isDue, source]
  have hrun := (hrun {} [("cfg", source)] "cfg" source [("key", .string "a"), ("source", .string "cfg")]
    (if_pos rfl) (by rw [hfresh]) (by simp [Table.get?]) (if_pos rfl)).1
  have hsame : Table.insert [("cfg", source)] "cfg" source = [("cfg", source)] := if_pos rfl
  exact ⟨hl, by rwa [hfresh, hsame] at hrun⟩

end QueryPress.Properties
