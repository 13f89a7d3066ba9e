import QueryPress.Proofs.Press.Merging
import QueryPress.Proofs.Properties.Numbered

/-!
# Proofs/Press/Context — names and functions tell of the same contents

A template comes to the properties of a source in two ways: by the name of the source, which stands for an
object of all of them, and by functions, each of which makes the source ready to answer once more.  Both
tell of the same contents (`Press.context_agrees`), unless the source comes due while the template is merged
and is overtaken by its file: then the functions go over to what the file has, and the name goes on standing
for what the source has had (`Press.not_functionsTellOfNames`).

What carries this is how a source goes on from what it is when the rendering begins
(`Registry.During.goesOn`): once it has looked at its file, it is up to date and stays so.
-/

namespace QueryPress

namespace Properties

variable {w : World} {s s' : Source} {registry r : Registry} {n : String}

/-! ## The moments of a rendering -/

/-- **The sources are so in a rendering** at some time — they are made ready when it begins, and functions
ask them, one after the other, while the clock goes on and the files stay as they are. -/
inductive Registry.During (w : World) (registry : Registry) : Registry → Prop
  | ready : During w registry (registry.fresh w)
  | asked {r : Registry} {n : String} {s : Source} (asked : Nat) : During w registry r →
      Table.get? r n = some s → During w registry (Table.insert r n (s.fresh (w.later asked)))

/-- **A source goes on from another** — it still waits; or it has looked at its file and is up to date, and
has what the other has had or, if the file has overtaken that, what the file has. -/
inductive Source.GoesOn (w : World) (s : Source) : Source → Prop
  | waiting : GoesOn w s s
  | looked {s' : Source} : s'.IsCurrent w → s'.snapshot = s.snapshot → GoesOn w s s'
  | overtaken {s' : Source} : s'.IsCurrent w → s.IsOvertaken w s'.snapshot.values → GoesOn w s s'

/-- **A source goes on however often it is asked.** -/
theorem Source.GoesOn.fresh (h : s.GoesOn w s') (asked : Nat) :
    s.GoesOn w (s'.fresh (w.later asked)) := by
  have hkeeps (hcurrent : s'.IsCurrent w) : (s'.fresh (w.later asked)).snapshot = s'.snapshot ∧
      (s'.fresh (w.later asked)).IsCurrent w := by
    obtain ⟨hsnapshot, hafter⟩ := (hcurrent.later asked).fresh
    exact ⟨hsnapshot, hafter.of_entry rfl⟩
  cases h with
  | waiting =>
    obtain ⟨-, hs⟩ | ⟨hdue, -, hs⟩ | ⟨hdue, houtdated, snapshot, hread, hs⟩ :=
      fresh_cases (w.later asked) s
    · rw [hs]
      exact .waiting
    · exact .looked ((isCurrent_fresh hdue).of_entry rfl) (by rw [hs])
    · have hlater := (isOutdated_of_ofFile hread).1 houtdated
      obtain ⟨bytes, t, text, hentry, hdecode, rfl⟩ := Snapshot.ofFile_eq_ok.1 hread
      exact .overtaken ((isCurrent_fresh hdue).of_entry rfl)
        ⟨asked, bytes, t, text, hdue, hentry, hdecode, hlater, by rw [hs]⟩
  | looked hcurrent hsnapshot =>
    obtain ⟨hkept, hafter⟩ := hkeeps hcurrent
    exact .looked hafter (hkept.trans hsnapshot)
  | overtaken hcurrent hovertaken =>
    obtain ⟨hkept, hafter⟩ := hkeeps hcurrent
    exact .overtaken hafter (by rwa [hkept])

/-- What a source has is what the one before has had, or what the file has. -/
theorem Source.GoesOn.values (h : s.GoesOn w s') :
    s'.snapshot.values = s.snapshot.values ∨ s.IsOvertaken w s'.snapshot.values := by
  cases h with
  | waiting => exact .inl rfl
  | looked _ hsnapshot => exact .inl (by rw [hsnapshot])
  | overtaken _ hovertaken => exact .inr hovertaken

/-- **Every source goes on** from what it is when the rendering begins. -/
theorem Registry.During.goesOn (h : During w registry r) (hs : Table.get? registry n = some s) :
    ∃ s', Table.get? r n = some s' ∧ (s.fresh w).GoesOn w s' := by
  induction h with
  | ready => exact ⟨s.fresh w, by rw [get?_fresh, hs, Option.map_some], .waiting⟩
  | @asked r m t asked _ ht ih =>
    obtain ⟨s', hs', hgoes⟩ := ih
    by_cases hname : n = m
    · obtain rfl := hname
      obtain rfl : s' = t := Option.some.inj (hs'.symm.trans ht)
      exact ⟨_, by rw [Table.get?_insert, if_pos rfl], hgoes.fresh asked⟩
    · exact ⟨s', by rw [Table.get?_insert, if_neg hname, hs'], hgoes⟩

end Properties

/-! ## What names stand for, and what functions say -/

namespace Press

open Properties (Registry Source Snapshot)

variable {w : World} {registry r : Registry} {vars : Table Json} {n key : String}
  {arguments : Table Json} {values : Table String}

/-- Some properties as one object. -/
def objectOf (values : Table String) : Table Json := values.mapValues .string

/-- **A name stands for what the variables say**, and else for an object of what a source shows. -/
theorem get?_context (hvars : Table.InOrder vars) (r : Registry) (n : String) :
    Table.get? (context r vars) n
      = (Table.get? vars n).or ((Table.get? r.contents n).map fun values => .object (objectOf values)) := by
  have hobjects : (r.map fun p => (p.1, p.2.snapshot.value))
      = Table.mapValues (fun values => .object (objectOf values)) r.contents := by
    rw [Registry.contents, Table.mapValues, List.map_map]
    rfl
  rw [context, Table.get?_override hvars, hobjects, Table.get?_mapValues]

/-- **What a function says of a key is told by an object** — the member with that key or what stands in
for it, the members with the key's numbers up to the first number without one, or the texts among those,
each once and in the order of the bytes. -/
inductive IsTold (members : Table Json) (key : String) (arguments : Table Json) : Lookup → Json → Prop
  | member {v : Json} : Table.get? members key = some v → IsTold members key arguments .value v
  | standIn {v : Json} : Table.get? members key = none → Table.get? arguments "default" = some v →
      IsTold members key arguments .value v
  | null : Table.get? members key = none → Table.get? arguments "default" = none →
      IsTold members key arguments .value .null
  | list {l : List Json} :
      (∀ i (hi : i < l.length), Table.get? members (Snapshot.numberedKey key i) = some l[i]) →
      Table.get? members (Snapshot.numberedKey key l.length) = none →
      IsTold members key arguments .list (.array l)
  | set {l : List Json} {m : List String} : IsTold members key arguments .list (.array l) →
      (∀ v, v ∈ m ↔ .string v ∈ l) → m.Pairwise (fun v v' => Text.bytes v < Text.bytes v') →
      IsTold members key arguments .set (.array (m.map .string))

/-- What stands under the first numbers, up to the first under which nothing stands, is one list. -/
theorem eq_of_numbered {α : Type} {at? : Nat → Option α} {l l' : List α}
    (h : ∀ i (hi : i < l.length), at? i = some l[i]) (hend : at? l.length = none)
    (h' : ∀ i (hi : i < l'.length), at? i = some l'[i]) (hend' : at? l'.length = none) : l = l' := by
  have hle : l.length ≤ l'.length :=
    Nat.not_lt.1 fun hlt => Option.some_ne_none _ ((h _ hlt).symm.trans hend')
  have hge : l'.length ≤ l.length :=
    Nat.not_lt.1 fun hlt => Option.some_ne_none _ ((h' _ hlt).symm.trans hend)
  exact List.ext_getElem (Nat.le_antisymm hle hge) fun i hi hi' =>
    Option.some.inj ((h i hi).symm.trans (h' i hi'))

/-- Texts in the order of their bytes are told by which they are. -/
theorem eq_of_mem_iff {m m' : List String} (h : m.Pairwise fun v v' => Text.bytes v < Text.bytes v')
    (h' : m'.Pairwise fun v v' => Text.bytes v < Text.bytes v') (hmem : ∀ v, v ∈ m ↔ v ∈ m') : m = m' := by
  have hascending : m.Pairwise (· < ·) := h.imp Text.lt_iff_bytes_lt.2
  have hascending' : m'.Pairwise (· < ·) := h'.imp Text.lt_iff_bytes_lt.2
  have hperm : m.Perm m' :=
    (List.perm_ext_iff_of_nodup (hascending.imp String.ne_of_lt) (hascending'.imp String.ne_of_lt)).2 hmem
  exact hperm.eq_of_pairwise (fun v v' _ _ hlt hlt' => absurd hlt' (String.lt_asymm hlt)) hascending
    hascending'

/-- **An object tells one thing** of each key. -/
theorem IsTold.unique {members : Table Json} {f : Lookup} {v v' : Json}
    (h : IsTold members key arguments f v) (h' : IsTold members key arguments f v') : v = v' := by
  induction h generalizing v' with
  | member hmember =>
    cases h' with
    | member hmember' => exact Option.some.inj (hmember.symm.trans hmember')
    | standIn hnone => cases hnone.symm.trans hmember
    | null hnone => cases hnone.symm.trans hmember
  | standIn hnone hdefault =>
    cases h' with
    | member hmember => cases hnone.symm.trans hmember
    | standIn _ hdefault' => exact Option.some.inj (hdefault.symm.trans hdefault')
    | null _ hdefault' => cases hdefault'.symm.trans hdefault
  | null hnone hdefault =>
    cases h' with
    | member hmember => cases hnone.symm.trans hmember
    | standIn _ hdefault' => cases hdefault.symm.trans hdefault'
    | null => rfl
  | list hfound hmissing =>
    cases h' with
    | list hfound' hmissing' =>
      exact congrArg Json.array (eq_of_numbered hfound hmissing hfound' hmissing')
  | @set l m _ hmem hordered ih =>
    cases h' with
    | @set l' m' hlist' hmem' hordered' =>
      obtain rfl : l = l' := Json.array.inj (ih hlist')
      rw [eq_of_mem_iff hordered hordered' fun v => (hmem v).trans (hmem' v).symm]

/-- **What a function reads from contents, their object tells.** -/
theorem isTold_read (values : Table String) (key : String) (arguments : Table Json) (f : Lookup) :
    IsTold (objectOf values) key arguments f (f.read ⟨values, 0⟩ key arguments) := by
  have hget (key : String) : Table.get? (objectOf values) key = (Table.get? values key).map .string :=
    Table.get?_mapValues _ values key
  have hlist : IsTold (objectOf values) key arguments .list
      (.array ((Snapshot.list ⟨values, 0⟩ key).map .string)) := by
    obtain ⟨hfound, hmissing⟩ := (Snapshot.counts_list ⟨values, 0⟩ key).exact
    simp only [Nat.zero_add] at hfound hmissing
    refine .list (fun i hi => ?_) ?_
    · rw [List.length_map] at hi
      rw [hget, List.getElem_map]
      exact congrArg (Option.map Json.string) (hfound i hi)
    · rw [hget, List.length_map]
      exact congrArg (Option.map Json.string) hmissing
  cases f with
  | value =>
    have hsame : Snapshot.get? ⟨values, 0⟩ key = Table.get? values key := rfl
    simp only [Lookup.read, hsame]
    cases hvalue : Table.get? values key with
    | some v => exact .member (by rw [hget, hvalue, Option.map_some])
    | none =>
      have hnone : Table.get? (objectOf values) key = none := by rw [hget, hvalue, Option.map_none]
      cases hdefault : Table.get? arguments "default" with
      | some v => exact .standIn hnone hdefault
      | none => exact .null hnone hdefault
  | list => exact hlist
  | set =>
    refine .set hlist (fun v => ?_) (Snapshot.pairwise_set _ _)
    rw [Snapshot.mem_set, List.mem_map]
    constructor
    · exact fun hv => ⟨v, hv, rfl⟩
    · rintro ⟨v', hv', heq⟩
      exact Json.string.inj heq ▸ hv'

/-- **What the names stand for when a rendering begins** — a variable, or a source that has looked. -/
theorem get?_context_fresh (hvars : Table.InOrder vars) (n : String) :
    Table.get? (context (registry.fresh w) vars) n = (Table.get? vars n).or
      ((Table.get? registry n).map fun source =>
        .object (objectOf (source.fresh w).snapshot.values)) := by
  rw [get?_context hvars, Registry.get?_contents, Registry.get?_fresh, Option.map_map, Option.map_map]
  rfl

/-- **Names stand for the sources and the variables, and functions say what the names stand for.**

When a rendering begins, the names that stand for something are those of the sources and those of the
variables.  A name of a variable stands for its value.  Every other one stands for an object of what its
source has after a look at the file, whatever has become of that and however long the source waits between
looks.  At every moment of the rendering, the functions say of every key of a source what that object
tells, also where a variable hides the object; only if the source has been overtaken by its file meanwhile,
they may say what an object of the file's contents tells.  And a rendering leads to nothing but such
moments. -/
theorem context_agrees (w : World) {registry : Registry} {vars : Table Json}
    (hvars : Table.InOrder vars) :
    (∀ n, n ∈ Table.keys (context (registry.fresh w) vars) ↔
      n ∈ Table.keys registry ∨ n ∈ Table.keys vars) ∧
    (∀ n v, Table.get? vars n = some v → Table.get? (context (registry.fresh w) vars) n = some v) ∧
    (∀ n source, Table.get? registry n = some source → ∃ values, source.Finds w values ∧
      (Table.get? vars n = none →
        Table.get? (context (registry.fresh w) vars) n = some (.object (objectOf values))) ∧
      Table.get? (context (registry.fresh w) []) n = some (.object (objectOf values)) ∧
      ∀ r, registry.During w r → ∀ (asked : Nat) (f : Lookup) (key : String) (arguments : Table Json),
        Table.get? arguments "source" = some (.string n) →
        Table.get? arguments "key" = some (.string key) →
        ∃ told v r', (told = values ∨ (source.fresh w).IsOvertaken w told) ∧
          f.run (w.later asked) r arguments = .ok (v, r') ∧ registry.During w r' ∧
          ∀ v', IsTold (objectOf told) key arguments f v' ↔ v' = v) ∧
    ∀ compiler buffers t,
      registry.During w (render w { registry, compiler, buffers } t vars).2.2.registry := by
  have hnames := @get?_context_fresh w registry vars hvars
  have hbare := @get?_context_fresh w registry [] .nil
  refine ⟨fun n => ?_, fun n v hv => ?_, fun n source hsource => ?_, fun compiler buffers t => ?_⟩
  · rw [Table.mem_keys_iff, Table.mem_keys_iff, Table.mem_keys_iff, Table.has, Table.has, Table.has,
      hnames, Option.isSome_or, Option.isSome_map, Bool.or_eq_true, or_comm]
  · rw [hnames, hv, Option.some_or]
  · refine ⟨_, source.finds_fresh w, fun hfree => ?_, ?_, ?_⟩
    · rw [hnames, hfree, hsource, Option.none_or, Option.map_some]
    · rw [hbare, hsource, Table.get?_nil, Option.none_or, Option.map_some]
    · intro r hduring asked f key arguments hname hkey
      obtain ⟨s, hs, hgoes⟩ := hduring.goesOn hsource
      have hrun := Properties.run_lookup f (w := w.later asked) hs hname hkey
      rw [Properties.read_values] at hrun
      have htold := isTold_read (s.fresh (w.later asked)).snapshot.values key arguments f
      exact ⟨_, _, _, (hgoes.fresh asked).values, hrun, hduring.asked asked hs,
        fun v' => ⟨fun h => h.unique htold, fun h => h ▸ htold⟩⟩
  · rw [sources_render, mergeBundle_eq]
    exact Scene.merge_keeps (fun asked _ _ _ hduring hs => hduring.asked asked hs) .ready

/-- The file of a source is gone, and a variable hides what the source has had, which `prop` still says. -/
theorem context_agrees_hidden :
    let source : Source :=
      { name := "cfg", path := "/cfg", interval := 0, snapshot := ⟨[("size", "5")], 1⟩, lastCheck := 0 }
    let registry : Registry := [("cfg", source)]
    Table.get? (context (registry.fresh {}) [("cfg", .bool true)]) "cfg" = some (.bool true) ∧
      ∃ r', Lookup.value.run (World.later {} 0) (registry.fresh {})
        [("key", .string "size"), ("source", .string "cfg")] = .ok (.string "5", r') := by
  intro source registry
  have hvars : Table.InOrder [("cfg", Json.bool true)] := List.pairwise_singleton _ _
  obtain ⟨-, hhides, hsources, -⟩ := @context_agrees {} registry _ hvars
  obtain ⟨values, hfinds, -, -, hsays⟩ := hsources "cfg" source (if_pos rfl)
  have hgone : World.entry {} "/cfg" = .error .notFound := rfl
  have hvalues : values = [("size", "5")] := by
    cases hfinds with
    | latest _ hentry => cases hgone.symm.trans hentry
    | last => rfl
  obtain ⟨told, v, r', htold, hrun, -, hsaid⟩ := hsays _ .ready 0 .value "size"
    [("key", .string "size"), ("source", .string "cfg")] rfl rfl
  have htold : told = [("size", "5")] := by
    obtain htold | ⟨_, _, _, _, _, hentry, -⟩ := htold
    · rw [htold, hvalues]
    · rw [Source.path_fresh] at hentry
      cases hgone.symm.trans hentry
  have hmember : Table.get? (objectOf told) "size" = some (.string "5") := by
    rw [htold]
    rfl
  obtain rfl : Json.string "5" = v := (hsaid _).1 (.member hmember)
  exact ⟨hhides "cfg" _ (if_pos rfl), r', hrun⟩

/-! ## A source that is overtaken -/

/-- What one would say without a thought of the clock: while no file changes, functions say what the object
tells that the name of their source stands for. -/
def FunctionsTellOfNames : Prop :=
  ∀ (w : World) (registry r : Registry) (n : String) (members : Table Json), registry.During w r →
    Table.get? (context (registry.fresh w) []) n = some (.object members) →
    ∀ (asked : Nat) (f : Lookup) (key : String) (arguments : Table Json) (v : Json) (r' : Registry),
      Table.get? arguments "source" = some (.string n) →
      Table.get? arguments "key" = some (.string key) →
      f.run (w.later asked) r arguments = .ok (v, r') → IsTold members key arguments f v

/-- **Functions may tell of something else**: the file has been edited, but the source is not due when the
rendering begins; a second later it is, and `prop` says what the file has. -/
theorem not_functionsTellOfNames : ¬ FunctionsTellOfNames := by
  intro hclaim
  let w : World :=
    { disk := { entries := [(["cfg"], .file "size=7".toUTF8 2)] }, outside := { elapsed := fun _ => 1 } }
  let source : Source :=
    { name := "cfg", path := "/cfg", interval := 1000, snapshot := ⟨[("size", "5")], 1⟩, lastCheck := 0 }
  let registry : Registry := [("cfg", source)]
  let arguments : Table Json := [("key", .string "size"), ("source", .string "cfg")]
  have hfresh : source.fresh w = source := Source.fresh_of_not_isDue (by decide)
  have hsource : Table.get? (registry.fresh w) "cfg" = some source := by
    have hthere : Table.get? registry "cfg" = some source := if_pos rfl
    rw [Registry.get?_fresh, hthere, Option.map_some, hfresh]
  have hname : Table.get? (context (registry.fresh w) []) "cfg"
      = some (.object (objectOf source.snapshot.values)) := by
    have hnone : Table.InOrder ([] : Table Json) := .nil
    rw [get?_context hnone, Registry.get?_contents, hsource]
    rfl
  have hnow : (source.fresh (w.later 0)).snapshot.get? "size" = some "7" := by
    decide +kernel
  have hrun : Lookup.value.run (w.later 0) (registry.fresh w) arguments = .ok (_, _) :=
    Properties.run_lookup .value hsource rfl rfl
  have htold := hclaim w registry _ "cfg" _ .ready hname 0 .value "size" arguments _ _ rfl rfl hrun
  simp only [Lookup.read, hnow] at htold
  have hold := Json.string.inj (htold.unique (.member (v := .string "5") rfl))
  exact absurd hold (by decide)

end Press

end QueryPress
