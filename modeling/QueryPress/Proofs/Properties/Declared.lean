import QueryPress.Proofs.Disk.Resolving
import QueryPress.Proofs.Properties.Remembering
import QueryPress.Proofs.Table
import QueryPress.Properties.Registry

/-!
# Proofs/Properties/Declared — of the usable declarations with one name the first counts

A registry is built from declarations that may be unusable, and may have each other's names.  A declaration
*provides* a name if that is what templates are to call it and its file is a text; what is under a name
then comes from the first declaration that provides it (`Registry.opened_of_get?`).  So a declaration in
front that cannot be used stands in nobody's way.

That the declarations that do not count may as well not be there (`Thinned.foldl_addDeclared`) goes by
induction on the declarations.  What carries it is that the registry so far has every name that one of the
declarations in front provides (`Registry.Covers`), which adding one more keeps.
-/

namespace QueryPress.Properties

variable {w : World} {base : Path} {common : Nat} {d : Declaration} {s : Source} {n m : String}
  {ds ds' before : List Declaration} {r : Registry}

/-! ## One declaration -/

/-- **What templates are to call a file** — the name that is declared for it, without the white space around
it, and if that leaves nothing or none is declared, the name of the file without its extension. -/
inductive Declaration.IsCalled (d : Declaration) : String → Prop
  | declared {name n : String} : d.name = some name → Text.IsTrimmed name n → n ≠ "" → IsCalled d n
  | stem {file n : String} : (∀ name, d.name = some name → Text.IsTrimmed name "") →
      d.path.LeadsToFile file → Path.HasStem file n → IsCalled d n

/-- **A declaration provides a name** — templates are to call it so, and where its path leads there is a
file whose bytes are a text. -/
structure Declaration.Provides (w : World) (base : Path) (d : Declaration) (n : String) : Prop where
  called : d.IsCalled n
  file : ∃ path bytes t text, Path.StandsFor w.home base d.path path ∧ w.entry path = .ok (.file bytes t) ∧
    String.fromUTF8? bytes = some text

/-- **A source has been opened for a declaration** — it has the contents of the file, and looks at it again
after the interval of the declaration, or after the common one if that has none. -/
structure Source.IsOpenedFor (w : World) (base : Path) (common : Nat) (d : Declaration) (s : Source) :
    Prop where
  path : Path.StandsFor w.home base d.path s.path
  interval : ∀ own, d.interval = some own → s.interval = own
  no_interval : d.interval = none → s.interval = common
  contents : ∃ bytes text, w.entry s.path = .ok (.file bytes s.snapshot.modified) ∧
    String.fromUTF8? bytes = some text ∧ s.snapshot.values = read text
  looked : s.lastCheck = w.now

theorem Declaration.logicalName?_eq_some : d.logicalName? = some n ↔ d.IsCalled n := by
  rw [logicalName?]
  constructor
  · intro h
    cases hname : d.name with
    | none =>
      rw [hname] at h
      obtain ⟨file, hfile, hstem⟩ := Path.fileStem?_eq_some_iff.1 h
      exact .stem (by simp [hname]) hfile hstem
    | some name =>
      rw [hname, Option.map_some] at h
      by_cases hblank : Text.trimmed name = ""
      · obtain ⟨file, hfile, hstem⟩ := Path.fileStem?_eq_some_iff.1 (by simpa [hblank] using h)
        refine .stem (fun name' hname' => ?_) hfile hstem
        obtain rfl := Option.some.inj (hname.symm.trans hname')
        exact Text.trimmed_eq_iff.1 hblank
      · obtain rfl : Text.trimmed name = n := by simpa [hblank] using h
        exact .declared hname (Text.isTrimmed_trimmed name) hblank
  · rintro (⟨hname, htrimmed, hblank⟩ | ⟨hblank, hfile, hstem⟩)
    · obtain rfl := Text.trimmed_eq_iff.2 htrimmed
      simp [hname, hblank]
    · have hstem := Path.fileStem?_eq_some_iff.2 ⟨_, hfile, hstem⟩
      cases hname : d.name with
      | none => simpa using hstem
      | some name => simpa [Text.trimmed_eq_iff.2 (hblank name hname)] using hstem

/-- A file is opened if and only if it is a text. -/
theorem Source.ofFile_eq_ok {path : Path} {interval : Nat} :
    ofFile w n path interval = .ok s ↔ ∃ bytes t text, w.entry path = .ok (.file bytes t) ∧
      String.fromUTF8? bytes = some text ∧
      s = { name := n, path, interval, snapshot := ⟨read text, t⟩, lastCheck := w.now } := by
  refine bind_eq_ok.trans ⟨?_, ?_⟩
  · rintro ⟨snapshot, hsnapshot, h⟩
    obtain ⟨bytes, t, text, hentry, hdecode, rfl⟩ := Snapshot.ofFile_eq_ok.1 hsnapshot
    exact ⟨bytes, t, text, hentry, hdecode, (Except.ok.inj h).symm⟩
  · rintro ⟨bytes, t, text, hentry, hdecode, rfl⟩
    exact ⟨_, Snapshot.ofFile_eq_ok.2 ⟨bytes, t, text, hentry, hdecode, rfl⟩, rfl⟩

/-- **A declaration has a source under the name that it provides**, opened for it. -/
theorem Registry.ofDeclaration?_eq_some (h : ofDeclaration? w base common d = some s) :
    d.Provides w base s.name ∧ s.IsOpenedFor w base common d := by
  obtain ⟨name, hname, h⟩ := Option.bind_eq_some_iff.1 h
  dsimp only at h
  rw [Option.ite_none_right_eq_some] at h
  have hok : Source.ofFile w name (Path.resolve w.home base d.path) (d.effectiveInterval common) = .ok s :=
    eq_ok_of_toOption h.2
  obtain ⟨bytes, t, text, hentry, hdecode, rfl⟩ := Source.ofFile_eq_ok.1 hok
  have hpath := Path.resolve_eq_iff.1 (Eq.refl (Path.resolve w.home base d.path))
  refine ⟨⟨Declaration.logicalName?_eq_some.1 hname, _, bytes, t, text, hpath, hentry, hdecode⟩, ?_⟩
  exact {
    path := hpath
    interval := fun own hown => by simp [Declaration.effectiveInterval, hown]
    no_interval := fun hnone => by simp [Declaration.effectiveInterval, hnone]
    contents := ⟨bytes, text, hentry, hdecode, rfl⟩
    looked := rfl }

/-- **A declaration that provides a name has a source.** -/
theorem Declaration.Provides.source (h : d.Provides w base n) (common : Nat) :
    ∃ s, Registry.ofDeclaration? w base common d = some s ∧ s.name = n := by
  obtain ⟨path, bytes, t, text, hpath, hentry, hdecode⟩ := h.file
  obtain rfl := Path.resolve_eq_iff.2 hpath
  have hfile : w.isFile (Path.resolve w.home base d.path) = true := World.isFile_iff.2 ⟨bytes, t, hentry⟩
  have hok : Source.ofFile w n (Path.resolve w.home base d.path) (d.effectiveInterval common)
      = .ok { name := n, path := Path.resolve w.home base d.path, interval := d.effectiveInterval common,
              snapshot := ⟨read text, t⟩, lastCheck := w.now } :=
    Source.ofFile_eq_ok.2 ⟨bytes, t, text, hentry, hdecode, rfl⟩
  rw [Registry.ofDeclaration?, Declaration.logicalName?_eq_some.2 h.called, Option.bind_eq_bind,
    Option.bind_some]
  dsimp only
  rw [hfile, if_pos rfl, hok]
  exact ⟨_, rfl, rfl⟩

/-! ## Many declarations -/

namespace Registry

/-- **A source is added where nothing is** under its name. -/
theorem get?_addNew (r : Registry) (s : Source) (n : String) : Table.get? (r.addNew s) n
    = (Table.get? r n).or (if s.name = n then some s else none) := by
  rw [addNew, Table.has]
  by_cases hn : s.name = n
  · subst hn
    cases hthere : Table.get? r s.name with
    | none => simp [Table.get?_insert]
    | some s' => simp [hthere]
  · rw [if_neg hn, Option.or_none]
    split
    · rfl
    · exact Table.get?_insert_of_ne r s (Ne.symm hn)

theorem get?_foldl_addNew (ss : List Source) (r : Registry) (n : String) :
    Table.get? (ss.foldl addNew r) n = (Table.get? r n).or (ss.find? (·.name = n)) := by
  induction ss generalizing r with
  | nil => rw [List.foldl_nil, List.find?_nil, Option.or_none]
  | cons s ss ih =>
    rw [List.foldl_cons, ih, get?_addNew, Option.or_assoc, List.find?_cons]
    by_cases hn : s.name = n
    · simp [hn]
    · simp [hn]

/-- **What is under a name comes from the first declaration that provides it.** -/
theorem get?_ofDeclarations (n : String) : Table.get? (ofDeclarations w base common ds) n
    = (ds.find? fun d => (ofDeclaration? w base common d).any (·.name = n)).bind
        (ofDeclaration? w base common) := by
  rw [ofDeclarations, get?_foldl_addNew, Table.get?_nil, Option.none_or, List.find?_filterMap]

theorem any_ofDeclaration? : (ofDeclaration? w base common d).any (·.name = n) = true ↔
    d.Provides w base n := by
  rw [Option.any_eq_true]
  constructor
  · rintro ⟨s, hs, hname⟩
    exact of_decide_eq_true hname ▸ (ofDeclaration?_eq_some hs).1
  · intro h
    obtain ⟨s, hs, hname⟩ := h.source common
    exact ⟨s, hs, decide_eq_true hname⟩

theorem has_ofDeclarations : Table.has (ofDeclarations w base common ds) n = true ↔
    ∃ d ∈ ds, d.Provides w base n := by
  rw [Table.has, get?_ofDeclarations]
  constructor
  · intro h
    obtain ⟨s, hs⟩ := Option.isSome_iff_exists.1 h
    obtain ⟨d, hd, -⟩ := Option.bind_eq_some_iff.1 hs
    have hprovides := List.find?_some hd
    exact ⟨d, List.mem_of_find?_eq_some hd, any_ofDeclaration?.1 hprovides⟩
  · rintro ⟨d, hd, hprovides⟩
    have hfound : (ds.find? fun d => (ofDeclaration? w base common d).any (·.name = n)).isSome = true :=
      List.find?_isSome.2 ⟨d, hd, any_ofDeclaration?.2 hprovides⟩
    obtain ⟨d', hd'⟩ := Option.isSome_iff_exists.1 hfound
    have hprovides' := List.find?_some hd'
    obtain ⟨s, hs, -⟩ := (any_ofDeclaration?.1 hprovides').source common
    rw [hd', Option.bind_some, hs]
    rfl

/-- **A source was opened for the first declaration that provides its name.** -/
theorem opened_of_get? (h : Table.get? (ofDeclarations w base common ds) n = some s) :
    s.name = n ∧ ∃ before d after, ds = before ++ d :: after ∧
      (∀ d' ∈ before, ¬ d'.Provides w base n) ∧ d.Provides w base n ∧ s.IsOpenedFor w base common d := by
  rw [get?_ofDeclarations] at h
  obtain ⟨d, hd, hs⟩ := Option.bind_eq_some_iff.1 h
  obtain ⟨hprovides, before, after, rfl, hbefore⟩ := List.find?_eq_some_iff_append.1 hd
  have hname : s.name = n := by simpa [hs] using hprovides
  refine ⟨hname, before, d, after, rfl, fun d' hd' hprovides' => ?_, any_ofDeclaration?.1 hprovides,
    (ofDeclaration?_eq_some hs).2⟩
  have hnot := hbefore d' hd'
  rw [any_ofDeclaration?.2 hprovides'] at hnot
  cases hnot

end Registry

/-! ## Declarations that do not count -/

/-- **Declarations are thinned** behind some others — some of those that provide no name have been taken
out, and some of those whose name is provided in front of them. -/
inductive Thinned (w : World) (base : Path) : (before ds ds' : List Declaration) → Prop
  | done {before : List Declaration} : Thinned w base before [] []
  | kept {before ds ds' : List Declaration} {d : Declaration} :
      Thinned w base (before ++ [d]) ds ds' → Thinned w base before (d :: ds) (d :: ds')
  | unusable {before ds ds' : List Declaration} {d : Declaration} :
      (∀ n, ¬ d.Provides w base n) → Thinned w base (before ++ [d]) ds ds' →
      Thinned w base before (d :: ds) ds'
  | repeated {before ds ds' : List Declaration} {d d' : Declaration} {n : String} :
      d.Provides w base n → d' ∈ before → d'.Provides w base n →
      Thinned w base (before ++ [d]) ds ds' → Thinned w base before (d :: ds) ds'

namespace Registry

/-- A registry with one more declaration, if that can be used and its name is new. -/
def addDeclared (w : World) (base : Path) (common : Nat) (r : Registry) (d : Declaration) : Registry :=
  match ofDeclaration? w base common d with
  | some s => r.addNew s
  | none => r

theorem ofDeclarations_eq_foldl : ofDeclarations w base common ds
    = ds.foldl (addDeclared w base common) [] := by
  rw [ofDeclarations, List.foldl_filterMap]
  congr 1
  funext r d
  rw [addDeclared]
  cases ofDeclaration? w base common d <;> rfl

/-- A registry covers declarations — it has every name that one of them provides. -/
def Covers (w : World) (base : Path) (r : Registry) (ds : List Declaration) : Prop :=
  ∀ d ∈ ds, ∀ n, d.Provides w base n → Table.has r n = true

theorem has_addNew : Table.has (r.addNew s) n = true ↔ Table.has r n = true ∨ s.name = n := by
  rw [Table.has, Table.has, get?_addNew]
  by_cases hn : s.name = n <;> simp [hn]

theorem has_addDeclared : Table.has (r.addDeclared w base common d) n = true ↔
    Table.has r n = true ∨ d.Provides w base n := by
  rw [addDeclared, ← @any_ofDeclaration? w base common d n]
  cases ofDeclaration? w base common d with
  | none => simp
  | some s => simp [has_addNew]

theorem covers_snoc : r.Covers w base (before ++ [d]) ↔
    r.Covers w base before ∧ ∀ n, d.Provides w base n → Table.has r n = true := by
  rw [Covers, List.forall_mem_append, List.forall_mem_singleton]
  rfl

/-- With one more declaration a registry covers that one, too. -/
theorem Covers.addDeclared (h : r.Covers w base before) (common : Nat) (d : Declaration) :
    (r.addDeclared w base common d).Covers w base (before ++ [d]) :=
  covers_snoc.2 ⟨fun d' hd' n hn => has_addDeclared.2 (.inl (h d' hd' n hn)),
    fun _ hn => has_addDeclared.2 (.inr hn)⟩

/-- **A declaration that provides nothing new does not count.** -/
theorem addDeclared_eq_self (h : ∀ n, d.Provides w base n → Table.has r n = true) :
    r.addDeclared w base common d = r := by
  rw [addDeclared]
  split
  · rename_i s hs
    rw [addNew, if_pos (h s.name (ofDeclaration?_eq_some hs).1)]
  · rfl

end Registry

/-- **A declaration provides one name at most.** -/
theorem Declaration.Provides.unique (h : d.Provides w base n) (h' : d.Provides w base m) : n = m :=
  Option.some.inj ((logicalName?_eq_some.2 h.called).symm.trans (logicalName?_eq_some.2 h'.called))

/-- **Thinned declarations add to a registry what all of them add** if it covers those in front. -/
theorem Thinned.foldl_addDeclared (h : Thinned w base before ds ds') (common : Nat)
    (hr : r.Covers w base before) : ds'.foldl (Registry.addDeclared w base common) r
      = ds.foldl (Registry.addDeclared w base common) r := by
  induction h generalizing r with
  | done => rfl
  | kept _ ih => exact ih (hr.addDeclared common _)
  | @unusable before ds ds' d hnone _ ih =>
    have hold : ∀ m, d.Provides w base m → Table.has r m = true := fun m hm => absurd hm (hnone m)
    rw [List.foldl_cons, Registry.addDeclared_eq_self hold, ih (Registry.covers_snoc.2 ⟨hr, hold⟩)]
  | @repeated before ds ds' d d' n hprovides hd' hprovides' _ ih =>
    have hold : ∀ m, d.Provides w base m → Table.has r m = true :=
      fun m hm => hm.unique hprovides ▸ hr d' hd' n hprovides'
    rw [List.foldl_cons, Registry.addDeclared_eq_self hold, ih (Registry.covers_snoc.2 ⟨hr, hold⟩)]

/-- **Of the usable declarations with one name the first counts, and the others do not.**

A registry is made of any declarations, and has a name if and only if one of them provides it.  What is
under the name has been opened for the first that does, whatever stands in front of that one and cannot be
used.  And it is the registry of the declarations without those that provide no name and those whose name
one in front of them provides, whether all of these are left out or some. -/
theorem first_usable_declaration (w : World) (base : Path) (common : Nat) (ds : List Declaration) :
    (∀ n, Table.has (Registry.ofDeclarations w base common ds) n = true ↔
      ∃ d ∈ ds, d.Provides w base n) ∧
    (∀ n s, Table.get? (Registry.ofDeclarations w base common ds) n = some s →
      s.name = n ∧ ∃ before d after, ds = before ++ d :: after ∧
        (∀ d' ∈ before, ¬ d'.Provides w base n) ∧ d.Provides w base n ∧ s.IsOpenedFor w base common d) ∧
    ∀ ds', Thinned w base [] ds ds' →
      Registry.ofDeclarations w base common ds' = Registry.ofDeclarations w base common ds := by
  refine ⟨fun n => Registry.has_ofDeclarations, fun n s => Registry.opened_of_get?, fun ds' hthinned => ?_⟩
  rw [Registry.ofDeclarations_eq_foldl, Registry.ofDeclarations_eq_foldl]
  exact hthinned.foldl_addDeclared common fun d hd => nomatch hd

end QueryPress.Properties
