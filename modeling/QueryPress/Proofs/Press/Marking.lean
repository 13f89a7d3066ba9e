import QueryPress.Proofs.Press.InMemory
import QueryPress.Proofs.Press.Removal
import QueryPress.Proofs.Template.Marking

/-!
# Proofs/Press/Marking — what a press makes of texts that are marked, and of all others

Whatever a host does with a press, its compiler keeps the marker and the working directory of the settings,
and its first loader reads that directory (`Usage.Run.isSetUp`).  So a text that is marked is written to a
file, without the line that marks it, and read back from there (`isFiled_of_compileMaterialized`); any other
text is compiled in memory as it is.  Which texts are marked is settled by their first line, and a marker
works for all of them or for none (`marked_texts`, `not_everyMarkerWorks`).
-/

namespace QueryPress

variable {w w' w₀ : World} {k k' : Compiler} {u u' : Usage} {t : Template} {s : Settings} {p : Press}
  {name : Option String} {options : Table String} {directory : Path} {source body : String}

/-! ## A compiler and its settings -/

namespace Compiler

/-- **A compiler is set up** — it has the marker and the working directory of its settings, and loaders in a
sound state, of which the first keeps for good what it finds in that directory. -/
structure IsSetUp (marker : String) (directory : Path) (k : Compiler) : Prop where
  marker : k.marker = marker
  workingDirectory : k.workingDirectory = directory
  settings : ∃ others : List LoaderSettings, k.chain.map Loader.settings =
    { name := Settings.ephemeralLoader, paths := [directory], cache := true,
      checkInterval := .never } :: others
  sound : k.chain.IsSound

theorem kept_compile (w : World) (k : Compiler) (name : Option String) (source : String)
    (options : Table String) :
    (k.compile w name source options).2.1.marker = k.marker ∧
      (k.compile w name source options).2.1.workingDirectory = k.workingDirectory := by
  obtain ⟨n, h⟩ | ⟨asked, -, ⟨-, h⟩ | ⟨-, h⟩⟩ := compile_ways w k name source options <;> rw [h]
  · exact ⟨rfl, rfl⟩
  · simp only [compileEphemeral, and_self]
  · obtain ⟨serial, hm | ⟨v, -, ⟨e, c, -, hm⟩ | ⟨bundle, c, -, hm⟩⟩⟩ :=
      k.compileMaterialized_ways w name (Strategy.classify k.marker source).2 options <;> rw [hm] <;>
      exact ⟨rfl, rfl⟩

theorem kept_remove (w : World) (k : Compiler) (t : Template) :
    (k.remove w t).1.marker = k.marker ∧ (k.remove w t).1.workingDirectory = k.workingDirectory := by
  rw [Compiler.remove]
  split
  · exact ⟨rfl, rfl⟩
  · split <;> exact ⟨rfl, rfl⟩

end Compiler

/-- A host changes neither the marker nor the working directory. -/
theorem Usage.Run.kept (hrun : Usage.Run u u') :
    u'.compiler.marker = u.compiler.marker ∧
      u'.compiler.workingDirectory = u.compiler.workingDirectory := by
  induction hrun with
  | start => exact ⟨rfl, rfl⟩
  | @step u' u'' _ hstep ih =>
    have hkept : u''.compiler.marker = u'.compiler.marker ∧
        u''.compiler.workingDirectory = u'.compiler.workingDirectory := by
      cases hstep with
      | compile w name source options _ => exact u'.compiler.kept_compile w name source options
      | remove w t => exact u'.compiler.kept_remove w t
      | _ => exact ⟨rfl, rfl⟩
    exact ⟨hkept.1.trans ih.1, hkept.2.trans ih.2⟩

/-- **Whatever a host does with a press, its compiler is set up** as the settings say. -/
theorem Usage.Run.isSetUp (hrun : Usage.Run { compiler := p.compiler } u)
    (hpress : Press.ofSettings w₀ s directory = .ok p) :
    u.compiler.IsSetUp s.cacheMarker directory := by
  obtain ⟨settings, hsettings, -, -, hdirectory⟩ := Press.chain_of_ofSettings hpress
  have hmarker : p.compiler.marker = s.cacheMarker := by
    simp only [Press.ofSettings] at hpress
    split at hpress
    · cases hpress
    · rw [← Except.ok.inj hpress]
  obtain ⟨hnames, hstart⟩ := Press.upholds_of_ofSettings hpress hsettings anyTrait
  have hchain := ((Usage.isKept_start hstart).run isRegular_anyTrait hnames hrun).chain
  obtain ⟨declared, -, hsettings⟩ := bind_eq_ok.1 hsettings
  obtain rfl := Except.ok.inj hsettings
  exact ⟨hrun.kept.1.trans hmarker, hrun.kept.2.trans hdirectory, ⟨_, hchain.settings_eq⟩, hchain.sound⟩

/-! ## Texts in files, and texts in memory -/

namespace Compiler

/-- **A template has its text in a file** — it was written to a file, which holds the text, and the text is
that of its entry and of its root. -/
structure IsFiled (w : World) (body : String) (t : Template) : Prop where
  strategy : t.strategy = .materialized
  file : ∃ path, t.path? = some path ∧ w.readText path = .ok body
  root : ∃ root, root.source = body ∧ t.bundle.KeepsRoot root

/-- **A template that was compiled in a file has its text there**, if the name of the file is one of which
no loader has a copy. -/
theorem isFiled_of_compileMaterialized {marker : String} (hk : k.IsSetUp marker directory)
    (hw : w.IsRooted) (hnew : ∀ l ∈ k.chain, l.copy? (k.nextFile w) = none)
    (h : k.compileMaterialized w name body options = (.ok t, k', w')) : IsFiled w' body t := by
  obtain ⟨n, hpath, hfile⟩ := k.exists_nextFile w
  obtain ⟨serial, hm | ⟨v, hwrite, ⟨e, c, -, hm⟩ | ⟨bundle, c, hbundle, hm⟩⟩⟩ :=
    k.compileMaterialized_ways w name body options <;> rw [hm] at h <;> cases h
  rw [hfile] at hnew hbundle
  have hread : w'.readText (k.nextPath w) = .ok body := by
    obtain ⟨-, at_, hplace, hat⟩ := World.entry_of_writeAt hwrite
    exact World.readText_eq_ok.2 ⟨_, _, World.entry_eq_ok.2 ⟨at_, hplace, hat⟩,
      World.fromUTF8?_toUTF8 body⟩
  refine ⟨rfl, ⟨_, rfl, hread⟩, ?_⟩
  -- the first loader finds the file, and the bundle is made of what it finds
  have hentry : w'.entry (k.workingDirectory.join (fileName n)) = .ok (.file body.toUTF8 w.now) :=
    entry_of_written (w := { w with serial }) ⟨hw.absolute, hw.straight⟩ (hpath ▸ hwrite)
  obtain ⟨others, hsettings⟩ := hk.settings
  rw [← hk.workingDirectory] at hsettings
  obtain ⟨l, ls, -, hfind⟩ := Chain.find_written hsettings (isConfined_fileName n) hnew hentry
  have hsound := hk.sound.find w' (fileName n)
  rw [compileNamed, Chain.resolve, hfind] at hbundle
  rw [hfind] at hsound
  exact ⟨_, rfl, Bundle.keepsRoot_of_ofRoot hsound (congrArg Prod.fst hbundle)⟩

/-- **A text goes to a file** — it is compiled in a file without its first line, and the template that is
made of it has the rest of the text there. -/
structure GoesToFile (k : Compiler) (source body : String) : Prop where
  marked : Strategy.classify k.marker source = (.materialized, body)
  compile : ∀ (w : World) (name : Option String) (options : Table String),
    Table.get? options Strategy.option = none →
      k.compile w name source options = k.compileMaterialized w name body options
  filed : ∀ (w w' : World) (name : Option String) (options : Table String) (t : Template) (k' : Compiler),
    Table.get? options Strategy.option = none → w.IsRooted →
      (∀ l ∈ k.chain, l.copy? (k.nextFile w) = none) →
      k.compile w name source options = (.ok t, k', w') → IsFiled w' body t

/-- **A text stays in memory** — it is compiled in memory as it is, and the template that is made of it has
that text for its entry and for its root. -/
structure StaysInMemory (k : Compiler) (source : String) : Prop where
  compile : ∀ (w : World) (name : Option String) (options : Table String),
    Table.get? options Strategy.option = none →
      k.compile w name source options = ((k.compileEphemeral w name source options).1,
        (k.compileEphemeral w name source options).2, w)
  kept : ∀ (w w' : World) (name : Option String) (options : Table String) (t : Template) (k' : Compiler),
    Table.get? options Strategy.option = none → k.compile w name source options = (.ok t, k', w') →
      t.strategy = .ephemeral ∧ t.origin = .inline ∧
        t.bundle.KeepsRoot (inlineResource (traceId source) source)

theorem ofOptions_of_get? (h : Table.get? options Strategy.option = none) :
    Strategy.ofOptions options = .ok none := by
  rw [Strategy.ofOptions, h]

theorem goesToFile_of_classify {marker : String} (hk : k.IsSetUp marker directory)
    (h : Strategy.classify marker source = (.materialized, body)) : k.GoesToFile source body := by
  rw [← hk.marker] at h
  have hcompile : ∀ (w : World) (name : Option String) (options : Table String),
      Table.get? options Strategy.option = none →
        k.compile w name source options = k.compileMaterialized w name body options := by
    intro w name options hoptions
    rw [Compiler.compile, h, ofOptions_of_get? hoptions]
    rfl
  refine ⟨h, hcompile, fun w w' name options t k' hoptions hw hnew hmade => ?_⟩
  rw [hcompile w name options hoptions] at hmade
  exact isFiled_of_compileMaterialized hk hw hnew hmade

theorem staysInMemory_of_classify {marker : String} (hk : k.IsSetUp marker directory)
    (h : Strategy.classify marker source = (.ephemeral, source)) : k.StaysInMemory source := by
  rw [← hk.marker] at h
  have hcompile : ∀ (w : World) (name : Option String) (options : Table String),
      Table.get? options Strategy.option = none →
        k.compile w name source options = ((k.compileEphemeral w name source options).1,
          (k.compileEphemeral w name source options).2, w) := by
    intro w name options hoptions
    rw [Compiler.compile, h, ofOptions_of_get? hoptions]
    rfl
  refine ⟨hcompile, fun w w' name options t k' hoptions hmade => ?_⟩
  rw [hcompile w name options hoptions] at hmade
  obtain ⟨ht, hrest⟩ := Prod.mk.inj hmade
  obtain ⟨horigin, -, label, hbundle⟩ :=
    compileEphemeral_eq_ok (Prod.ext ht (Prod.mk.inj hrest).1)
  exact ⟨(kept_compileEphemeral w k name source options).2.2 t ht, horigin,
    Bundle.keepsRoot_of_ofRoot hk.sound (congrArg Prod.fst hbundle)⟩

end Compiler

open Compiler (GoesToFile StaysInMemory)

/-- **A marker works exactly if it has no white space at its ends.**

Settings make a press, and a host does with its compiler and its loaders what it likes.  If the marker of the
settings has no white space at its ends, then every text in front of which it stands as a line, however the
line ends, goes to a file without the line: the file holds the rest of the text, and so does the entry of the
template.  If it has, then no text goes to a file unless the options ask for it.  And with any marker a text
whose first line is not the marker, white space around both apart, stays in memory as it is. -/
theorem marked_texts (hpress : Press.ofSettings w₀ s directory = .ok p)
    (hrun : Usage.Run { compiler := p.compiler } u) (hne : s.cacheMarker ≠ "")
    (hline : '\n' ∉ s.cacheMarker.toList) :
    ((∀ lineEnd ∈ Strategy.lineEnds, ∀ body,
        GoesToFile u.compiler (s.cacheMarker ++ lineEnd ++ body) body) ↔
      Text.trimmed s.cacheMarker = s.cacheMarker) ∧
    (Text.trimmed s.cacheMarker ≠ s.cacheMarker → ∀ source, StaysInMemory u.compiler source) ∧
    ∀ source, Text.trimmed (String.ofList (Strategy.firstLine source.toList).1)
        ≠ Text.trimmed s.cacheMarker → StaysInMemory u.compiler source := by
  have hk := hrun.isSetUp hpress
  refine ⟨?_, fun htrim source => ?_, fun source hother => ?_⟩
  · rw [← Strategy.classify_marked_iff hne hline]
    refine ⟨fun h lineEnd hend body => ?_, fun h lineEnd hend body => ?_⟩
    · rw [← hk.marker]
      exact hk.marker ▸ (h lineEnd hend body).marked
    · exact Compiler.goesToFile_of_classify hk (h lineEnd hend body)
  · exact Compiler.staysInMemory_of_classify hk (Strategy.classify_of_untrimmed htrim source)
  · exact Compiler.staysInMemory_of_classify hk (Strategy.classify_of_trimmed_ne hother)

open Removal (workWorld filingSettings filingPress ofSettings_filingPress filed filedTemplate)

/-- The marker is "cached": a text that it stands in front of is in its file, and one that it stands behind
stays in memory. -/
theorem marked_texts_cached :
    Compiler.IsFiled filed.2.2 "x" filedTemplate ∧
      StaysInMemory filingPress.compiler "x\ncached" := by
  obtain ⟨hworks, -, hothers⟩ := marked_texts ofSettings_filingPress .start (by decide) (by decide)
  have hgoes : GoesToFile filingPress.compiler "cached\nx" "x" :=
    hworks.2 (by decide) "\n" (by decide) "x"
  have hfiled : filingPress.compiler.compile workWorld none "cached\nx" [] = filed := by
    unfold filed
    rfl
  have hmade : filingPress.compiler.compile workWorld none "cached\nx" []
      = (.ok filedTemplate, filed.2.1, filed.2.2) := hfiled.trans (Prod.ext (eq_ok_get _) rfl)
  exact ⟨hgoes.filed _ _ _ _ _ _ rfl ⟨by decide, by decide⟩ (by decide +kernel) hmade,
    hothers "x\ncached" (by decide)⟩

/-! ## A marker with a space in front -/

/-- What one would say of every press: its marker marks the texts that it stands in front of, and only texts
that have it for their first line. -/
def EveryMarkerWorks : Prop :=
  ∀ (w₀ : World) (s : Settings) (directory : Path) (p : Press) (u : Usage),
    Press.ofSettings w₀ s directory = .ok p → Usage.Run { compiler := p.compiler } u →
    s.cacheMarker ≠ "" → '\n' ∉ s.cacheMarker.toList →
      (∀ lineEnd ∈ Strategy.lineEnds, ∀ body,
        GoesToFile u.compiler (s.cacheMarker ++ lineEnd ++ body) body) ∧
      ∀ source, Text.trimmed (String.ofList (Strategy.firstLine source.toList).1)
        ≠ Text.trimmed s.cacheMarker → StaysInMemory u.compiler source

/-- The marker begins with a space. -/
def paddedSettings : Settings := { filingSettings with cacheMarker := " cached" }

theorem isSome_paddedPress :
    (Press.ofSettings workWorld paddedSettings "/work").toOption.isSome = true := by
  decide +kernel

/-- **A marker that begins with a space marks no text**: the space of the marker counts, but that of the line
does not. -/
theorem not_everyMarkerWorks : ¬ EveryMarkerWorks := by
  intro hall
  have hpress := eq_ok_get isSome_paddedPress
  obtain ⟨hworks, -⟩ := hall _ _ _ _ _ hpress .start (by decide) (by decide)
  have hmarked := (hworks "\n" (by decide) "x").marked
  rw [(Usage.Run.isSetUp .start hpress).marker] at hmarked
  exact absurd hmarked (by decide)

end QueryPress
