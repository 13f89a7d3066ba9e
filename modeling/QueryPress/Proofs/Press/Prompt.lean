import QueryPress.Press
import QueryPress.Proofs.Template.Using

/-!
# Proofs/Press/Prompt — the loaders of a new press

They are those that the settings ask for, and none of them has been asked for anything
(`Press.chain_of_ofSettings`); so they uphold whatever is asked of the copies of loaders
(`Press.upholds_of_ofSettings`).  With check intervals that are negative throughout, every loader but
the first looks at a file whenever it is asked for it; the first keeps for good what it finds in the
working directory (`Press.isPrompt_of_ofSettings`).
-/

namespace QueryPress

theorem Chain.repeated?_eq_none : ∀ {ns seen : List String}, repeated? seen ns = none →
    ns.Nodup ∧ ∀ n ∈ ns, n ∉ seen
  | [], _, _ => by simp
  | n :: ns, seen, h => by
    rw [repeated?] at h
    split at h
    · cases h
    · rename_i hn
      obtain ⟨hnodup, hnew⟩ := repeated?_eq_none h
      refine ⟨List.nodup_cons.2 ⟨fun hin => hnew n hin List.mem_cons_self, hnodup⟩, ?_⟩
      exact List.forall_mem_cons.2 ⟨hn, fun m hm hseen => hnew m hm (List.mem_cons_of_mem n hseen)⟩

/-- A chain is made of loaders of different names. -/
theorem Chain.of_ofLoaders {loaders : List Loader} {c : Chain}
    (h : Chain.ofLoaders loaders = .ok c) : c = loaders ∧ c.names.Nodup := by
  rw [Chain.ofLoaders] at h
  split at h
  · cases h
  · rename_i hnone
    obtain rfl := Except.ok.inj h
    exact ⟨rfl, (Chain.repeated?_eq_none hnone).1⟩

theorem LoaderDeclaration.checkInterval_of_resolve {home : Option Path} {base : Path} {n : Int}
    {d : LoaderDeclaration} {s : LoaderSettings} (h : d.resolve home base n = .ok s) :
    s.checkInterval = .ofSeconds (d.checkInterval.getD n) := by
  simp only [resolve] at h
  split at h
  · cases h
  · split at h
    · cases h
    · rw [← Except.ok.inj h]

theorem CheckInterval.ofSeconds_of_neg {n : Int} (h : n < 0) : ofSeconds n = .always := by
  rw [ofSeconds, if_neg (by omega), if_neg (by omega)]

/-- The loaders of declarations that all ask for it look at files whenever they are asked. -/
theorem always_of_mapM {home : Option Path} {base : Path} {n : Int} :
    ∀ {ds : List LoaderDeclaration} {ls : List LoaderSettings},
      ds.mapM (fun d => d.resolve home base n) = .ok ls →
      (∀ d ∈ ds, d.checkInterval.getD n < 0) → ∀ l ∈ ls, l.checkInterval = .always
  | [], ls, h, _ => by
    obtain rfl : ls = [] := by simpa [pure, Except.pure] using h.symm
    simp
  | d :: ds, ls, h, hds => by
    obtain ⟨hd, hds⟩ := List.forall_mem_cons.1 hds
    rw [List.mapM_cons] at h
    obtain ⟨l, hr, h⟩ := bind_eq_ok.1 h
    obtain ⟨rest, hrest, h⟩ := bind_eq_ok.1 h
    obtain rfl : l :: rest = ls := Except.ok.inj h
    refine List.forall_mem_cons.2 ⟨?_, always_of_mapM hrest hds⟩
    rw [LoaderDeclaration.checkInterval_of_resolve hr, CheckInterval.ofSeconds_of_neg hd]

/-- **The loaders of a new press** are those that the settings ask for, with different names, and none of
them has been asked for anything. -/
theorem Press.chain_of_ofSettings {w : World} {s : Settings} {directory : Path} {p : Press}
    (h : Press.ofSettings w s directory = .ok p) :
    ∃ settings, s.chainSettings w.home directory = .ok settings ∧
      p.compiler.chain = settings.map (fun settings => { settings }) ∧
      p.compiler.chain.names.Nodup ∧ p.compiler.workingDirectory = directory := by
  simp only [Press.ofSettings] at h
  split at h
  · cases h
  · rename_i chain hchain
    obtain rfl := Except.ok.inj h
    obtain ⟨settings, hsettings, hchain⟩ := bind_eq_ok.1 hchain
    obtain ⟨rfl, hnodup⟩ := Chain.of_ofLoaders hchain
    exact ⟨settings, hsettings, rfl, hnodup, rfl⟩

/-- **The loaders of a new press uphold any property**: they have different names, and keep nothing. -/
theorem Press.upholds_of_ofSettings {w : World} {s : Settings} {directory : Path} {p : Press}
    {settings : List LoaderSettings} (h : Press.ofSettings w s directory = .ok p)
    (hsettings : s.chainSettings w.home directory = .ok settings) (R : Trait) :
    (settings.map LoaderSettings.name).Nodup ∧ p.compiler.chain.Upholds R settings := by
  obtain ⟨settings', hsettings', hchain, hnodup, -⟩ := Press.chain_of_ofSettings h
  obtain rfl : settings' = settings := Except.ok.inj (hsettings'.symm.trans hsettings)
  have hstart : p.compiler.chain.Upholds R settings' := hchain ▸ .start R settings'
  exact ⟨by rwa [← hstart.settings_eq, ← Chain.names_eq], hstart⟩

/-- **A press whose settings ask for it is prompt.** -/
theorem Press.isPrompt_of_ofSettings {w : World} {s : Settings} {directory : Path} {p : Press}
    (h : Press.ofSettings w s directory = .ok p) (hs : s.checkInterval < 0)
    (hds : ∀ d ∈ s.loaders, d.checkInterval.getD s.checkInterval < 0) : p.compiler.IsPrompt := by
  obtain ⟨settings, hsettings, hchain, hnodup, hdirectory⟩ := Press.chain_of_ofSettings h
  obtain ⟨declared, hdeclared, hsettings⟩ := bind_eq_ok.1 hsettings
  obtain rfl := Except.ok.inj hsettings
  refine ⟨⟨_, by rw [hchain, hdirectory, List.map_map]; exact List.map_id _, ?_⟩,
    hchain ▸ Chain.reachable_start _, hnodup⟩
  exact List.forall_mem_cons.2
    ⟨CheckInterval.ofSeconds_of_neg hs, always_of_mapM hdeclared hds⟩

end QueryPress
