import QueryPress.Proofs.Press.Prompt
import QueryPress.Proofs.Resource.Confinement
import QueryPress.Proofs.Template.Using

/-!
# Proofs/Press/Confinement — no name leads out of the directories of a press

The loaders of a press are asked for names by its host and by the texts of templates, and they remember
what they have found.  Whatever a host does with them, a name that is empty, has a root or goes up
anywhere is nobody's (`no_name_leads_out`): the check is made only where a loader looks for a file, but
what it lets through is a regular property of resources (`Resource.isRegular_isConfined`), and so holds
of all that is ever kept, handed out and read again (`Usage.IsKept.run`).
-/

namespace QueryPress

variable {w : World} {s : Settings} {directory : Path} {p : Press} {settings : List LoaderSettings}
  {u : Usage}

/-- **A resource lies below a directory of its loader** — its name stays below a directory, and its path
is the name behind a directory of the loader that it names.  In whatever world, what stands at the path
stands below that directory. -/
def Resource.LiesBelow (settings : List LoaderSettings) (r : Resource) : Prop :=
  ∃ l ∈ settings, r.loader = l.name ∧ Path.StaysBelow r.name ∧
    ∃ directory ∈ l.paths, r.path = directory.join r.name ∧
      ∀ (w : World) (at_ : Place), w.place r.path = .ok at_ →
        ∃ base, w.place (directory.join ".") = .ok base ∧ base <+: at_

theorem Resource.LiesBelow.of_isConfined {r : Resource}
    (h : Trait.Of Resource.IsConfined settings r) : r.LiesBelow settings := by
  obtain ⟨l, hl, hname, hconfined⟩ := h
  exact ⟨l, hl, hname, hconfined.name, hconfined.place_eq⟩

/-- **No name leads out of the directories of a press.**

The settings make a press, and a host does with its loaders and its compiler what it likes, while files
change as they like.  Then the loaders have different names; all that was handed out, all that the
templates were made of but for the texts in memory, and all that the loaders remember lies below a
directory of the loader that it names, under the name that it was asked for, and so does all that the
loaders will find.  Under a name that does not stay below a directory every loader has nothing, whatever
stands on the disk, and forgets the name; and there is nothing later of a text in memory that bears it. -/
theorem no_name_leads_out (hpress : Press.ofSettings w s directory = .ok p)
    (hsettings : s.chainSettings w.home directory = .ok settings)
    (hrun : Usage.Run { compiler := p.compiler } u) :
    (settings.map LoaderSettings.name).Nodup ∧
    (∀ r ∈ u.handed, r.LiesBelow settings) ∧
    (∀ t ∈ u.templates, ∀ r ∈ t.bundle.resources, t.IsInlineRoot r ∨ r.LiesBelow settings) ∧
    (∀ l ∈ u.chain, ∀ n r, Table.get? l.copies n = some r → r.name = n ∧ r.LiesBelow settings) ∧
    (∀ w n r, Chain.answer w u.chain n = .ok (some r) → r.name = n ∧ r.LiesBelow settings) ∧
    ∀ n, ¬ Path.StaysBelow n → ∀ w,
      u.chain.find w n = (.ok none, u.chain.evict n) ∧
      (∀ l ∈ u.chain, l.load w n = (.ok none, l.evict n)) ∧
      ∀ r : Resource, r.IsGiven → r.name = n → (u.chain.refresh w r).1 = .ok none := by
  obtain ⟨hnodup, hstart⟩ := Press.upholds_of_ofSettings hpress hsettings Resource.IsConfined
  obtain ⟨hkept, hhanded, htemplates⟩ :=
    (Usage.isKept_start hstart).run Resource.isRegular_isConfined hnodup hrun
  refine ⟨hnodup, fun r hr => .of_isConfined (hhanded r hr), fun t ht r hr =>
    ((htemplates t ht).members r hr).imp id Resource.LiesBelow.of_isConfined, fun l hl n r hr => ?_,
    fun w n r hr => ?_, fun n hn w => ⟨?_, fun l hl => ?_, ?_⟩⟩
  · have hsound := hkept.sound l hl
    have hin : l.settings ∈ settings := hkept.settings_eq ▸ List.mem_map_of_mem hl
    exact ⟨hsound.name_eq hr,
      .of_isConfined ⟨l.settings, hin, hsound.loader_eq hr, hkept.keeps l hl n r hr⟩⟩
  · have hhas := hkept.keeps.has_of_answer (Resource.isRegular_isConfined w) hkept.sound hr
    exact ⟨hkept.sound.name_of_answer hr, .of_isConfined (hkept.of_iff.2 hhas)⟩
  · exact Chain.find_of_not_staysBelow hn hkept.sound hkept.keeps
  · exact Loader.load_of_not_staysBelow (hkept.sound l hl) (hkept.keeps l hl) hn
  · rintro r hr rfl
    exact Chain.fst_refresh_of_not_staysBelow hr hn hkept.sound hkept.keeps

/-! ## A secret beside the pages -/

/-- A page in the directory of the stored templates, and a file beside the directory. -/
def guardedWorld : World where
  disk := { entries := [
    (["work"], .directory), (["press"], .directory), (["press", "scripts"], .directory),
    (["press", "scripts", "a.tera"], .file "page".toUTF8 1),
    (["press", "secret.tera"], .file "secret".toUTF8 1)] }

/-- The stored templates are beside the settings. -/
def guardedSettings : Settings where
  configDirectory := "/press"
  bufferPoolSize := 0

theorem isSome_guardedPress :
    (Press.ofSettings guardedWorld guardedSettings "/work").toOption.isSome = true := by
  decide +kernel

/-- The press of these settings. -/
def guardedPress : Press :=
  (Press.ofSettings guardedWorld guardedSettings "/work").toOption.get isSome_guardedPress

/-- The page as the loaders have it. -/
def guardedPage : Resource where
  name := "a.tera"
  loader := "scripts"
  path := "/press/scripts/a.tera"
  source := "page"
  modified := some 1

/-- A host that has asked for the page. -/
def guardedUsage : Usage :=
  Usage.asked { compiler := guardedPress.compiler }
    (guardedPress.compiler.chain.resolve guardedWorld "a.tera").2 [guardedPage]

theorem run_guardedUsage : Usage.Run { compiler := guardedPress.compiler } guardedUsage := by
  have hpage : (guardedPress.compiler.chain.resolve guardedWorld "a.tera").1 = .ok guardedPage :=
    eq_ok_of_toOption (by decide +kernel)
  refine .step .start (.resolve guardedWorld "a.tera" fun r hr => ?_)
  rw [List.mem_singleton.1 hr]
  exact hpage

theorem not_staysBelow_secret : ¬ Path.StaysBelow "../secret.tera" := by
  rw [← Path.isConfined_iff]
  decide

/-- The page is handed out; the file beside the directory can be reached from there, but not by name. -/
theorem no_name_leads_out_secret : guardedPage ∈ guardedUsage.handed ∧
    guardedWorld.isFile "/press/scripts/../secret.tera" = true ∧
    Chain.answer guardedWorld guardedUsage.chain "../secret.tera" = .ok none ∧
    ∃ settings, guardedPage.LiesBelow settings := by
  have hsome : (guardedSettings.chainSettings guardedWorld.home "/work").toOption.isSome = true := by
    decide +kernel
  obtain ⟨-, hhanded, -, -, -, hout⟩ :=
    no_name_leads_out (eq_ok_get isSome_guardedPress) (eq_ok_get hsome) run_guardedUsage
  have hin : guardedPage ∈ guardedUsage.handed := List.mem_cons_self
  refine ⟨hin, by decide +kernel, ?_, _, hhanded guardedPage hin⟩
  exact congrArg Prod.fst (hout _ not_staysBelow_secret guardedWorld).1

end QueryPress
