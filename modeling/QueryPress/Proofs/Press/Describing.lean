import QueryPress.Proofs.Press.Prompt
import QueryPress.Proofs.Press.Session
import QueryPress.Proofs.Template.Using

/-!
# Proofs/Press/Describing — a template's resources and its book are about the same pages

A template lists the resources that it was made of, and its book has the pages that are merged.  A
refresh changes the two one after the other: the book takes all the texts that have changed at once, the
list takes them one by one, in place of the resource of that name or behind all others.  Whatever a host
does, they go on describing each other (`resources_describe_book`): that the names differ, the entry
comes first and the book holds the texts is kept by every refresh (`IsClosed.refresh`,
`IsFirst.refresh`), and each resource comes from a loader of the chain, as does all that a loader finds,
but for a text in memory (`Usage.IsKept.run`).
-/

namespace QueryPress

variable {k : Compiler} {loaders : List Loader} {u : Usage} {t : Template} {b : Bundle}

/-- Nothing is asked of a resource but that it comes from a loader. -/
def anyTrait : Trait := fun _ _ => True

theorem isRegular_anyTrait (w : World) : anyTrait.IsRegular w where
  found _ _ := trivial
  reread _ _ := trivial

/-- **Whatever a host does with a new press, its loaders are sound.** -/
theorem Usage.Run.isSound {w : World} {s : Settings} {directory : Path} {p : Press}
    (hrun : Usage.Run { compiler := p.compiler } u) (h : Press.ofSettings w s directory = .ok p) :
    u.chain.IsSound := by
  obtain ⟨settings, hsettings, -⟩ := Press.chain_of_ofSettings h
  obtain ⟨hnames, hstart⟩ := Press.upholds_of_ofSettings h hsettings anyTrait
  exact ((Usage.isKept_start hstart).run isRegular_anyTrait hnames hrun).chain.sound

/-- **The page of a resource in a closed bundle** is the page of the resource's text. -/
theorem Bundle.IsClosed.page_eq (h : b.IsClosed) {r : Resource} (hr : r ∈ b.resources) :
    ∃ p, Table.get? b.book r.name = some p ∧ p.source = r.source ∧ Page.read? r.source = some p := by
  obtain ⟨p, hp, hsource⟩ := Option.map_eq_some_iff.1 (h.agrees r hr)
  exact ⟨p, hp, hsource, hsource ▸ h.read r.name p hp⟩

/-- **The resources and the book of a template describe each other.**

A host has a compiler, with loaders of different names in any state they can come to, and does with it
what it likes, while files change as they like.  Then for every template that it has: the names of the
resources differ, and the first is the entry; the book has pages of exactly these names; the page of a
name is the page of the text that the list has for it; and each resource but a text in memory, of which
the template was made, names a loader of the chain. -/
theorem resources_describe_book (hloaders : ∀ l ∈ loaders, l.Reachable)
    (hchain : Chain.ofLoaders loaders = .ok k.chain) (hrun : Usage.Run { compiler := k } u)
    (ht : t ∈ u.templates) :
    t.dependencies.Nodup ∧ t.dependencies.head? = some t.bundle.entry ∧
      (∀ n, Table.has t.bundle.book n = true ↔ n ∈ t.dependencies) ∧
      (∀ r ∈ t.bundle.resources, ∃ p, Table.get? t.bundle.book r.name = some p ∧
        p.source = r.source ∧ Page.read? r.source = some p) ∧
      ∀ r ∈ t.bundle.resources, t.IsInlineRoot r ∨ r.loader ∈ u.chain.names := by
  obtain ⟨heq, hnodup⟩ := Chain.of_ofLoaders hchain
  have hstart : k.chain.Upholds anyTrait (k.chain.map Loader.settings) :=
    ⟨rfl, Chain.Reachable.isSound (heq ▸ hloaders), fun _ _ _ _ _ => trivial⟩
  rw [Chain.names_eq] at hnodup
  have hkept := (Usage.isKept_start hstart).run isRegular_anyTrait hnodup hrun
  obtain ⟨hclosed, hfirst, hmembers⟩ := hkept.templates t ht
  refine ⟨hclosed.nodup, hfirst, fun n => ⟨hclosed.covers n, hclosed.agrees.has⟩,
    fun r hr => hclosed.page_eq hr, fun r hr => (hmembers r hr).imp id ?_⟩
  rintro ⟨s, hs, hname, -⟩
  rw [Chain.names_eq, hkept.chain.settings_eq, hname]
  exact List.mem_map_of_mem hs

/-! ## A page that has been edited -/

open Session (sharedCompiler farWorld editedWorld farTemplate including includingText
  isPrompt_sharedCompiler isSome_farTemplate)

/-- What compiling comes to is a step of the host. -/
theorem step_including {w : World} (h : (including w k).1.toOption.isSome = true) :
    Usage.Step { compiler := k } (Usage.made { compiler := k } (including w k).2.1
      [(including w k).1.toOption.get h]) := by
  have hmade : ∀ t ∈ [(including w k).1.toOption.get h], (including w k).1 = .ok t := by
    intro t ht
    rw [List.mem_singleton.1 ht]
    exact eq_ok_get h
  generalize (including w k).1.toOption.get h = t at hmade ⊢
  unfold including at hmade ⊢
  exact .compile w none includingText [] hmade

/-- A host that has had a template compiled. -/
def farUsage : Usage :=
  Usage.made { compiler := sharedCompiler } (including farWorld sharedCompiler).2.1 [farTemplate]

/-- The template has been refreshed since the page was edited. -/
def editedUsage : Usage :=
  { farUsage with
    compiler := (farUsage.compiler.refresh editedWorld farTemplate).2
    templates := [(farUsage.compiler.refresh editedWorld farTemplate).1] }

theorem run_editedUsage : Usage.Run { compiler := sharedCompiler } editedUsage := by
  have hmade : Usage.Run { compiler := sharedCompiler } farUsage :=
    .step .start (step_including isSome_farTemplate)
  have htemplates : farUsage.templates = [] ++ farTemplate :: [] := rfl
  exact .step hmade (.refresh editedWorld htemplates)

/-- The edited page is in the list and in the book. -/
theorem resources_describe_book_edited :
    editedUsage.templates.map (fun t => t.bundle.resources.map Resource.source)
        = [[includingText, "far again"]] ∧
      ∀ t ∈ editedUsage.templates, t.dependencies.head? = some t.bundle.entry ∧
        ∀ r ∈ t.bundle.resources, ∃ p, Table.get? t.bundle.book r.name = some p ∧
          p.source = r.source := by
  refine ⟨by decide +kernel, fun t ht => ?_⟩
  obtain ⟨-, hfirst, -, hpages, -⟩ := resources_describe_book isPrompt_sharedCompiler.reachable rfl
    run_editedUsage ht
  refine ⟨hfirst, fun r hr => ?_⟩
  obtain ⟨p, hp, hsource, -⟩ := hpages r hr
  exact ⟨p, hp, hsource⟩

end QueryPress
