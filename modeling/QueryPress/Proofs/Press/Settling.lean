import QueryPress.Press
import QueryPress.Proofs.Markup.Agreement
import QueryPress.Proofs.Merge.Missing
import QueryPress.Proofs.Template.Asking

/-!
# Proofs/Press/Settling — what a compile accepts is there, and what it rejects is missing

A compile follows what is *found* in a text, and a merge follows what is *written* in it as a page.  In
clear texts the two are the same (`Page.IsClear`), and so all that a template asks for is settled when it
is compiled (`settled_when_compiled`): no merge misses a page, however often the template has been
refreshed; no page is without its parent or an import that the loaders have; and where a compile finds
nothing, a text asks for a page that nobody has.

In other texts a page may be asked for between back quotes, which is not found, and what stands in a
quoted text may be found although nothing is asked for there (`not_settled_when_compiled`).
-/

namespace QueryPress

namespace Page

/-- **A text is clear** — it hides no delimiter, and the pages that it asks for have plain names. -/
structure IsClear (text : String) : Prop where
  tidy : IsTidy text.toList
  plain : ∀ q ∈ asked text, q.IsPlain

variable {text : String}

/-- **What a clear text asks for is seen.** -/
theorem IsClear.isSeen (h : IsClear text) : IsSeen text := by
  intro q hq hneeded
  have hwritten : (Reader.whole? writtenPage text.toList).isSome = true := by
    cases hw : Reader.whole? writtenPage text.toList with
    | none => simp [asked, hw] at hq
    | some x => rfl
  exact ⟨q, by rwa [ofText_eq_asked h.tidy hwritten h.plain], hneeded, List.Subset.refl _⟩

/-- **What a clear text refers to is meant**, if the text is written like a page. -/
theorem IsClear.isMeant (h : IsClear text)
    (hwritten : (Reader.whole? writtenPage text.toList).isSome = true) : IsMeant text := by
  intro ref href hneeded
  rw [ofText_eq_asked h.tidy hwritten h.plain] at href
  exact ⟨ref, href, hneeded, List.Subset.refl _⟩

end Page

/-- **A template has been refreshed**, any number of times, in whatever worlds and by whatever
loaders. -/
inductive Template.Renewed : Template → Template → Prop
  | none {t : Template} : Renewed t t
  | refresh {t t' : Template} (w : World) {k : Compiler} : k.chain.IsSound → Renewed t t' →
      Renewed t (k.refresh w t').1

variable {w w' : World} {k k' : Compiler} {t t' : Template} {c : Chain} {b : Bundle}
  {root r : Resource} {members changed : List Resource} {n : String} {p : Page}

theorem Template.Renewed.isClosed (h : Template.Renewed t t') (ht : t.bundle.IsClosed) :
    t'.bundle.IsClosed := by
  induction h with
  | none => exact ht
  | refresh w hk _ ih => exact ih.refresh hk

/-! ## Parents and imports -/

/-- A page asks for its parent and for what it imports. -/
theorem needing_mem_asked (hp : Page.read? r.source = some p) (hn : n ∈ p.targets) :
    Reference.needing n ∈ Page.asked r.source :=
  Page.requests_subset_asked hp (Page.needing_mem_requests hn)

/-- **The parents and imports of what was collected are collected.** -/
theorem targets_of_collect (hc : c.IsSound) (h : (c.collect w root).1 = .ok members)
    (hr : r ∈ members) (hseen : IsSeen r.source) (hp : Page.read? r.source = some p)
    (hn : n ∈ p.targets) : n ∈ members.map Resource.name := by
  obtain ⟨ref, href, hneeded, hsub⟩ := hseen _ (needing_mem_asked hp hn) rfl
  rcases (Chain.isClosure_of_collect hc h).1.settled r hr ref href with ⟨m, hm, hin⟩ | ⟨hoptional, -⟩
  · obtain rfl : m = n := List.mem_singleton.1 (hsub hm)
    exact hin
  · rw [hneeded] at hoptional
    cases hoptional

/-- **The parents and imports of what has changed** are there or have changed, too. -/
theorem targets_of_collectChanges (hc : c.IsSound) (hb : b.IsClosed)
    (h : (c.collectChanges w b.resources).1 = .ok changed) (hr : r ∈ changed)
    (hseen : IsSeen r.source) (hp : Page.read? r.source = some p) (hn : n ∈ p.targets) :
    n ∈ b.resources.map Resource.name ++ changed.map Resource.name := by
  obtain ⟨ref, href, hneeded, hsub⟩ := hseen _ (needing_mem_asked hp hn) rfl
  obtain ⟨m, hm, hin⟩ := (Chain.settles_collectChanges hc hb.nodup h).2 r hr ref href hneeded
  obtain rfl : m = n := List.mem_singleton.1 (hsub hm)
  exact hin

/-! ## Merging and rendering -/

/-- **No merge of a closed bundle misses a page** if all that its texts ask for is seen. -/
theorem Press.mergeBundle_ne_missingPages (hb : b.IsClosed)
    (hseen : ∀ r ∈ b.resources, IsSeen r.source) (vars : Table Json) (registry : Properties.Registry)
    (pool : BufferPool) (pages : List String) :
    (mergeBundle w b vars registry pool).1 ≠ .error (.missingPages pages) := by
  have hmerge := Scene.merge_ne_missingPages
    (s := { world := w, book := b.book, entry := b.entry, vars := Press.context (registry.fresh w) vars })
    (hb.isSettled hseen) (registry.fresh w) pages
  have hmap : ∀ (result : Except MergeError Unit × Draft) (bytes : Draft → ByteArray),
      (result.1.map fun () => bytes result.2) = .error (.missingPages pages) →
        result.1 = .error (.missingPages pages) := by
    rintro ⟨(e | u), draft⟩ bytes h
    · exact congrArg _ (Except.error.inj h)
    · cases h
  intro h
  exact hmerge (hmap _ (fun draft => (filled pool.get.1 draft.written).content) h)

/-- **No rendering of a template misses a page** if all that its texts ask for is seen. -/
theorem Press.render_ne_missingPages {p : Press} (hp : p.compiler.chain.IsSound)
    (ht : t.bundle.IsClosed) (vars : Table Json)
    (hseen : ∀ r ∈ (p.render w t vars).2.1.bundle.resources, IsSeen r.source)
    (label : String) (pages : List String) :
    (p.render w t vars).1 ≠ .error (.execution label (.missingPages pages)) := by
  have hclosed : (p.compiler.refresh w t).1.bundle.IsClosed := ht.refresh hp
  have hmerge := mergeBundle_ne_missingPages (w := w) hclosed hseen vars p.registry p.buffers pages
  intro h
  rw [render] at h
  dsimp only at h
  rcases hresult : (mergeBundle w (p.compiler.refresh w t).1.bundle vars p.registry p.buffers).1 with
    e | bytes <;> rw [hresult] at h hmerge
  · exact hmerge (congrArg _ (Error.execution.inj (Except.error.inj h)).2)
  · cases h

/-! ## What a compile settles -/

/-- **All that clear texts ask for is settled when they are compiled.**

A rendering of a template that was made, however often it was refreshed before, does not miss the pages
of an inclusion if the texts that it then has are clear.  What is added to a book, by a compile or a
refresh, has the parents and the imports of every clear text with it.  And where a compile finds nothing,
a text that it has come to asks, if it is clear and a page at all, for a page that nobody has. -/
theorem settled_when_compiled (hk : k.IsFitted) (hw : w.IsRooted) :
    (∀ t k' w' t', k.IsMade w t k' w' → Template.Renewed t t' →
      ∀ (p : Press) (v : World) (vars : Table Json), p.compiler.chain.IsSound →
        (∀ r ∈ (p.render v t' vars).2.1.bundle.resources, Page.IsClear r.source) →
          ∀ label pages, (p.render v t' vars).1 ≠ .error (.execution label (.missingPages pages))) ∧
    (∀ v c root members, c.IsSound → (Chain.collect v root c).1 = .ok members →
      ∀ r ∈ members, Page.IsClear r.source → ∀ p, Page.read? r.source = some p →
        ∀ n ∈ p.targets, n ∈ members.map Resource.name) ∧
    (∀ t k' w' t' v c changed, k.IsMade w t k' w' → Template.Renewed t t' → c.IsSound →
      (Chain.collectChanges v t'.bundle.resources c).1 = .ok changed →
        ∀ r ∈ changed, Page.IsClear r.source → ∀ p, Page.read? r.source = some p →
          ∀ n ∈ p.targets, n ∈ t'.bundle.resources.map Resource.name ++ changed.map Resource.name) ∧
    (∀ name source options s, (k.compile w name source options).1 = .error (.notFound s) →
      ∃ v root, k.Begins w (Strategy.classify k.marker source).2 v root ∧
        ∃ r, (Chain.answer v k.chain).Leads root r ∧ (Page.IsClear r.source →
          (Reader.whole? Page.writtenPage r.source.toList).isSome = true →
            ∃ q ∈ Page.asked r.source, (Chain.answer v k.chain).Misses [root.name] q)) ∧
    (∀ name options s, (k.compileStored w name options).1 = .error (.notFound s) →
      Chain.answer w k.chain name = .ok none ∨
        ∃ root, Chain.answer w k.chain name = .ok (some root) ∧
          ∃ r, (Chain.answer w k.chain).Leads root r ∧ (Page.IsClear r.source →
            (Reader.whole? Page.writtenPage r.source.toList).isSome = true →
              ∃ q ∈ Page.asked r.source, (Chain.answer w k.chain).Misses [root.name] q)) := by
  have hsound := hk.reachable.isSound
  refine ⟨fun t k' w' t' hmade hrenewed p v vars hp hclear label pages => ?_,
    fun v c root members hc hmembers r hr hclear p hp n hn => ?_,
    fun t k' w' t' v c changed hmade hrenewed hc hchanged r hr hclear p hp n hn => ?_,
    fun name source options s hnone => ?_, fun name options s hnone => ?_⟩
  · exact Press.render_ne_missingPages hp (hrenewed.isClosed (hmade.isClosed hsound)) vars
      (fun r hr => (hclear r hr).isSeen) label pages
  · exact targets_of_collect hc hmembers hr hclear.isSeen hp hn
  · exact targets_of_collectChanges hc (hrenewed.isClosed (hmade.isClosed hsound)) hchanged hr
      hclear.isSeen hp hn
  · obtain ⟨v, root, ref, hbegins, hmissing⟩ := Compiler.notFound_of_compile hk hw hnone
    obtain ⟨r, hleads, hasked⟩ := hmissing.asked
    exact ⟨v, root, hbegins, r, hleads, fun hclear hwritten => hasked (hclear.isMeant hwritten)⟩
  · have hnamed : (Compiler.compileNamed w name name k.chain).1 = .error (.notFound s) := by
      rw [Compiler.compileStored] at hnone
      dsimp only at hnone
      rcases hb : (Compiler.compileNamed w name name k.chain).1 with e | bundle <;>
        rw [hb] at hnone <;> cases hnone
      rfl
    rcases Compiler.notFound_of_compileNamed hsound hnamed with hnone | ⟨root, ref, hroot, hmissing⟩
    · exact .inl hnone
    · obtain ⟨r, hleads, hasked⟩ := hmissing.asked
      exact .inr ⟨root, hroot, r, hleads, fun hclear hwritten => hasked (hclear.isMeant hwritten)⟩

/-! ## Without files -/

/-- A compiler with loaders of a working directory and of stored templates. -/
def emptyCompiler : Compiler where
  workingDirectory := "/work"
  marker := ""
  chain := [
    { settings := { name := "ephemeral", paths := ["/work"], cache := true,
                    checkInterval := .never } },
    { settings := { name := "scripts", paths := ["/scripts"], cache := true,
                    checkInterval := .always } }]

theorem isFitted_emptyCompiler : emptyCompiler.IsFitted where
  settings := ⟨[_], rfl⟩
  reachable := Chain.reachable_start [_, _]

theorem isRooted_empty : World.IsRooted {} := ⟨by decide, by decide⟩

/-- What compiling a text comes to in a world without files. -/
@[irreducible]
def alone (text : String) : Except Error Template × Compiler × World :=
  emptyCompiler.compile {} none text []

theorem compile_eq_alone (text : String) : emptyCompiler.compile {} none text [] = alone text := by
  unfold alone
  rfl

theorem isMade_alone {text : String} (h : (alone text).1.toOption.isSome = true) :
    emptyCompiler.IsMade {} ((alone text).1.toOption.get h) (alone text).2.1 (alone text).2.2 := by
  have hcompile : emptyCompiler.compile {} none text []
      = (.ok ((alone text).1.toOption.get h), (alone text).2.1, (alone text).2.2) :=
    (compile_eq_alone text).trans (Prod.ext (eq_ok_get h) rfl)
  exact .compiled hcompile

/-- A press with a compiler and nothing else. -/
def pressOf (compiler : Compiler) : Press where
  registry := []
  compiler
  buffers := { maxSize := 0, capacity := 0, maxRetained := 0 }

/-- A text that asks for one of two pages, or none. -/
def optionalTag : String := "\x7b% include ['gone.tera', 'lost.tera'] ignore missing -%\x7d"

theorem isClear_optionalTag : Page.IsClear optionalTag where
  tidy := by decide +kernel
  plain := by
    have hasked : Page.asked optionalTag
        = [{ candidates := ["gone.tera", "lost.tera"], optional := true }] := by
      decide +kernel
    intro q hq
    rw [hasked] at hq
    obtain rfl := List.mem_singleton.1 hq
    exact ⟨by decide, by simp [IsPlainName]⟩

theorem isSome_optionalTag : (alone optionalTag).1.toOption.isSome = true := by decide +kernel

/-- The template of the text. -/
def optionalTemplate : Template := (alone optionalTag).1.toOption.get isSome_optionalTag

/-- Its rendering does not miss the page. -/
theorem settled_when_compiled_optional :
    ((pressOf emptyCompiler).render (alone optionalTag).2.2 optionalTemplate []).1
      ≠ .error (.execution optionalTemplate.label (.missingPages ["gone.tera"])) := by
  refine (settled_when_compiled isFitted_emptyCompiler isRooted_empty).1 _ _ _ _
    (isMade_alone isSome_optionalTag) .none (pressOf emptyCompiler) _ []
    isFitted_emptyCompiler.reachable.isSound (fun r hr => ?_) optionalTemplate.label ["gone.tera"]
  have hsources : (emptyCompiler.refresh (alone optionalTag).2.2
      optionalTemplate).1.bundle.resources.map Resource.source = [optionalTag] := by
    decide +kernel
  have hsource : r.source ∈ [optionalTag] := hsources ▸ List.mem_map_of_mem hr
  rw [List.mem_singleton.1 hsource]
  exact isClear_optionalTag

/-! ## Texts that are not clear -/

/-- **Every template can be merged when it has been compiled**, as far as the pages of its inclusions go. -/
def MergesWhenCompiled : Prop :=
  ∀ (w : World) (k : Compiler) (t : Template) (k' : Compiler) (w' : World),
    k.IsFitted → w.IsRooted → k.IsMade w t k' w' →
      ∀ (p : Press) (vars : Table Json), p.compiler = k' →
        ∀ label pages, (p.render w' t vars).1 ≠ .error (.execution label (.missingPages pages))

/-- **Where there are no files, a text that is not compiled asks for a page.** -/
def AsksWhenMissing : Prop :=
  ∀ (w : World) (k : Compiler) (source s : String), k.IsFitted → w.IsRooted → w.disk.entries = [] →
    (k.compile w none source []).1 = .error (.notFound s) →
      ∃ q ∈ Page.asked source, q.optional = false

/-- A text that asks for a page between back quotes. -/
def backQuoted : String := "\x7b% include \x60gone.tera\x60 %\x7d"

/-- A text that writes what would ask for a page. -/
def quotedTag : String := "\x7b\x7b \"\x7b% include 'gone.tera' %\x7d\" \x7d\x7d"

theorem isSome_backQuoted : (alone backQuoted).1.toOption.isSome = true := by decide +kernel

/-- The template of the first text. -/
def backQuotedTemplate : Template := (alone backQuoted).1.toOption.get isSome_backQuoted

/-- **Neither holds of every text.**  The first text is compiled although nobody has the page that it
asks for; the second is not, although it asks for none. -/
theorem not_settled_when_compiled : ¬ MergesWhenCompiled ∧ ¬ AsksWhenMissing := by
  constructor
  · intro hclaim
    refine hclaim _ _ _ _ _ isFitted_emptyCompiler isRooted_empty (isMade_alone isSome_backQuoted)
      (pressOf (alone backQuoted).2.1) []
      rfl backQuotedTemplate.label ["gone.tera"] ?_
    exact eq_error_of_failure (by decide +kernel)
  · intro hclaim
    obtain ⟨q, hq, -⟩ := hclaim {} emptyCompiler quotedTag "gone.tera" isFitted_emptyCompiler
      isRooted_empty rfl (compile_eq_alone quotedTag ▸ eq_error_of_failure (by decide +kernel))
    have hasked : Page.asked quotedTag = [] := by decide +kernel
    rw [hasked] at hq
    cases hq

end QueryPress
