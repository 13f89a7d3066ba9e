import Mathlib.Logic.Equiv.Basic
import QueryPress.Proofs.Markup.Renaming
import QueryPress.Proofs.Resource.Pairing
import QueryPress.Proofs.Template.Asking

/-!
# Proofs/Template/Twins — bundles of one text under two names

One text stands in two places: in memory under the name of its entry, and in a file under the file's
name.  If no text that the roots lead to mentions either name, paired chains make *twins* of them —
bundles that differ in the name of the entry and in nothing else (`IsPair.ofRoot`) — and a refresh keeps
them so (`IsTwin.refresh`), as long as the roots are never looked at again.
-/

namespace QueryPress

open Answers (Leads)

variable {entry file n text : String} {v w : World} {home : Place} {c c' : Chain}
  {root root' : Resource} {settings : List LoaderSettings}

/-! ## Texts that do not mention a name -/

instance : Decidable (IsApart entry file n) :=
  decidable_of_iff (n ≠ entry ∧ ¬ Path.EndsIn n file) ⟨fun h => ⟨h.1, h.2⟩, fun h => ⟨h.1, h.2⟩⟩

/-- The names that a text mentions — in its references, or where it is read as a page. -/
def mentioned (text : String) : List String :=
  Chain.namesIn text
    ++ ((Page.read? text).map fun p => p.requests.flatMap Reference.candidates).getD []

/-- **A text is silent about an entry and a file** — no name that it mentions is the entry or ends like
the file. -/
def IsSilent (entry file text : String) : Prop := ∀ n ∈ mentioned text, IsApart entry file n

instance : Decidable (IsSilent entry file text) := inferInstanceAs (Decidable (∀ n ∈ _, _))

theorem IsSilent.shuns (h : IsSilent entry file text) : Chain.Shuns entry file text :=
  fun ref href n hn => h n (List.mem_append_left _ (List.mem_flatMap.2 ⟨ref, href, hn⟩))

/-- The renaming of an entry to a file leaves a name as it is that is neither. -/
theorem IsApart.swap (h : IsApart entry file n) (hends : Path.EndsIn file file) :
    Equiv.swap entry file n = n :=
  Equiv.swap_apply_of_ne_of_ne h.other (h.ne hends)

theorem IsSilent.fixes (h : IsSilent entry file text) (hends : Path.EndsIn file file) {p : Page}
    (hp : Page.read? text = some p) : Fixes (Equiv.swap entry file) p.requests := by
  intro ref href n hn
  refine IsApart.swap (h n (List.mem_append_right _ ?_)) hends
  rw [hp]
  exact List.mem_flatMap.2 ⟨ref, href, hn⟩

/-! ## One text in two places -/

/-- **Two roots are a pair** — they have one text, they rest with the loaders, and the second is called
like a file. -/
structure IsPair (settings : List LoaderSettings) (root root' : Resource) : Prop where
  source : root'.source = root.source
  differ : root.name ≠ root'.name
  rests : root.Rests settings
  rests' : root'.Rests settings
  ends : Path.EndsIn root'.name root'.name

namespace Bundle

/-- **Two bundles are twins** — they hold the same but for their roots, which are their entries. -/
structure IsTwin (root root' : Resource) (b b' : Bundle) : Prop where
  entry : b.entry = root.name
  entry' : b'.entry = root'.name
  book : b.book.IsRenamed (Equiv.swap root.name root'.name) b'.book
  free : b.book.source? root'.name = none
  resources : ∃ rest, b.resources = root :: rest ∧ b'.resources = root' :: rest ∧
    ∀ r ∈ rest, r.IsApart root.name root'.name

variable {b b' : Bundle}

/-- The text of a page beside the entry. -/
def other? (b : Bundle) (n : String) : Option String := if n = b.entry then none else b.book.source? n

/-- **Twins have the same texts** under their entries, and beside them. -/
theorem IsTwin.texts (h : IsTwin root root' b b') :
    b'.book.source? b'.entry = b.book.source? b.entry ∧ ∀ n, b'.other? n = b.other? n := by
  have hsource : ∀ n, b'.book.source? (Equiv.swap root.name root'.name n) = b.book.source? n :=
    fun n => by rw [Book.source?, Book.source?, h.book.get?]
  have hfile : b'.book.source? root.name = none := by
    rw [← h.free, ← hsource, Equiv.swap_apply_right]
  refine ⟨by rw [h.entry, h.entry', ← hsource, Equiv.swap_apply_left], fun n => ?_⟩
  rw [other?, other?, h.entry, h.entry']
  by_cases hn : n = root.name
  · simp [hn, hfile]
  · by_cases hn' : n = root'.name
    · simp [hn', h.free]
    · rw [if_neg hn, if_neg hn', ← hsource, Equiv.swap_apply_of_ne_of_ne hn hn']

/-- What is apart has the same texts under its names in both. -/
theorem renamed_texts (hends : Path.EndsIn file file) : ∀ {rs : List Resource},
    (∀ r ∈ rs, r.IsApart entry file) → Book.renamed (Equiv.swap entry file) (texts rs) = texts rs
  | [], _ => rfl
  | r :: rs, h => by
    obtain ⟨hr, hrs⟩ := List.forall_mem_cons.1 h
    have ih := renamed_texts hends hrs
    simp only [Book.renamed, texts, List.map_cons] at ih ⊢
    rw [ih, hr.name.swap hends]

/-- What is apart does not bear the file's name. -/
theorem not_mem_names_of_isApart (hends : Path.EndsIn file file) {rs : List Resource}
    (h : ∀ r ∈ rs, r.IsApart entry file) : file ∉ rs.map Resource.name := by
  intro hin
  obtain ⟨r, hr, heq⟩ := List.mem_map.1 hin
  exact (h r hr).name.ne hends heq

theorem renamed_texts_root (hp : IsPair settings root root') {rest : List Resource}
    (h : ∀ r ∈ rest, r.IsApart root.name root'.name) :
    Book.renamed (Equiv.swap root.name root'.name) (texts (root :: rest)) = texts (root' :: rest) := by
  have hrest := renamed_texts hp.ends h
  simp only [Book.renamed, texts, List.map_cons] at hrest ⊢
  rw [hrest, Equiv.swap_apply_left, hp.source]

/-- The texts of resources that are silent ask for nothing that is renamed. -/
theorem fixes_texts (hends : Path.EndsIn file file) {rs : List Resource}
    (h : ∀ r ∈ rs, IsSilent entry file r.source) :
    ∀ t ∈ texts rs, ∀ p, Page.read? t.2 = some p → Fixes (Equiv.swap entry file) p.requests := by
  intro t ht p hread
  obtain ⟨r, hr, rfl⟩ := List.mem_map.1 ht
  exact (h r hr).fixes hends hread

end Bundle

open QueryPress.Bundle (IsTwin)

/-- **Two compiles fail alike** — on the disk, for want of a page of one name, or because a text is no
template. -/
inductive FailAlike : Error → Error → Prop
  | io (e : IoError) : FailAlike (.io e) (.io e)
  | notFound (name : String) : FailAlike (.notFound name) (.notFound name)
  | parse (label label' : String) : FailAlike (.parse label) (.parse label')

/-- **Bundles that are made of a pair are twins**, or both fail alike. -/
theorem IsPair.ofRoot (hp : IsPair settings root root') (hentry : root.name = entry)
    (hfile : root'.name = file) (hw : World.Beside (home ++ [file]) v w)
    (h : Chain.IsPaired entry file settings c c')
    (hsilent : ∀ r, Leads (Chain.answer v c) root r → IsSilent entry file r.source)
    (label label' : String) :
    (∃ e e', FailAlike e e' ∧ (Bundle.ofRoot v label root c).1 = .error e ∧
      (Bundle.ofRoot w label' root' c').1 = .error e') ∨
    ∃ b b' d d', Bundle.ofRoot v label root c = (.ok b, d) ∧
      Bundle.ofRoot w label' root' c' = (.ok b', d') ∧ IsTwin root root' b b' ∧
      Chain.IsPaired entry file settings d d' := by
  subst hentry hfile
  rw [Bundle.ofRoot, Bundle.ofRoot]
  obtain ⟨e, d, d', hv, hw'⟩ | ⟨rest, d, d', hv, hw', hrest, hd⟩ := h.collect hw hp.source rfl rfl hp.ends
      fun done waiting hreach r hr => (hsilent r ⟨done, waiting, hreach, hr⟩).shuns
  · obtain ⟨x, rfl⟩ | ⟨ref, -, rfl⟩ := Chain.why_not_collect h.sound (congrArg Prod.fst hv) <;>
      rw [hv, hw']
    · exact .inl ⟨_, _, .io x, rfl, rfl⟩
    · exact .inl ⟨_, _, .notFound _, rfl, rfl⟩
  · have hend := Chain.ends_collect h.sound v root
    rw [hv] at hend
    have hfixes := Bundle.fixes_texts hp.ends fun r hr =>
      hsilent r ⟨root :: rest, [], hend.reaches, List.mem_append_left _ hr⟩
    rw [hv, hw']
    dsimp only
    rw [← Bundle.renamed_texts_root hp hrest]
    obtain ⟨hnone, hnone'⟩ | ⟨book, book', hadd, hadd', hbook⟩ := (Book.IsRenamed.nil _).add? hfixes
    · rw [hnone, hnone']
      exact .inl ⟨_, _, .parse label label', rfl, rfl⟩
    · have hfree : book.source? root'.name = none := by
        have hnot := Bundle.not_mem_names_of_isApart hp.ends hrest
        rw [Book.source?_add? hadd, Bundle.lookup_texts_of_not_mem fun hin =>
          (List.mem_cons.1 hin).elim hp.differ.symm hnot]
        rfl
      rw [hadd, hadd']
      exact .inr ⟨_, _, d, d', rfl, rfl, ⟨rfl, rfl, hbook, hfree, rest, rfl, rfl, hrest⟩, hd⟩

/-- The text of a root is that of the entry. -/
theorem Bundle.source?_of_ofRoot {label : String} {b : Bundle} (hc : c.IsSound)
    (h : (Bundle.ofRoot w label root c).1 = .ok b) : b.book.source? b.entry = some root.source := by
  obtain ⟨members, book, hmembers, hadd, rfl⟩ := (Bundle.ofRoot_cases w label root c).2 b h
  obtain ⟨hclosure, -⟩ := Chain.isClosure_of_collect hc hmembers
  exact Bundle.agrees_of_add? hclosure.nodup hadd root (List.mem_of_mem_head? hclosure.head)

theorem Bundle.isSound_ofRoot (hc : c.IsSound) (w : World) (label : String) (root : Resource) :
    (Bundle.ofRoot w label root c).2.IsSound := by
  obtain ⟨asked, hasks, -⟩ := (Chain.walks_collectFrom hc w [root.name] [root]).asks hc
  rw [(Bundle.ofRoot_cases w label root c).1]
  exact hasks.keeps (fun n _ _ hc => hc.find w n) hc

/-! ## Refreshes -/

/-- What is put in place of other resources leaves the root in front. -/
theorem Bundle.foldl_put_root {rest : List Resource} : ∀ {changed : List Resource},
    (∀ r ∈ changed, root.name ≠ r.name) →
      changed.foldl (fun rs r => put r rs) (root :: rest)
        = root :: changed.foldl (fun rs r => put r rs) rest
  | [], _ => rfl
  | r :: changed, h => by
    obtain ⟨hr, hchanged⟩ := List.forall_mem_cons.1 h
    rw [List.foldl_cons, List.foldl_cons, put, if_neg hr, foldl_put_root hchanged]

/-- **Twins that take the same changes stay twins.** -/
theorem Bundle.IsTwin.update {b b' : Bundle} (ht : IsTwin root root' b b')
    (hends : Path.EndsIn root'.name root'.name) {changed : List Resource}
    (hapart : ∀ r ∈ changed, r.IsApart root.name root'.name)
    (hsilent : ∀ r ∈ changed, IsSilent root.name root'.name r.source) :
    IsTwin root root' (b.update changed) (b'.update changed) := by
  have hadd := ht.book.add? (fixes_texts hends hsilent)
  rw [renamed_texts hends hapart] at hadd
  rw [Bundle.update, Bundle.update]
  obtain ⟨hnone, hnone'⟩ | ⟨book, book', hadd, hadd', hbook⟩ := hadd
  · rw [hnone, hnone']
    exact ht
  · have hfree : book.source? root'.name = none := by
      rw [Book.source?_add? hadd, lookup_texts_of_not_mem (not_mem_names_of_isApart hends hapart)]
      exact ht.free
    rw [hadd, hadd']
    obtain ⟨rest, hrest, hrest', hothers⟩ := ht.resources
    refine ⟨ht.entry, ht.entry', hbook, hfree, changed.foldl (fun rs r => put r rs) rest, ?_, ?_,
      fun r hr => ?_⟩
    · rw [hrest]
      exact foldl_put_root fun r hr => (hapart r hr).name.other.symm
    · rw [hrest']
      exact foldl_put_root fun r hr => ((hapart r hr).name.ne hends).symm
    · exact (mem_of_mem_foldl_put hr).elim (hapart r) (hothers r)

/-- **Twins stay twins through a refresh** that meets no text which mentions an entry. -/
theorem Bundle.IsTwin.refresh {b b' : Bundle} (hp : IsPair settings root root')
    (ht : IsTwin root root' b b') (hw : World.Beside (home ++ [root'.name]) v w)
    (h : Chain.IsPaired root.name root'.name settings c c')
    (hsilent : ∀ r, Chain.Meets v c b.resources r → IsSilent root.name root'.name r.source) :
    IsTwin root root' (b.refresh v c).1 (b'.refresh w c').1 ∧
      Chain.IsPaired root.name root'.name settings (b.refresh v c).2 (b'.refresh w c').2 := by
  obtain ⟨rest, hrest, hrest', hothers⟩ := ht.resources
  rw [hrest] at hsilent
  rw [Bundle.refresh, Bundle.refresh, hrest, hrest']
  obtain ⟨e, d, d', hv, hw', hd⟩ | ⟨changed, d, d', hv, hw', hchanged, hd⟩ :=
    (h.collectChanges hw hp.rests hp.rests' rfl rfl hp.ends hothers fun r hr =>
      (hsilent r hr).shuns).cases
  · rw [hv, hw']
    exact ⟨ht, hd⟩
  · have hmet := fun r => Chain.meets_iff (r := r) h.sound (congrArg Prod.fst hv)
    rw [hv, hw']
    exact ⟨ht.update hp.ends hchanged fun r hr => hsilent r ((hmet r).2 hr), hd⟩

end QueryPress
