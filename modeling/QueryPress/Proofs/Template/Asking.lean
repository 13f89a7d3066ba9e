import QueryPress.Proofs.Template.Making
import QueryPress.Proofs.Template.Settling

/-!
# Proofs/Template/Asking — what a compile that finds nothing has asked for

A compile begins with a root: the text itself in memory, or what the loaders have under the name of
the file that it was written to.  If it answers that a page is not found, a text that the root leads to
refers to that page (`notFound_of_compile`).  Whether the text asks for the page when it is read as a
page is another matter (`IsMeant`).
-/

namespace QueryPress

namespace Answers

variable {A : Answers} {root : Resource} {ref : Reference}

/-- **A root leads to a text** — a walk from the root reaches it. -/
def Leads (A : Answers) (root r : Resource) : Prop :=
  ∃ done waiting, Reaches A [] [root] done waiting ∧ r ∈ done ++ waiting

theorem leads_self (A : Answers) (root : Resource) : A.Leads root root := ⟨[], [root], .start, by simp⟩

/-- **A page that is missing is one that a text asks for**, if what the text refers to is meant. -/
theorem IsMissing.asked (h : A.IsMissing root ref) :
    ∃ r, A.Leads root r ∧ (IsMeant r.source →
      ∃ q ∈ Page.asked r.source, A.Misses [root.name] q) := by
  obtain ⟨done, waiting, hreach, r, hr, href, hneeded, hnone⟩ := h
  refine ⟨r, ⟨done, waiting, hreach, hr⟩, fun hmeant => ?_⟩
  obtain ⟨q, hq, hneeded', hsub⟩ := hmeant ref href hneeded
  exact ⟨q, hq, hneeded', fun n hn => hnone n (hsub hn)⟩

end Answers

namespace Compiler

variable {w w' : World} {k k' : Compiler} {t : Template} {root : Resource} {c : Chain}
  {b : Bundle} {label n body s : String} {name : Option String} {options : Table String}

/-- **A compiler is fitted** — its loaders are in a state that loaders come to, and the first of them
keeps for good what it finds in the working directory. -/
structure IsFitted (k : Compiler) : Prop where
  settings : ∃ others : List LoaderSettings, k.chain.map Loader.settings =
    { name := Settings.ephemeralLoader, paths := [k.workingDirectory], cache := true,
      checkInterval := .never } :: others
  reachable : k.chain.Reachable

/-- **The first loader finds what was written.** -/
theorem answer_of_written (hk : k.IsFitted) (hn : Path.isConfined n = true)
    (hfile : w.isFile (k.workingDirectory.join n) = true) :
    Chain.answer w k.chain n ≠ .ok none := by
  obtain ⟨others, heq⟩ := hk.settings
  obtain ⟨l, ls, hchain, hset, -⟩ := List.map_eq_cons_iff.1 heq
  rw [hchain]
  have hload : (l.load w n).1 ≠ .ok none := load_ne_none (by rw [hset]) hn hfile
  rw [Chain.answer_cons]
  cases h : (l.load w n).1 with
  | error e => simp
  | ok found =>
    cases found with
    | none => exact absurd h hload
    | some r => simp

/-! ## The bundle of a name -/

/-- **To compile a name** is to fail on the disk, to find nothing under it, or to make a bundle of what
is there. -/
theorem compileNamed_cases (w : World) (label n : String) (c : Chain) :
    (∃ x, (compileNamed w label n c).1 = .error (.io x)) ∨
    (Chain.answer w c n = .ok none ∧ (compileNamed w label n c).1 = .error (.notFound n)) ∨
    ∃ root, Chain.answer w c n = .ok (some root) ∧
      compileNamed w label n c = Bundle.ofRoot w label root (c.find w n).2 := by
  rw [compileNamed, Chain.resolve, Chain.answer]
  rcases hf : c.find w n with ⟨(e | _ | root), c'⟩
  · obtain ⟨x, rfl⟩ := Chain.exists_io_of_answer (congrArg Prod.fst hf)
    exact .inl ⟨x, rfl⟩
  · exact .inr (.inl ⟨rfl, rfl⟩)
  · exact .inr (.inr ⟨root, rfl, rfl⟩)

/-- Nothing is under the name, or a page is missing that a text refers to. -/
theorem notFound_of_ofRoot (hc : c.IsSound)
    (h : (Bundle.ofRoot w label root c).1 = .error (.notFound s)) :
    ∃ ref, (Chain.answer w c).IsMissing root ref := by
  rw [Bundle.ofRoot] at h
  rcases hcollect : c.collect w root with ⟨(e | members), c'⟩ <;> rw [hcollect] at h
  · obtain ⟨x, rfl⟩ | ⟨ref, hmissing, -⟩ := Chain.why_not_collect hc (congrArg Prod.fst hcollect)
    · cases h
    · exact ⟨ref, hmissing⟩
  · dsimp only at h
    split at h <;> cases h

theorem notFound_of_compileNamed (hc : c.IsSound)
    (h : (compileNamed w label n c).1 = .error (.notFound s)) :
    Chain.answer w c n = .ok none ∨ ∃ root ref, Chain.answer w c n = .ok (some root) ∧
      (Chain.answer w c).IsMissing root ref := by
  obtain ⟨x, hx⟩ | ⟨hnone, -⟩ | ⟨root, hroot, hx⟩ := compileNamed_cases w label n c
  · rw [hx] at h
    cases h
  · exact .inl hnone
  · rw [hx] at h
    obtain ⟨ref, hmissing⟩ := notFound_of_ofRoot (hc.find w n) h
    rw [Chain.answer_find hroot] at hmissing
    exact .inr ⟨root, ref, hroot, hmissing⟩

/-! ## The root of a template -/

/-- **Where the root of a template comes from, and the loaders when its bundle is made** — it is a text
in memory, or the loaders were asked for it. -/
inductive Roots (w : World) (k : Compiler) (t : Template) : Resource → Chain → Prop
  | inMemory {body : String} : t.origin = .inline →
      Roots w k t (inlineResource (traceId body) body) k.chain
  | found {n : String} {root : Resource} : Chain.answer w k.chain n = .ok (some root) →
      Roots w k t root (k.chain.find w n).2

theorem exists_roots_of_compileNamed (h : compileNamed w label n k.chain = (.ok t.bundle, k'.chain)) :
    ∃ label root c, Roots w k t root c ∧ Bundle.ofRoot w label root c = (.ok t.bundle, k'.chain) := by
  obtain ⟨x, hx⟩ | ⟨-, hx⟩ | ⟨root, hroot, hx⟩ := compileNamed_cases w label n k.chain <;>
    rw [h] at hx
  · cases hx
  · cases hx
  · exact ⟨label, root, _, .found hroot, hx.symm⟩

/-- **Every template that is made has a root**, whatever loaders have made it. -/
theorem IsMade.exists_roots (h : IsMade w k t k' w') :
    ∃ label root c, Roots w' k t root c ∧
      Bundle.ofRoot w' label root c = (.ok t.bundle, k'.chain) := by
  cases h with
  | compiled h =>
    obtain ⟨hmemory, rfl⟩ | hfile := compile_eq_ok h
    · obtain ⟨horigin, -, label, hbundle⟩ := compileEphemeral_eq_ok hmemory
      exact ⟨label, _, _, .inMemory horigin, hbundle⟩
    · obtain ⟨-, -, -, label, n, serial, -, hnamed⟩ := compileMaterialized_eq_ok hfile
      exact exists_roots_of_compileNamed hnamed
  | stored h => exact exists_roots_of_compileNamed (compileStored_eq_ok h).2.2

theorem Roots.isSound (h : Roots w k t root c) (hk : k.chain.IsSound) : c.IsSound := by
  cases h with
  | inMemory => exact hk
  | found => exact hk.find w _

/-- **Every template that is made is closed**, whatever loaders have made it. -/
theorem IsMade.isClosed (hk : k.chain.IsSound) (h : IsMade w k t k' w') : t.bundle.IsClosed := by
  obtain ⟨label, root, c, hroots, hbundle⟩ := h.exists_roots
  exact Bundle.isClosed_of_ofRoot (hroots.isSound hk) (congrArg Prod.fst hbundle)

/-! ## Every compile -/

/-- **What a compile begins with** — the text in memory, or the file that it was written to, as the
loaders have it in the world that holds the file. -/
inductive Begins (w : World) (k : Compiler) (body : String) : World → Resource → Prop
  | inMemory : Begins w k body w (inlineResource (traceId body) body)
  | written {n serial : Nat} {w' : World} {root : Resource} :
      World.writeText { w with serial } ((w.absolute k.workingDirectory).join (fileName n)) body
        = .ok w' →
      Chain.answer w' k.chain (fileName n) = .ok (some root) → Begins w k body w' root

theorem notFound_of_compileMaterialized (hk : k.IsFitted) (hw : w.IsRooted)
    (h : (k.compileMaterialized w name body options).1 = .error (.notFound s)) :
    ∃ w' root ref, Begins w k body w' root ∧ (Chain.answer w' k.chain).IsMissing root ref := by
  obtain ⟨n, hpath, hfile⟩ := k.exists_nextFile w
  obtain ⟨serial, hm | ⟨v, hwrite, ⟨e, c, hnamed, hm⟩ | ⟨bundle, c, -, hm⟩⟩⟩ :=
    k.compileMaterialized_ways w name body options <;> rw [hm] at h <;> cases h
  rw [hpath] at hwrite
  rw [hfile] at hnamed
  have hrooted : World.IsRooted { w with serial } := ⟨hw.absolute, hw.straight⟩
  rcases notFound_of_compileNamed hk.reachable.isSound (congrArg Prod.fst hnamed) with
    hnone | ⟨root, ref, hroot, hmissing⟩
  · exact absurd hnone
      (answer_of_written hk (isConfined_fileName n) (isFile_of_written hrooted hwrite))
  · exact ⟨v, root, ref, .written hwrite hroot, hmissing⟩

/-- **A compile that finds nothing** has come to a text that refers to a page that is missing. -/
theorem notFound_of_compile (hk : k.IsFitted) (hw : w.IsRooted) {source : String}
    (h : (k.compile w name source options).1 = .error (.notFound s)) :
    ∃ w' root ref, Begins w k (Strategy.classify k.marker source).2 w' root ∧
      (Chain.answer w' k.chain).IsMissing root ref := by
  obtain ⟨n, hway⟩ | ⟨asked, -, ⟨-, hway⟩ | ⟨-, hway⟩⟩ := k.compile_ways w name source options <;>
    rw [hway] at h
  · cases h
  · simp only [compileEphemeral] at h
    obtain ⟨ref, hmissing⟩ := notFound_of_ofRoot hk.reachable.isSound (map_eq_error.1 h)
    exact ⟨w, _, ref, .inMemory, hmissing⟩
  · exact notFound_of_compileMaterialized hk hw h

end Compiler

end QueryPress
