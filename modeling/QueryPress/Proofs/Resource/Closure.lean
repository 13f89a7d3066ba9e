import QueryPress.Proofs.Resource.Ending

/-!
# Proofs/Resource/Closure — what is collected for a root is closed under references

How a walk through a chain ends is how a walk through the answers of the chain ends
(`ends_collectFrom`): it has come to a finished stage, or to one from which it cannot go on.  So what
is collected for a root is what the root refers to, directly or through others, each once
(`IsClosure`), and nothing is collected exactly where some text that is reached misses a page.
-/

namespace QueryPress

/-- A text is plain if no reference of it leaves a choice. -/
def IsPlain (text : String) : Prop := ∀ ref ∈ Reference.ofText text, ∃ n, ref.candidates = [n]

instance (text : String) : Decidable (IsPlain text) :=
  decidable_of_iff (∀ ref ∈ Reference.ofText text, ref.candidates.length = 1) (by
    simp only [IsPlain, List.length_eq_one_iff])

namespace Answers

variable {A : Answers} {given : List String} {start members : List Resource} {root : Resource}
  {e : Error}

/-- **How a walk ends** — nothing waits any more, or the references of a text cannot be followed. -/
inductive Ends (A : Answers) (given : List String) (start : List Resource) :
    Except Error (List Resource) → Prop
  | finished {members : List Resource} :
      Reaches A given start members [] → Ends A given start (.ok members)
  | failed {done waiting : List Resource} {r : Resource} {e : Error} :
      Reaches A given start done (r :: waiting) →
      A.follow (given ++ (done ++ r :: waiting).map Resource.name) (Reference.ofText r.source)
        = .error e →
      Ends A given start (.error e)

theorem Ends.reaches (h : Ends A given start (.ok members)) : Reaches A given start members [] := by
  cases h
  assumption

/-- **Why a walk fails** — a text that was reached has a candidate that cannot be asked for, or it
misses a page. -/
theorem Ends.why (h : Ends A given start (.error e)) :
    ∃ done waiting, Reaches A given start done waiting ∧
      ∃ r ∈ done ++ waiting, ∃ ref ∈ Reference.ofText r.source,
        (∃ n ∈ ref.candidates, n ∉ given ++ (done ++ waiting).map Resource.name ∧
          A n = .error e) ∨
        (A.Misses (given ++ (done ++ waiting).map Resource.name) ref ∧
          e = .notFound ref.described) := by
  cases h with
  | @failed done waiting r _ hreach hf =>
    obtain ⟨ref, href, hwhy⟩ := follow_error hf
    exact ⟨done, r :: waiting, hreach, r, by simp, ref, href, hwhy⟩

/-- **A finished walk has reached no text that misses a page.** -/
theorem Reaches.not_misses (hA : A.IsNamed) (hm : Reaches A given start members [])
    {done waiting : List Resource} (h : Reaches A given start done waiting) {r : Resource}
    (hr : r ∈ done ++ waiting) {ref : Reference} (href : ref ∈ Reference.ofText r.source) :
    ¬ A.Misses (given ++ start.map Resource.name) ref := by
  rintro ⟨hneeded, hnone⟩
  have hmem : r ∈ members := (h.prefix_of_finished hm).subset hr
  rcases hm.settled hA r hmem ref href with ⟨n, hn, hin⟩ | ⟨hoptional, -⟩
  · obtain ⟨hnew, hans⟩ := hnone n hn
    rw [List.append_nil, List.mem_append] at hin
    rcases hin with hin | hin
    · exact hnew (List.mem_append_left _ hin)
    · obtain ⟨s, hs, rfl⟩ := List.mem_map.1 hin
      rcases hm.comes hA s (by simpa using hs) with hstart | ⟨-, -, -, hs', -⟩
      · exact hnew (List.mem_append_right _ (List.mem_map_of_mem hstart))
      · rw [hans] at hs'
        cases hs'
  · rw [hneeded] at hoptional
    cases hoptional

/-! ## All that a root refers to -/

/-- **Texts that are reached from a root** — the root first, each name once, and each but the root is
what there is under a name that an earlier one refers to. -/
structure IsReached (A : Answers) (root : Resource) (members : List Resource) : Prop where
  head : members.head? = some root
  nodup : (members.map Resource.name).Nodup
  comes : ∀ r ∈ members, r = root ∨ ∃ earlier, earlier ++ [r] <+: members ∧
    (∃ s ∈ earlier, ∃ ref ∈ Reference.ofText s.source, r.name ∈ ref.candidates) ∧
    A r.name = .ok (some r)

/-- **All that a root refers to** — texts that are reached from it and settle all their
references. -/
structure IsClosure (A : Answers) (root : Resource) (members : List Resource) : Prop
    extends IsReached A root members where
  settled : ∀ r ∈ members, ∀ ref ∈ Reference.ofText r.source,
    A.Settles (members.map Resource.name) ref

/-- **A page is missing** — a text that is reached from the root refers to it, and neither is one of
the candidates the root's name nor is there anything under them. -/
def IsMissing (A : Answers) (root : Resource) (ref : Reference) : Prop :=
  ∃ done waiting, Reaches A [] [root] done waiting ∧
    ∃ r ∈ done ++ waiting, ref ∈ Reference.ofText r.source ∧ A.Misses [root.name] ref

theorem Reaches.isReached (hA : A.IsNamed) {done waiting : List Resource}
    (h : Reaches A [] [root] done waiting) : IsReached A root (done ++ waiting) where
  head := by
    obtain ⟨rest, hrest⟩ := h.prefix_start
    rw [← hrest]
    rfl
  nodup := h.nodup hA (by simp)
  comes r hr := by
    refine (h.comes hA r hr).imp (fun hr => by simpa using hr) ?_
    rintro ⟨earlier, hpre, href, hans, -⟩
    exact ⟨earlier, hpre, href, hans⟩

theorem Reaches.isClosure (hA : A.IsNamed) (h : Reaches A [] [root] members []) :
    IsClosure A root members where
  toIsReached := by simpa using h.isReached hA
  settled r hr ref href := by simpa using h.settled hA r hr ref href

/-! ## Collecting again -/

/-- Resources that settle each other's references, where there is nothing else under their names. -/
structure IsComplete (A : Answers) (root : Resource) (rs : List Resource) : Prop where
  holds : root ∈ rs
  current : ∀ r ∈ rs, r.name = root.name ∨ A r.name = .ok (some r)
  settled : ∀ r ∈ rs, ∀ ref ∈ Reference.ofText r.source, A.Settles (rs.map Resource.name) ref
  plain : ∀ r ∈ rs, IsPlain r.source

variable {rs done waiting : List Resource} {r : Resource} {ref : Reference} {n : String}

/-- What can be found for a candidate beyond the root is one of the resources, or there is nothing. -/
theorem IsComplete.answer_eq (h : A.IsComplete root rs) (hr : r ∈ rs)
    (href : ref ∈ Reference.ofText r.source) (hn : n ∈ ref.candidates) (hne : n ≠ root.name) :
    (∃ s ∈ rs, A n = .ok (some s)) ∨ (ref.optional = true ∧ A n = .ok none) := by
  obtain ⟨m, hm⟩ := h.plain r hr ref href
  obtain rfl : n = m := by simpa [hm] using hn
  rcases h.settled r hr ref href with ⟨m, hin, hnames⟩ | ⟨hoptional, hnone⟩
  · obtain rfl : m = n := by simpa [hm] using hin
    obtain ⟨s, hs, rfl⟩ := List.mem_map.1 hnames
    exact .inl ⟨s, hs, (h.current s hs).resolve_left hne⟩
  · exact .inr ⟨hoptional, hnone n hn⟩

theorem IsComplete.subset (h : A.IsComplete root rs) (hA : A.IsNamed)
    (hreach : Reaches A [] [root] done waiting) : done ++ waiting ⊆ rs := by
  induction hreach with
  | start => simpa using h.holds
  | @onward done waiting found r hreach hf ih =>
    have happ : done ++ [r] ++ (waiting ++ found) = (done ++ r :: waiting) ++ found := by simp
    rw [happ]
    refine List.append_subset.2 ⟨ih, fun m hm => ?_⟩
    obtain ⟨hnew, hans, ref, href, hcand⟩ := (follow_found hA hf).2 m hm
    have hne : m.name ≠ root.name := by
      intro heq
      obtain ⟨rest, hrest⟩ := hreach.prefix_start
      rw [← hrest, heq] at hnew
      simp at hnew
    rcases h.answer_eq (ih (by simp)) href hcand hne with ⟨s, hs, hans'⟩ | ⟨-, hnone⟩
    · obtain rfl : s = m := by simpa [hans] using hans'.symm
      exact hs
    · rw [hans] at hnone
      cases hnone

/-- **Collecting what is complete already** brings nothing else, and does not fail. -/
theorem IsComplete.ends (h : A.IsComplete root rs) (hA : A.IsNamed)
    {a : Except Error (List Resource)} (hend : Ends A [] [root] a) :
    ∃ members, a = .ok members ∧ members ⊆ rs := by
  cases a with
  | ok members => exact ⟨members, rfl, by simpa using h.subset hA hend.reaches⟩
  | error e =>
    obtain ⟨done, waiting, hreach, r, hr, ref, href, hwhy⟩ := hend.why
    have hroot : root.name ∈ (done ++ waiting).map Resource.name := by
      obtain ⟨rest, hrest⟩ := hreach.prefix_start
      rw [← hrest]
      simp
    have hanswer := fun n hn hne => h.answer_eq (n := n) (h.subset hA hreach hr) href hn hne
    rcases hwhy with ⟨n, hn, hnew, herror⟩ | ⟨⟨hneeded, hmiss⟩, -⟩
    · rcases hanswer n hn (fun heq => hnew (by simpa [heq] using hroot)) with
        ⟨s, -, hans⟩ | ⟨-, hans⟩
      · rw [herror] at hans
        cases hans
      · rw [herror] at hans
        cases hans
    · obtain ⟨n, hn⟩ := List.exists_mem_of_ne_nil _ (Reference.candidates_ne_nil href)
      obtain ⟨hnew, hnone⟩ := hmiss n hn
      rcases hanswer n hn (fun heq => hnew (by simpa [heq] using hroot)) with
        ⟨s, -, hans⟩ | ⟨hoptional, -⟩
      · rw [hnone] at hans
        cases hans
      · rw [hneeded] at hoptional
        cases hoptional

end Answers

namespace Chain

open Answers

variable {w : World} {c c' : Chain} {known given : List String} {start waiting : List Resource}
  {root : Resource}

/-- **A walk through a chain ends as one through its answers.** -/
theorem Walks.ends {a : Except Error (List Resource)} (h : Walks w known waiting c a c') :
    ∀ {A : Answers} {done : List Resource}, answer w c = A → Reaches A given start done waiting →
      (∀ n, n ∈ known ↔ n ∈ given ++ (done ++ waiting).map Resource.name) →
      Ends A given start (a.map (done ++ ·)) := by
  induction h with
  | nothing =>
    rintro A done - hreach -
    simpa [Except.map] using Ends.finished hreach
  | @failed known r waiting c c' e hf =>
    rintro A done rfl hreach hknown
    obtain ⟨hfst, -⟩ := fst_follow (w := w) (Reference.ofText r.source) known c
    rw [hf] at hfst
    rw [follow_congr hknown] at hfst
    exact .failed hreach hfst.symm
  | @onward known r waiting found c c' c'' a hf _ ih =>
    rintro A done rfl hreach hknown
    obtain ⟨hfst, hkeep⟩ := fst_follow (w := w) (Reference.ofText r.source) known c
    rw [hf] at hfst hkeep
    rw [follow_congr hknown] at hfst
    have hend := ih (hkeep found rfl) (hreach.onward hfst.symm) fun n => by
      simp only [List.mem_append, List.mem_map, List.mem_cons, hknown n, List.map_append]
      grind
    have happ : (a.map (r :: ·)).map (done ++ ·) = a.map (done ++ [r] ++ ·) := by
      cases a <;> simp [Except.map]
    rwa [happ]

/-- What a walk that does not fail leaves behind answers as before. -/
theorem Walks.answer_eq {a : Except Error (List Resource)} (h : Walks w known waiting c a c') :
    ∀ members, a = .ok members → answer w c' = answer w c := by
  induction h with
  | nothing => exact fun _ _ => rfl
  | failed => exact fun _ h => by cases h
  | @onward known r waiting found c c' c'' a hf _ ih =>
    intro members h
    obtain ⟨-, hkeep⟩ := fst_follow (w := w) (Reference.ofText r.source) known c
    rw [hf] at hkeep
    cases a with
    | error e => cases h
    | ok rest => exact (ih rest rfl).trans (hkeep found rfl)

/-- **How collecting ends** — `given` with the names of the first texts is what is known. -/
theorem ends_collectFrom (hc : c.IsSound) (w : World)
    (h : ∀ n, n ∈ known ↔ n ∈ given ++ start.map Resource.name) :
    Ends (answer w c) given start (c.collectFrom w known start).1 := by
  have hend := (walks_collectFrom hc w known start).ends rfl .start (by simpa using h)
  cases hcollect : (c.collectFrom w known start).1 <;> simpa [hcollect, Except.map] using hend

theorem ends_collect (hc : c.IsSound) (w : World) (root : Resource) :
    Ends (answer w c) [] [root] (c.collect w root).1 :=
  ends_collectFrom hc w fun n => by simp

theorem isNamed_answer (hc : c.IsSound) (w : World) : (answer w c).IsNamed :=
  fun _ _ h => hc.name_of_answer h

/-! ## What is collected for a root -/

/-- What is collected is all that the root refers to, and the loaders answer as before. -/
theorem isClosure_of_collect (hc : c.IsSound) {members : List Resource}
    (h : (c.collect w root).1 = .ok members) :
    IsClosure (answer w c) root members ∧ answer w (c.collect w root).2 = answer w c := by
  have hend := ends_collect hc w root
  rw [h] at hend
  have hwalk := walks_collectFrom hc w [root.name] [root]
  exact ⟨hend.reaches.isClosure (isNamed_answer hc w), hwalk.answer_eq members h⟩

/-- Nothing is collected because the disk cannot be read, or because a page is missing. -/
theorem why_not_collect (hc : c.IsSound) {e : Error} (h : (c.collect w root).1 = .error e) :
    (∃ x, e = .io x) ∨
      ∃ ref, (answer w c).IsMissing root ref ∧ e = .notFound (", ".intercalate ref.candidates) := by
  have hend := ends_collect hc w root
  rw [h] at hend
  obtain ⟨done, waiting, hreach, r, hr, ref, href, ⟨n, -, -, hn⟩ | ⟨hmiss, he⟩⟩ := hend.why
  · exact .inl (exists_io_of_answer hn)
  · refine .inr ⟨ref, ⟨done, waiting, hreach, r, hr, href, hmiss.anti ?_⟩, he⟩
    obtain ⟨rest, hrest⟩ := hreach.prefix_start
    rw [← hrest]
    simp

/-- **Collecting a root ends with all that the root refers to, or says which page is missing.**

Whatever the loaders hold and however the texts refer to each other, the walk ends.  Where it comes to
an answer, the answer is closed under references and the loaders answer as before.  Where no file
fails to be read, a page is reported missing exactly if a text that is reached needs one and neither
the root nor any loader has it, and the report names the candidates. -/
theorem collect_closure (hc : c.Reachable) (w : World) (root : Resource) :
    Walks w [root.name] [root] c (c.collect w root).1 (c.collect w root).2 ∧
    (∀ members, (c.collect w root).1 = .ok members →
      IsClosure (answer w c) root members ∧ answer w (c.collect w root).2 = answer w c) ∧
    (∀ e, (c.collect w root).1 = .error e → (∃ x, e = .io x) ∨
      ∃ ref, (answer w c).IsMissing root ref ∧ e = .notFound (", ".intercalate ref.candidates)) ∧
    ((∀ x, (c.collect w root).1 ≠ .error (.io x)) →
      ((∃ s, (c.collect w root).1 = .error (.notFound s)) ↔
        ∃ ref, (answer w c).IsMissing root ref)) := by
  have hsound := hc.isSound
  refine ⟨walks_collectFrom hsound w [root.name] [root], fun _ => isClosure_of_collect hsound,
    fun _ => why_not_collect hsound, fun hread => ⟨?_, ?_⟩⟩
  · rintro ⟨s, hs⟩
    obtain ⟨x, hx⟩ | ⟨ref, hmissing, -⟩ := why_not_collect hsound hs
    · cases hx
    · exact ⟨ref, hmissing⟩
  · rintro ⟨ref, done, waiting, hreach, r, hr, href, hmiss⟩
    cases h : (c.collect w root).1 with
    | ok members =>
      have hend := ends_collect hsound w root
      rw [h] at hend
      exact absurd (by simpa using hmiss)
        (hend.reaches.not_misses (isNamed_answer hsound w) hreach hr href)
    | error e =>
      obtain ⟨x, rfl⟩ | ⟨ref', -, rfl⟩ := why_not_collect hsound h
      · exact absurd h (hread x)
      · exact ⟨_, rfl⟩

/-! ## Pages in a ring -/

/-- Two pages below `/pages`, of which one refers to the other and back to the root. -/
def ringWorld : World where
  disk := { entries := [
    (["pages"], .directory),
    (["pages", "b.tera"],
      .file "\x7b% include 'a.tera' %\x7d\x7b% include ['x.tera', 'c.tera'] %\x7d".toUTF8 1),
    (["pages", "c.tera"],
      .file "\x7b% include 'b.tera' %\x7d\x7b% include 'gone' ignore missing %\x7d".toUTF8 2)] }

/-- One loader of those pages, which keeps copies. -/
def ringChain : Chain :=
  [{ settings := { name := "pages", paths := ["/pages"], cache := true, checkInterval := .always } }]

/-- A root that refers to itself and to a page of the ring. -/
def ringRoot : Resource where
  name := "a.tera"
  loader := "inline"
  path := ""
  source := "\x7b% include 'a.tera' %\x7d\x7b% include \"b.tera\" %\x7d"
  modified := none

theorem reachable_ringChain : ringChain.Reachable := Chain.reachable_start [_]

/-- A root that refers to the ring and to pages that are nowhere. -/
def lostRoot : Resource :=
  { ringRoot with source := "\x7b% include 'c.tera' %\x7d\x7b% include ['x.tera', 'y.tera'] %\x7d" }

/-- The ring is collected, each page once, and closed; where a page is nowhere nothing is. -/
theorem collect_ring :
    (∃ members, (ringChain.collect ringWorld ringRoot).1 = .ok members ∧
      members.map Resource.name = ["a.tera", "b.tera", "c.tera"] ∧
      IsClosure (answer ringWorld ringChain) ringRoot members) ∧
    (ringChain.collect ringWorld lostRoot).1 = .error (.notFound "x.tera, y.tera") ∧
    ∃ ref, (answer ringWorld ringChain).IsMissing lostRoot ref := by
  have hnames : ((ringChain.collect ringWorld ringRoot).1.toOption.map
      fun members => members.map Resource.name) = some ["a.tera", "b.tera", "c.tera"] := by
    decide +kernel
  have hlost : (ringChain.collect ringWorld lostRoot).1 = .error (.notFound "x.tera, y.tera") := by
    rfl
  obtain ⟨-, hclosure, -⟩ := collect_closure reachable_ringChain ringWorld ringRoot
  obtain ⟨-, -, -, hmissing⟩ := collect_closure reachable_ringChain ringWorld lostRoot
  refine ⟨?_, hlost, (hmissing fun x => by rw [hlost]; simp).1 ⟨_, hlost⟩⟩
  cases h : (ringChain.collect ringWorld ringRoot).1 with
  | error e => rw [h] at hnames; cases hnames
  | ok members =>
    rw [h] at hnames
    exact ⟨members, rfl, by simpa [Except.toOption] using hnames, (hclosure members h).1⟩

end Chain

end QueryPress
