import QueryPress.Proofs.Template.Strategies

/-!
# Proofs/Template/Questions — a compile asks its loaders for one name after the other

All that a compile does to its loaders is to ask them, in the world it works in, and to let them forget a
name when it fails (`asks_compile`).  The names that it asks for stand in the texts that its root leads to,
but for the name of the root itself (`asks_compileNamed`): a walk asks for candidates of the references of
a text that it has reached (`Walks.asks_reached`).
-/

namespace QueryPress

open Answers (Leads Reaches)

variable {w v : World} {c c' : Chain} {n label : String} {root : Resource}

/-! ## The names that a walk asks for -/

namespace Chain

/-- To follow references is to ask for candidates of theirs. -/
theorem asks_candidates (w : World) : ∀ (refs : List Reference) (known : List String) (c : Chain),
    ∃ asked, Asks w asked c (follow w known refs c).2 ∧ asked ⊆ refs.flatMap Reference.candidates
  | [], _, _ => ⟨[], .nothing, List.nil_subset _⟩
  | ref :: refs, known, c => by
    have hlater : ∀ {asked : List String} {c' : Chain} (known : List String), Asks w asked c c' →
        asked ⊆ ref.candidates → ∃ asked', Asks w asked' c (follow w known refs c').2 ∧
          asked' ⊆ (ref :: refs).flatMap Reference.candidates := by
      intro asked c' known hasks hsub
      obtain ⟨asked', hasks', hsub'⟩ := asks_candidates w refs known c'
      refine ⟨asked ++ asked', hasks.append hasks', ?_⟩
      rw [List.flatMap_cons]
      exact List.append_subset.2 ⟨List.subset_append_of_subset_left _ hsub,
        List.subset_append_of_subset_right _ hsub'⟩
    obtain ⟨asked, hasks, hsub, -⟩ := asks_findFirst (w := w) ref.candidates c
    have hcandidates : asked ⊆ (ref :: refs).flatMap Reference.candidates :=
      List.subset_append_of_subset_left _ hsub
    obtain ⟨-, hf⟩ | ⟨-, ⟨e, c', hc', hf⟩ | ⟨c', hc', -, hf⟩ | ⟨c', hc', -, hf⟩ | ⟨r, c', hc', hf⟩⟩ :=
      follow_cases w known ref refs c <;> rw [hf]
    · exact hlater known .nothing (List.nil_subset _)
    all_goals rw [hc'] at hasks
    · exact ⟨asked, hasks, hcandidates⟩
    · exact hlater known hasks hsub
    · exact ⟨asked, hasks, hcandidates⟩
    · exact hlater (r.name :: known) hasks hsub

variable {known given : List String} {start waiting : List Resource}

/-- **A walk asks for names in texts that it reaches.** -/
theorem Walks.asks_reached {a : Except Error (List Resource)} (h : Walks w known waiting c a c') :
    ∀ {A : Answers} {done : List Resource}, answer w c = A → Reaches A given start done waiting →
      (∀ n, n ∈ known ↔ n ∈ given ++ (done ++ waiting).map Resource.name) →
      ∃ asked, Asks w asked c c' ∧ ∀ n ∈ asked, ∃ done waiting, Reaches A given start done waiting ∧
        ∃ r ∈ done ++ waiting, n ∈ namesIn r.source := by
  induction h with
  | nothing => exact fun _ _ _ => ⟨[], .nothing, by simp⟩
  | @failed known r waiting c c' e hf =>
    rintro A done - hreach -
    obtain ⟨asked, hasks, hsub⟩ := asks_candidates w (Reference.ofText r.source) known c
    rw [hf] at hasks
    exact ⟨asked, hasks, fun n hn => ⟨done, r :: waiting, hreach, r, by simp, hsub hn⟩⟩
  | @onward known r waiting found c c' c'' a hf _ ih =>
    rintro A done rfl hreach hknown
    obtain ⟨hfst, hkeep⟩ := fst_follow (w := w) (Reference.ofText r.source) known c
    obtain ⟨asked, hasks, hsub⟩ := asks_candidates w (Reference.ofText r.source) known c
    rw [hf] at hfst hkeep hasks
    rw [Answers.follow_congr hknown] at hfst
    obtain ⟨asked', hasks', hreached⟩ :=
      ih (hkeep found rfl) (hreach.onward hfst.symm) fun n => by
        simp only [List.mem_append, List.mem_map, List.mem_cons, hknown n, List.map_append]
        grind
    refine ⟨asked ++ asked', hasks.append hasks', fun n hn => ?_⟩
    rcases List.mem_append.1 hn with hn | hn
    · exact ⟨done, r :: waiting, hreach, r, by simp, hsub hn⟩
    · exact hreached n hn

/-- **To collect a root is to ask for names in texts that it leads to.** -/
theorem asks_collect (hc : c.IsSound) (w : World) (root : Resource) :
    ∃ asked, Asks w asked c (c.collect w root).2 ∧
      ∀ n ∈ asked, ∃ r, Leads (answer w c) root r ∧ n ∈ namesIn r.source := by
  have hstart : Reaches (answer w c) [] [root] [] [root] := .start
  obtain ⟨asked, hasks, hreached⟩ :=
    (walks_collectFrom hc w [root.name] [root]).asks_reached rfl hstart fun n => by simp
  refine ⟨asked, hasks, fun n hn => ?_⟩
  obtain ⟨done, waiting, hreach, r, hr, hin⟩ := hreached n hn
  exact ⟨r, ⟨done, waiting, hreach, hr⟩, hin⟩

end Chain

namespace Compiler

variable {k : Compiler} {name : Option String} {source body : String} {options : Table String}

/-- **To compile a name is to ask for it, and for names in texts that it leads to.** -/
theorem asks_compileNamed (hc : c.IsSound) (w : World) (label n : String) :
    ∃ asked, Chain.Asks w (n :: asked) c (compileNamed w label n c).2 ∧ ∀ m ∈ asked, ∃ root r,
      Chain.answer w c n = .ok (some root) ∧ Leads (Chain.answer w c) root r ∧
        m ∈ Chain.namesIn r.source := by
  have hsound := hc.find w n
  rw [compileNamed, Chain.resolve]
  rcases hf : c.find w n with ⟨(e | _ | root), c'⟩ <;> dsimp only
  · exact ⟨[], .next (by rw [hf]; exact .nothing), by simp⟩
  · exact ⟨[], .next (by rw [hf]; exact .nothing), by simp⟩
  · have hroot : Chain.answer w c n = .ok (some root) := congrArg Prod.fst hf
    have hsame := Chain.answer_find hroot
    rw [hf] at hsound hsame
    obtain ⟨asked, hasks, hled⟩ := Chain.asks_collect hsound w root
    rw [(Bundle.ofRoot_cases w label root c').1]
    refine ⟨asked, .next (by rwa [hf]), fun m hm => ?_⟩
    obtain ⟨r, hr, hin⟩ := hled m hm
    exact ⟨root, r, hroot, hsame ▸ hr, hin⟩

/-! ## The questions of a compile -/

/-- **A world that a compile works in** — the one it begins in, or that with the text in a new file, if the
text is put in one. -/
inductive WorksIn (w : World) (k : Compiler) (source : String) (options : Table String) : World → Prop
  | before : WorksIn w k source options w
  | written {asked : Option Strategy} {serial : Nat} {v : World} :
      Strategy.ofOptions options = .ok asked →
      asked.getD (Strategy.classify k.marker source).1 = .materialized →
      World.writeText { w with serial } (k.nextPath w) (Strategy.classify k.marker source).2 = .ok v →
      WorksIn w k source options v

/-- To compile in memory is to ask for names in texts that the text leads to. -/
theorem asks_compileEphemeral (hc : k.chain.IsSound) (w : World) (name : Option String) (body : String)
    (options : Table String) :
    ∃ asked, Chain.Asks w asked k.chain (k.compileEphemeral w name body options).2.chain := by
  obtain ⟨asked, hasks, -⟩ := Chain.asks_collect hc w (inlineResource (traceId body) body)
  refine ⟨asked, ?_⟩
  simp only [compileEphemeral]
  rwa [(Bundle.ofRoot_cases w (name.getD (traceId body)) (inlineResource (traceId body) body) k.chain).1]

/-- **A compile asks its loaders in one world it works in**, and lets them forget the new file if it
fails. -/
theorem asks_compile (hc : k.chain.IsSound) (w : World) (name : Option String) (source : String)
    (options : Table String) : ∃ v asked c,
      WorksIn w k source options v ∧ Chain.Asks v asked k.chain c ∧
        ((k.compile w name source options).2.1.chain = c ∨
          (k.compile w name source options).2.1.chain = c.evict (k.nextFile w)) := by
  obtain ⟨n, h⟩ | ⟨strategy, hstrategy, ⟨-, h⟩ | ⟨hfile, h⟩⟩ := compile_ways w k name source options <;>
    rw [h]
  · exact ⟨w, [], k.chain, .before, .nothing, .inl rfl⟩
  · obtain ⟨asked, hasks⟩ :=
      asks_compileEphemeral hc w name (Strategy.classify k.marker source).2 options
    dsimp only
    exact ⟨w, asked, _, .before, hasks, .inl rfl⟩
  · obtain ⟨serial, hm | ⟨v, hwrite, hways⟩⟩ :=
      k.compileMaterialized_ways w name (Strategy.classify k.marker source).2 options
    · rw [hm]
      exact ⟨w, [], k.chain, .before, .nothing, .inl rfl⟩
    · obtain ⟨asked, hasks, -⟩ :=
        asks_compileNamed hc v (name.getD namelessLabel) (k.nextFile w)
      refine ⟨v, _, _, .written hstrategy hfile hwrite, hasks, ?_⟩
      obtain ⟨e, c, hnamed, hm⟩ | ⟨bundle, c, hnamed, hm⟩ := hways <;> rw [hm, hnamed]
      · exact .inr rfl
      · exact .inl rfl

end Compiler

end QueryPress
