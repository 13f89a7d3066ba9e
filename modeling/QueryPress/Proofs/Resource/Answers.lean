import QueryPress.Proofs.Resource.Soundness
import QueryPress.Resource.Collection

/-!
# Proofs/Resource/Answers — while the disk stands still a chain is one function of the name

Asking for a name changes the loaders, but no later answer of theirs (`answer_find`).  So a walk
through references, which asks again and again, comes to what it would come to with a fixed function
in place of the chain: `follow` and `collectTo` are `Answers.follow` and `Answers.collectTo` at
`Chain.answer`.
-/

namespace QueryPress

/-- What is said of each name: nothing, a resource, or why it could not be found out. -/
abbrev Answers := String → Except Error (Option Resource)

namespace Answers

variable (A : Answers)

/-- The first of some names under which there is something. -/
def first : List String → Except Error (Option Resource)
  | [] => .ok none
  | n :: ns =>
    match A n with
    | .ok none => first ns
    | answer => answer

/-- What is found for references beyond the known names. -/
def follow : (known : List String) → List Reference → Except Error (List Resource)
  | _, [] => .ok []
  | known, ref :: refs =>
    if ref.candidates.any (known.contains ·) then follow known refs
    else
      match A.first ref.candidates with
      | .error e => .error e
      | .ok none => if ref.optional then follow known refs else .error (.notFound ref.described)
      | .ok (some r) => (follow (r.name :: known) refs).map (r :: ·)

end Answers

namespace Chain

variable {w : World} {c c' : Chain} {name : String} {a : Option Resource}

/-- What the loaders say of a name. -/
def answer (w : World) (c : Chain) : Answers := fun name => (c.find w name).1

/-- The states a chain can come to, loader by loader. -/
def Reachable (c : Chain) : Prop := ∀ l ∈ c, l.Reachable

/-- Every loader's tables are sound. -/
def IsSound (c : Chain) : Prop := ∀ l ∈ c, l.IsSound

theorem Reachable.isSound (h : c.Reachable) : c.IsSound := fun l hl => (h l hl).isSound

/-- New loaders are a chain in a state it can come to. -/
theorem reachable_start (settings : List LoaderSettings) :
    Reachable (settings.map fun settings => { settings }) := by
  intro l hl
  obtain ⟨s, -, rfl⟩ := List.mem_map.1 hl
  exact .start s

/-- **A question to the chain ends at the first loader** — with its failure or its resource — **or
goes on to the others.** -/
theorem find_cases (w : World) (name : String) (l : Loader) (ls : Chain) :
    (∃ e, (l.load w name).1 = .error e ∧
      find w name (l :: ls) = (.error (.io e), (l.load w name).2 :: ls)) ∨
    (∃ r, (l.load w name).1 = .ok (some r) ∧
      find w name (l :: ls) = (.ok (some r), (l.load w name).2 :: ls)) ∨
    ((l.load w name).1 = .ok none ∧
      find w name (l :: ls) = ((find w name ls).1, (l.load w name).2 :: (find w name ls).2)) := by
  rw [find]
  rcases l.load w name with ⟨(e | _ | r), l'⟩
  · exact .inl ⟨e, rfl, rfl⟩
  · exact .inr (.inr ⟨rfl, rfl⟩)
  · exact .inr (.inl ⟨r, rfl, rfl⟩)

/-- What a chain says of a name is a matter of what its first loader says and of what the others
say. -/
theorem answer_cons (l : Loader) (ls : Chain) :
    answer w (l :: ls) name = match (l.load w name).1 with
      | .error e => .error (.io e)
      | .ok (some r) => .ok (some r)
      | .ok none => answer w ls name := by
  obtain ⟨e, hl, h⟩ | ⟨r, hl, h⟩ | ⟨hl, h⟩ := find_cases w name l ls <;>
    simp only [answer, h, hl]

/-- **Asking changes no answer** — as long as it does not fail. -/
theorem answer_find (h : answer w c name = .ok a) :
    answer w (find w name c).2 = answer w c := by
  funext other
  induction c with
  | nil => rfl
  | cons l ls ih =>
    obtain ⟨e, hl, hf⟩ | ⟨r, hl, hf⟩ | ⟨hl, hf⟩ := find_cases w name l ls
    · simp [answer, hf] at h
    · rw [hf, answer_cons, answer_cons, Loader.fst_load_load_of_ok hl]
    · have hls : answer w ls name = .ok a := by rwa [answer_cons, hl] at h
      rw [hf, answer_cons, answer_cons, Loader.fst_load_load_of_ok hl, ih hls]

theorem IsSound.find (h : c.IsSound) (w : World) (name : String) : (find w name c).2.IsSound := by
  induction c with
  | nil => exact h
  | cons l ls ih =>
    obtain ⟨hl, hls⟩ := List.forall_mem_cons.1 h
    obtain ⟨e, -, hf⟩ | ⟨r, -, hf⟩ | ⟨-, hf⟩ := find_cases w name l ls <;> rw [hf]
    · exact List.forall_mem_cons.2 ⟨hl.load w name, hls⟩
    · exact List.forall_mem_cons.2 ⟨hl.load w name, hls⟩
    · exact List.forall_mem_cons.2 ⟨hl.load w name, ih hls⟩

/-- What a sound chain has under a name bears that name. -/
theorem IsSound.name_of_answer (h : c.IsSound) {r : Resource}
    (hr : answer w c name = .ok (some r)) : r.name = name := by
  induction c with
  | nil => simp [answer, Chain.find] at hr
  | cons l ls ih =>
    obtain ⟨hl, hls⟩ := List.forall_mem_cons.1 h
    rw [answer_cons] at hr
    cases hload : (l.load w name).1 with
    | error e => simp [hload] at hr
    | ok found =>
      cases found with
      | none => exact ih hls (by simpa [hload] using hr)
      | some r' =>
        obtain rfl : r' = r := by simpa [hload] using hr
        exact (hl.eq_of_load hload).1

/-- Only the disk can keep a chain from answering. -/
theorem exists_io_of_answer {e : Error} (h : answer w c name = .error e) : ∃ x, e = .io x := by
  induction c with
  | nil => simp [answer, Chain.find] at h
  | cons l ls ih =>
    rw [answer_cons] at h
    split at h
    · exact ⟨_, (Except.error.inj h).symm⟩
    · cases h
    · exact ih h

/-! ## References, asked for one after the other -/

/-- The first name there is, and what asking for it leaves behind. -/
theorem fst_findFirst (names : List String) : ∀ c : Chain,
    (findFirst w names c).1 = (answer w c).first names ∧
      ∀ a, (findFirst w names c).1 = .ok a →
        answer w (findFirst w names c).2 = answer w c := by
  induction names with
  | nil => exact fun c => ⟨rfl, fun _ _ => rfl⟩
  | cons n ns ih =>
    intro c
    rcases hf : find w n c with ⟨(e | _ | r), c'⟩
    · have hn : answer w c n = .error e := by rw [answer, hf]
      simp [findFirst, hf, Answers.first, hn]
    · have hn : answer w c n = .ok none := by rw [answer, hf]
      have hc' : answer w c' = answer w c := by simpa [hf] using answer_find hn
      simpa [findFirst, hf, Answers.first, hn, hc'] using ih c'
    · have hn : answer w c n = .ok (some r) := by rw [answer, hf]
      have hc' : answer w c' = answer w c := by simpa [hf] using answer_find hn
      simp [findFirst, hf, Answers.first, hn, hc']

/-- **A reference is of a known name, cannot be asked for, is passed over, is missing, or brings in a
text.** -/
theorem follow_cases (w : World) (known : List String) (ref : Reference) (refs : List Reference)
    (c : Chain) :
    ((∃ n ∈ ref.candidates, n ∈ known) ∧ follow w known (ref :: refs) c = follow w known refs c) ∨
    ((∀ n ∈ ref.candidates, n ∉ known) ∧
      ((∃ e c', findFirst w ref.candidates c = (.error e, c') ∧
          follow w known (ref :: refs) c = (.error e, c')) ∨
       (∃ c', findFirst w ref.candidates c = (.ok none, c') ∧ ref.optional = true ∧
          follow w known (ref :: refs) c = follow w known refs c') ∨
       (∃ c', findFirst w ref.candidates c = (.ok none, c') ∧ ref.optional = false ∧
          follow w known (ref :: refs) c = (.error (.notFound ref.described), c')) ∨
       (∃ r c', findFirst w ref.candidates c = (.ok (some r), c') ∧
          follow w known (ref :: refs) c = ((follow w (r.name :: known) refs c').1.map (r :: ·),
            (follow w (r.name :: known) refs c').2)))) := by
  rw [follow]
  by_cases hany : ref.candidates.any (known.contains ·) = true
  · exact .inl ⟨by simpa using hany, if_pos hany⟩
  · refine .inr ⟨by simpa using hany, ?_⟩
    rw [if_neg hany]
    rcases findFirst w ref.candidates c with ⟨(e | _ | r), c'⟩ <;> dsimp only
    · exact .inl ⟨e, c', rfl, rfl⟩
    · cases ho : ref.optional
      · exact .inr (.inr (.inl ⟨c', rfl, rfl, rfl⟩))
      · exact .inr (.inl ⟨c', rfl, rfl, rfl⟩)
    · refine .inr (.inr (.inr ⟨r, c', rfl, ?_⟩))
      rcases follow w (r.name :: known) refs c' with ⟨(e | found), c''⟩ <;> rfl

/-- **Following references through a chain is following them through its answers**, which stay as
they are. -/
theorem fst_follow (refs : List Reference) : ∀ (known : List String) (c : Chain),
    (follow w known refs c).1 = (answer w c).follow known refs ∧
      ∀ found, (follow w known refs c).1 = .ok found →
        answer w (follow w known refs c).2 = answer w c := by
  induction refs with
  | nil => exact fun known c => ⟨rfl, fun _ _ => rfl⟩
  | cons ref refs ih =>
    intro known c
    rw [follow, Answers.follow]
    split
    · exact ih known c
    · obtain ⟨hfirst, hkeep⟩ := fst_findFirst (w := w) ref.candidates c
      rcases hf : findFirst w ref.candidates c with ⟨(e | _ | r), c'⟩ <;>
        rw [hf] at hfirst hkeep <;> rw [← hfirst]
      · simp
      · have hc' := hkeep none rfl
        dsimp only
        split
        · simpa only [hc'] using ih known c'
        · simp
      · have hc' := hkeep (some r) rfl
        obtain ⟨hfollow, hrest⟩ := ih (r.name :: known) c'
        rcases hg : follow w (r.name :: known) refs c' with ⟨(e | found), c''⟩ <;>
          rw [hg] at hfollow hrest <;> rw [hc'] at hfollow hrest
        · simp [hg, ← hfollow, Except.map]
        · simp [hg, ← hfollow, Except.map, hrest found rfl]

/-! ## References are questions, one after the other -/

/-- **Asking for some names**, one after the other, whatever the answers are. -/
inductive Asks (w : World) : List String → Chain → Chain → Prop
  | nothing {c : Chain} : Asks w [] c c
  | next {n : String} {ns : List String} {c c' : Chain} :
      Asks w ns (find w n c).2 c' → Asks w (n :: ns) c c'

theorem Asks.append {ns ms : List String} {c c' c'' : Chain} (h : Asks w ns c c')
    (h' : Asks w ms c' c'') : Asks w (ns ++ ms) c c'' := by
  induction h with
  | nothing => exact h'
  | next _ ih => exact .next (ih h')

/-- **What every question keeps is kept.** -/
theorem Asks.keeps {P : Chain → Prop} {ns : List String} {c c' : Chain} (h : Asks w ns c c')
    (hfind : ∀ n ∈ ns, ∀ c, P c → P (find w n c).2) (hc : P c) : P c' := by
  induction h with
  | nothing => exact hc
  | next _ ih =>
    obtain ⟨hn, hns⟩ := List.forall_mem_cons.1 hfind
    exact ih hns (hn _ hc)

/-- Names that could all be asked for leave the answers as they were. -/
theorem Asks.answer_eq {ns : List String} {c c' : Chain} (h : Asks w ns c c')
    (hok : ∀ n ∈ ns, ∃ a, answer w c n = .ok a) : answer w c' = answer w c := by
  induction h with
  | nothing => rfl
  | next _ ih =>
    obtain ⟨⟨a, ha⟩, hns⟩ := List.forall_mem_cons.1 hok
    have hfind := answer_find ha
    rw [ih (by rwa [hfind]), hfind]

theorem asks_findFirst : ∀ (names : List String) (c : Chain),
    ∃ asked, Asks w asked c (findFirst w names c).2 ∧ asked ⊆ names ∧
      ∀ a, (findFirst w names c).1 = .ok a →
        (∀ n ∈ asked, ∃ a, answer w c n = .ok a) ∧ (a = none → names ⊆ asked) ∧
        ∀ r, a = some r → ∃ n ∈ asked, answer w c n = .ok (some r)
  | [], c => ⟨[], .nothing, List.Subset.refl _, by simp [findFirst]⟩
  | n :: ns, c => by
    rw [findFirst]
    rcases hf : find w n c with ⟨(e | _ | r), c'⟩
    · exact ⟨[n], .next (by rw [hf]; exact .nothing), by simp, by simp⟩
    · have hn : answer w c n = .ok none := by rw [answer, hf]
      have hc' : answer w c' = answer w c := by simpa [hf] using answer_find hn
      obtain ⟨asked, hasks, hsub, hok⟩ := asks_findFirst ns c'
      refine ⟨n :: asked, .next (by rwa [hf]), List.cons_subset_cons n hsub, fun a ha => ?_⟩
      obtain ⟨hall, hnone, hsome⟩ := hok a ha
      rw [hc'] at hall hsome
      refine ⟨List.forall_mem_cons.2 ⟨⟨_, hn⟩, hall⟩, fun h => List.cons_subset_cons n (hnone h),
        fun r hr => ?_⟩
      obtain ⟨m, hm, hans⟩ := hsome r hr
      exact ⟨m, List.mem_cons_of_mem n hm, hans⟩
    · have hn : answer w c n = .ok (some r) := by rw [answer, hf]
      refine ⟨[n], .next (by rw [hf]; exact .nothing), by simp, fun a ha => ?_⟩
      obtain rfl : some r = a := by simpa using ha
      simp [hn]

end Chain

/-! ## What has been asked for when references were followed -/

/-- **A reference is dealt with** — one of its candidates is a known name, or all of them were asked for. -/
def Reference.IsDealtWith (known asked : List String) (ref : Reference) : Prop :=
  (∃ n ∈ ref.candidates, n ∈ known) ∨ ref.candidates ⊆ asked

theorem Reference.IsDealtWith.mono {known known' asked asked' : List String} {ref : Reference}
    (h : ref.IsDealtWith known asked) (hknown : known ⊆ known') (hasked : asked ⊆ asked') :
    ref.IsDealtWith known' asked' :=
  h.imp (fun ⟨n, hn, hk⟩ => ⟨n, hn, hknown hk⟩) fun hsub _ hn => hasked (hsub hn)

/-- **The names that were asked for account for what was found** for some references — there is an answer
under each, each resource was found under one of them, and every reference is dealt with. -/
structure Answers.Accounts (A : Answers) (known : List String) (refs : List Reference)
    (asked : List String) (found : List Resource) : Prop where
  answered : ∀ n ∈ asked, ∃ a, A n = .ok a
  brings : ∀ r ∈ found, r.name ∈ asked ∧ A r.name = .ok (some r)
  dealtWith : ∀ ref ∈ refs, ref.IsDealtWith (found.map Resource.name ++ known) asked

namespace Answers.Accounts

variable {A : Answers} {known asked asked' : List String} {ref : Reference} {refs : List Reference}
  {found : List Resource} {r : Resource} {n : String}

/-- A reference of a known name needs no question. -/
theorem of_known (h : A.Accounts known refs asked found) (hn : n ∈ ref.candidates) (hk : n ∈ known) :
    A.Accounts known (ref :: refs) asked found where
  answered := h.answered
  brings := h.brings
  dealtWith := List.forall_mem_cons.2 ⟨.inl ⟨n, hn, List.mem_append_right _ hk⟩, h.dealtWith⟩

/-- A reference is passed over when all of its candidates were asked for. -/
theorem passedOver (h : A.Accounts known refs asked' found)
    (hall : ∀ n ∈ asked, ∃ a, A n = .ok a) (hsub : ref.candidates ⊆ asked) :
    A.Accounts known (ref :: refs) (asked ++ asked') found where
  answered n hn := (List.mem_append.1 hn).elim (hall n) (h.answered n)
  brings r hr := (h.brings r hr).imp_left (List.mem_append_right _)
  dealtWith := List.forall_mem_cons.2 ⟨.inr (List.subset_append_of_subset_left _ hsub), fun ref href =>
    (h.dealtWith ref href).mono (List.Subset.refl _) (List.subset_append_right _ _)⟩

/-- A resource was found under a candidate, and is known from there on. -/
theorem brought (h : A.Accounts (r.name :: known) refs asked' found)
    (hall : ∀ n ∈ asked, ∃ a, A n = .ok a) (hin : r.name ∈ asked) (hans : A r.name = .ok (some r))
    (hcand : r.name ∈ ref.candidates) :
    A.Accounts known (ref :: refs) (asked ++ asked') (r :: found) where
  answered n hn := (List.mem_append.1 hn).elim (hall n) (h.answered n)
  brings := List.forall_mem_cons.2 ⟨⟨List.mem_append_left _ hin, hans⟩, fun s hs =>
    (h.brings s hs).imp_left (List.mem_append_right _)⟩
  dealtWith := List.forall_mem_cons.2 ⟨.inl ⟨r.name, hcand, by simp⟩, fun ref href =>
    (h.dealtWith ref href).mono List.perm_middle.subset (List.subset_append_right _ _)⟩

end Answers.Accounts

namespace Chain

variable {w : World} {c c' : Chain} {name : String} {a : Option Resource}

/-- **To follow references is to ask for names that are not known**, and if that comes to its end, they
account for what was found. -/
theorem asks_follow (hc : c.IsSound) : ∀ (refs : List Reference) (known : List String),
    ∃ asked, Asks w asked c (follow w known refs c).2 ∧ (∀ n ∈ asked, n ∉ known) ∧
      ∀ found, (follow w known refs c).1 = .ok found →
        (answer w c).Accounts known refs asked found := by
  intro refs
  induction refs generalizing c with
  | nil =>
    intro known
    refine ⟨[], .nothing, by simp, fun found h => ?_⟩
    obtain rfl : [] = found := by simpa [follow] using h
    exact ⟨by simp, by simp, by simp⟩
  | cons ref refs ih =>
    intro known
    obtain ⟨⟨n, hn, hk⟩, hf⟩ | ⟨hunknown, hways⟩ := follow_cases w known ref refs c
    · obtain ⟨asked, hasks, hnew, hok⟩ := ih hc known
      rw [hf]
      exact ⟨asked, hasks, hnew, fun found hf => (hok found hf).of_known hn hk⟩
    · obtain ⟨asked, hasks, hsub, hok⟩ := asks_findFirst (w := w) ref.candidates c
      have hnew : ∀ n ∈ asked, n ∉ known := fun n hn => hunknown n (hsub hn)
      have hsound : IsSound (findFirst w ref.candidates c).2 :=
        hasks.keeps (fun n _ c hc => hc.find w n) hc
      obtain ⟨-, hkeep⟩ := fst_findFirst (w := w) ref.candidates c
      obtain ⟨e, c', hfirst, hf⟩ | ⟨c', hfirst, -, hf⟩ | ⟨c', hfirst, -, hf⟩ | ⟨r, c', hfirst, hf⟩ :=
        hways <;> rw [hfirst] at hasks hok hsound hkeep <;> rw [hf]
      · exact ⟨asked, hasks, hnew, nofun⟩
      · obtain ⟨hall, hnone, -⟩ := hok none rfl
        obtain ⟨asked', hasks', hnew', hok'⟩ := ih hsound known
        rw [hkeep none rfl] at hok'
        exact ⟨asked ++ asked', hasks.append hasks',
          fun n hn => (List.mem_append.1 hn).elim (hnew n) (hnew' n),
          fun found h => (hok' found h).passedOver hall (hnone rfl)⟩
      · exact ⟨asked, hasks, hnew, nofun⟩
      · obtain ⟨hall, -, hsome⟩ := hok (some r) rfl
        obtain ⟨n, hn, hans⟩ := hsome r rfl
        obtain rfl : r.name = n := hc.name_of_answer hans
        obtain ⟨asked', hasks', hnew', hok'⟩ := ih hsound (r.name :: known)
        rw [hkeep (some r) rfl] at hok'
        refine ⟨asked ++ asked', hasks.append hasks', fun m hm => (List.mem_append.1 hm).elim (hnew m)
          fun hm hk => hnew' m hm (List.mem_cons_of_mem _ hk), fun all h => ?_⟩
        obtain ⟨found, hfound, rfl⟩ := map_eq_ok.1 h
        exact (hok' found hfound).brought hall hn hans (hsub hn)

theorem IsSound.follow (h : c.IsSound) (w : World) (known : List String) (refs : List Reference) :
    (follow w known refs c).2.IsSound := by
  obtain ⟨asked, hasks, -⟩ := asks_follow (w := w) h refs known
  exact hasks.keeps (fun n _ c hc => hc.find w n) h

end Chain

end QueryPress
