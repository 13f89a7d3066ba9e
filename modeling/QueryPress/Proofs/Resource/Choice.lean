import QueryPress.Proofs.Markup.Holding
import QueryPress.Proofs.Resource.Closure
import QueryPress.Template

/-!
# Proofs/Resource/Choice — which candidate of a reference comes into a collection

A walk meets the references of its texts one after the other, each with the names that are known by
then (`Meets`).  One that has a known candidate brings in nothing; any other brings in the first
candidate there is (`Brings`).  So the first candidate that the loaders have is collected exactly
where it is the root's name or some reference brings it in (`first_candidate_iff`), and a list does
not get its first candidate where another one of its candidates has become known before.
-/

namespace QueryPress

namespace Answers

variable {A : Answers} {known given : List String} {start done waiting members : List Resource}
  {refs refs' : List Reference} {ref : Reference} {found : List Resource} {root r s : Resource}

/-! ## References, met one after the other -/

theorem follow_append : ∀ (refs : List Reference) (known : List String),
    A.follow known (refs ++ refs') = (A.follow known refs).bind fun found =>
      (A.follow (found.map Resource.name ++ known) refs').map (found ++ ·)
  | [], known => by
    simp only [List.nil_append, follow, Except.bind, List.map_nil]
    cases A.follow known refs' <;> rfl
  | ref :: refs, known => by
    rw [List.cons_append]
    obtain ⟨⟨n, hn, hk⟩, hf⟩ | ⟨hnew, ⟨e, hs, hf⟩ | ⟨hs, ho, hf⟩ | ⟨hs, ho, hf⟩ | ⟨s, hs, hf⟩⟩ :=
      follow_cases A known ref (refs ++ refs') <;>
      rw [hf]
    · rw [follow_append refs known, follow, if_pos (List.any_eq_true.2 ⟨n, hn, by simpa using hk⟩)]
    · rw [follow, if_neg (by simpa using hnew), hs]
      rfl
    · rw [follow_append refs known, follow, if_neg (by simpa using hnew), hs]
      simp only [ho, if_true]
    · rw [follow, if_neg (by simpa using hnew), hs]
      simp [ho, Except.bind]
    · rw [follow_append refs (s.name :: known), follow, if_neg (by simpa using hnew), hs]
      cases hrest : A.follow (s.name :: known) refs with
      | error e => simp [hrest, Except.bind, Except.map]
      | ok rest =>
        have hcongr : A.follow (rest.map Resource.name ++ s.name :: known) refs'
            = A.follow (s.name :: (rest.map Resource.name ++ known)) refs' :=
          follow_congr fun n => by simp only [List.mem_append, List.mem_cons]; grind
        simp only [hrest, Except.bind, Except.map, List.map_cons, List.cons_append, hcongr]
        cases A.follow (s.name :: (rest.map Resource.name ++ known)) refs' <;> rfl

/-- **What is found is what the references bring in** that have no known candidate when they are
met. -/
theorem mem_follow_iff (h : A.follow known refs = .ok found) :
    s ∈ found ↔ ∃ before ref after earlier, refs = before ++ ref :: after ∧
      A.follow known before = .ok earlier ∧
      (∀ n ∈ ref.candidates, n ∉ earlier.map Resource.name ++ known) ∧
      A.first ref.candidates = .ok (some s) := by
  constructor
  · intro hs
    induction refs generalizing known found with
    | nil =>
      obtain rfl : [] = found := by simpa [follow] using h
      cases hs
    | cons ref refs ih =>
      obtain ⟨hk, hf⟩ | ⟨hnew, ⟨e, -, hf⟩ | ⟨hfirst, ho, hf⟩ | ⟨-, -, hf⟩ | ⟨t, ht, hf⟩⟩ :=
        follow_cases A known ref refs
      · rw [hf] at h
        obtain ⟨before, ref', after, earlier, rfl, hb, hrest⟩ := ih h hs
        refine ⟨ref :: before, ref', after, earlier, rfl, ?_, hrest⟩
        obtain ⟨n, hn, hk⟩ := hk
        rw [follow, if_pos (List.any_eq_true.2 ⟨n, hn, by simpa using hk⟩), hb]
      · rw [hf] at h
        cases h
      · rw [hf] at h
        obtain ⟨before, ref', after, earlier, rfl, hb, hrest⟩ := ih h hs
        refine ⟨ref :: before, ref', after, earlier, rfl, ?_, hrest⟩
        rw [follow, if_neg (by simpa using hnew), hfirst]
        simp [ho, hb]
      · rw [hf] at h
        cases h
      · rw [hf] at h
        obtain ⟨rest, hrest, rfl⟩ := map_eq_ok.1 h
        rcases List.mem_cons.1 hs with rfl | hs
        · exact ⟨[], ref, refs, [], rfl, rfl, hnew, ht⟩
        · obtain ⟨before, ref', after, earlier, rfl, hb, hnew', hs'⟩ := ih hrest hs
          refine ⟨ref :: before, ref', after, t :: earlier, rfl, ?_, fun n hn hk => ?_, hs'⟩
          · rw [follow, if_neg (by simpa using hnew), ht]
            simp [hb, Except.map]
          · refine hnew' n hn ?_
            simp only [List.map_cons, List.cons_append, List.mem_cons, List.mem_append] at hk ⊢
            grind
  · rintro ⟨before, ref, after, earlier, rfl, hb, hnew, hs⟩
    rw [follow_append, hb, Except.bind, follow, if_neg (by simpa using hnew), hs] at h
    obtain ⟨tail, htail, rfl⟩ := map_eq_ok.1 h
    obtain ⟨rest, -, rfl⟩ := map_eq_ok.1 htail
    simp

/-! ## One step further -/

namespace Reaches

/-- A walk has come through every stage before the one it has reached. -/
theorem stage (h : Reaches A given start done waiting) {k : Nat} (hk : k ≤ done.length) :
    ∃ done' waiting', Reaches A given start done' waiting' ∧ done'.length = k := by
  induction h with
  | start => exact ⟨[], start, .start, (Nat.le_zero.1 hk).symm⟩
  | @onward done waiting found r h hf ih =>
    rcases Nat.lt_or_ge done.length k with hlt | hge
    · refine ⟨_, _, h.onward hf, ?_⟩
      rw [List.length_append, List.length_singleton] at hk ⊢
      omega
    · exact ih hge

/-- **Where a walk finishes, the references of every text that was next could be followed.** -/
theorem next_of_finished (h : Reaches A given start done (r :: waiting))
    (hm : Reaches A given start members []) :
    ∃ found, A.follow (given ++ (done ++ r :: waiting).map Resource.name)
        (Reference.ofText r.source) = .ok found ∧
      Reaches A given start (done ++ [r]) (waiting ++ found) := by
  have hlt : done.length < members.length := by
    refine Nat.lt_of_le_of_ne (h.length_le_of_finished hm) fun heq => ?_
    simpa using (h.unique hm heq).2
  obtain ⟨done', waiting', h', hlen⟩ := hm.stage (Nat.succ_le_of_lt hlt)
  cases h' with
  | start => simp at hlen
  | onward h' hf =>
    obtain ⟨rfl, hcons⟩ := h'.unique h (by simpa using hlen)
    obtain ⟨rfl, rfl⟩ := List.cons.inj hcons
    exact ⟨_, hf, h'.onward hf⟩

end Reaches

/-! ## What references bring in -/

/-- **The walk from a root meets a reference** of the text that is next, behind those that it has
followed already, with some names known by then. -/
def Meets (A : Answers) (root : Resource) (known : List String) (ref : Reference) : Prop :=
  ∃ done r waiting before after found, Reaches A [] [root] done (r :: waiting) ∧
    Reference.ofText r.source = before ++ ref :: after ∧
    A.follow ((done ++ r :: waiting).map Resource.name) before = .ok found ∧
    known = found.map Resource.name ++ (done ++ r :: waiting).map Resource.name

/-- **A reference brings in a text** — no candidate of it is known when the walk meets it, and the
text is the first there is. -/
def Brings (A : Answers) (root s : Resource) : Prop :=
  ∃ known ref, A.Meets root known ref ∧ (∀ n ∈ ref.candidates, n ∉ known) ∧
    A.first ref.candidates = .ok (some s)

/-- Every reference of what is done has been met. -/
theorem Reaches.meets (h : Reaches A [] [root] done waiting) (hr : r ∈ done)
    (href : ref ∈ Reference.ofText r.source) : ∃ known, A.Meets root known ref := by
  induction h with
  | start => cases hr
  | @onward done waiting found s h hf ih =>
    rcases List.mem_append.1 hr with hr | hr
    · exact ih hr
    · obtain rfl : r = s := by simpa using hr
      obtain ⟨before, after, hsplit⟩ := List.append_of_mem href
      rw [List.nil_append, hsplit, follow_append] at hf
      cases hb : A.follow ((done ++ r :: waiting).map Resource.name) before with
      | error e => rw [hb] at hf; cases hf
      | ok earlier => exact ⟨_, done, r, waiting, before, after, earlier, h, hsplit, hb, rfl⟩

/-- What is reached beyond the root was brought in. -/
theorem Reaches.brings (h : Reaches A [] [root] done waiting) (hs : s ∈ done ++ waiting) :
    s = root ∨ A.Brings root s := by
  induction h with
  | start => exact .inl (by simpa using hs)
  | @onward done waiting found r h hf ih =>
    have happ : done ++ [r] ++ (waiting ++ found) = (done ++ r :: waiting) ++ found := by simp
    rw [happ] at hs
    rcases List.mem_append.1 hs with hs | hs
    · exact ih hs
    · obtain ⟨before, ref, after, earlier, hsplit, hb, hnew, hfirst⟩ := (mem_follow_iff hf).1 hs
      refine .inr ⟨_, ref, ⟨done, r, waiting, before, after, earlier, h, hsplit, ?_, rfl⟩, ?_, hfirst⟩
      · simpa using hb
      · simpa using hnew

/-- **What is brought in is collected.** -/
theorem Brings.mem_of_finished (h : A.Brings root s) (hm : Reaches A [] [root] members []) :
    s ∈ members := by
  obtain ⟨known, ref, ⟨done, r, waiting, before, after, earlier, hreach, hsplit, hb, rfl⟩, hnew,
    hfirst⟩ := h
  obtain ⟨found, hf, hnext⟩ := hreach.next_of_finished hm
  have hs : s ∈ found :=
    (mem_follow_iff hf).2 ⟨before, ref, after, earlier, hsplit, by simpa using hb,
      by simpa using hnew, hfirst⟩
  refine (hnext.prefix_of_finished hm).subset ?_
  simp [hs]

end Answers

/-! ## The choice among candidates -/

namespace Bundle

variable {members : List Resource} {book : Book} {n : String}

theorem map_fst_texts (rs : List Resource) :
    (texts rs).map Prod.fst = rs.map Resource.name := by
  simp [texts, Function.comp_def]

/-- A book of collected texts has a page for each of them and no other. -/
theorem has_of_add? (h : Book.add? [] (texts members) = some book) :
    Table.has book n = true ↔ n ∈ members.map Resource.name := by
  have hsource := Book.source?_add? (n := n) h
  rw [← map_fst_texts, Table.has, ← Option.isSome_map (f := Page.source), ← Book.source?, hsource]
  simp [Book.source?]

end Bundle

namespace Chain

open Answers

variable {w : World} {c : Chain} {root r s : Resource} {ref : Reference} {members : List Resource}

/-- The page that is written for an inclusion is the first of its candidates that the book has. -/
theorem map_fst_findSome? (book : Book) : ∀ names : List String,
    (names.findSome? fun n => (Table.get? book n).map (n, ·)).map Prod.fst
      = names.find? (Table.has book ·)
  | [] => rfl
  | n :: ns => by
    rw [List.findSome?_cons, List.find?_cons, Table.has]
    cases Table.get? book n with
    | none => exact map_fst_findSome? book ns
    | some p => rfl

/-- A name is found first where it passes and none before it does. -/
theorem find?_eq_some_iff_of_split {p : String → Bool} {before after : List String} {n : String}
    (hn : n ∉ before) :
    (before ++ n :: after).find? p = some n ↔ p n = true ∧ ∀ m ∈ before, p m = false := by
  rw [List.find?_append]
  cases hf : before.find? p with
  | some m =>
    have hm : m ∈ before := List.mem_of_find?_eq_some hf
    constructor
    · intro heq
      obtain rfl : m = n := by simpa using heq
      exact absurd hm hn
    · rintro ⟨-, hnone⟩
      have hp : p m = true := List.find?_some hf
      rw [hnone m hm] at hp
      cases hp
  | none =>
    rw [Option.none_or]
    constructor
    · exact fun heq => ⟨List.find?_some heq, by simpa using hf⟩
    · rintro ⟨hp, -⟩
      rw [List.find?_cons_of_pos hp]

/-- What is collected beside the root is there under its name. -/
theorem answer_of_mem_collect (hc : c.IsSound) (h : (c.collect w root).1 = .ok members)
    (hr : r ∈ members) (hname : r.name ≠ root.name) : answer w c r.name = .ok (some r) := by
  obtain ⟨hclosure, -⟩ := isClosure_of_collect hc h
  obtain rfl | ⟨-, -, -, hans⟩ := hclosure.comes r hr
  · exact absurd rfl hname
  · exact hans

/-- **When the first candidate that the loaders have is collected** — the walk meets every reference
of a collected text, and `s`, the first there is for one of them, is collected exactly if it bears the
root's name or some reference brings it in.  It is then the one that is written, unless the root's
name stands before it among the candidates; if it is not collected, another one is. -/
theorem first_candidate_iff (hc : c.Reachable) (h : (c.collect w root).1 = .ok members)
    (hr : r ∈ members) (href : ref ∈ Reference.ofText r.source)
    (hs : (answer w c).first ref.candidates = .ok (some s)) :
    (∃ known, (answer w c).Meets root known ref) ∧
    (s.name ∈ members.map Resource.name ↔ s.name = root.name ∨ (answer w c).Brings root s) ∧
    ∀ book, Book.add? [] (Bundle.texts members) = some book →
      ((ref.candidates.findSome? fun n => (Table.get? book n).map (n, ·)).map Prod.fst
          = some s.name ↔
        s.name ∈ members.map Resource.name ∧
          root.name ∉ ref.candidates.takeWhile (· != s.name)) := by
  have hsound := hc.isSound
  have hend := ends_collect hsound w root
  rw [h] at hend
  have hm := hend.reaches
  have hhead : root ∈ members := by
    obtain ⟨rest, hrest⟩ := hm.prefix_start
    rw [List.append_nil] at hrest
    simp [← hrest]
  obtain ⟨before, n, after, hcand, hbefore, hn⟩ := first_eq_some hs
  obtain rfl : s.name = n := hsound.name_of_answer hn
  refine ⟨hm.meets hr href, ⟨fun hin => ?_, fun hin => ?_⟩, fun book hbook => ?_⟩
  · obtain ⟨t, ht, hname⟩ := List.mem_map.1 hin
    by_cases hroot : s.name = root.name
    · exact .inl hroot
    · have hans := answer_of_mem_collect hsound h ht (by rwa [hname])
      obtain rfl : t = s := by simpa [hname, hn] using hans.symm
      refine .inr ((hm.brings (by simpa using ht)).resolve_left ?_)
      rintro rfl
      exact hroot rfl
  · rcases hin with hroot | hbrings
    · exact hroot ▸ List.mem_map_of_mem hhead
    · exact List.mem_map_of_mem (hbrings.mem_of_finished hm)
  · have htake : ref.candidates.takeWhile (· != s.name) = before := by
      have hne : ∀ m ∈ before, (m != s.name) = true := by
        intro m hm
        refine bne_iff_ne.2 fun heq => ?_
        have hnone := hbefore m hm
        rw [heq, hn] at hnone
        cases hnone
      rw [hcand, List.takeWhile_append_of_pos hne]
      simp
    have hnew : s.name ∉ before := fun hin => by
      have hnone := hbefore _ hin
      rw [hn] at hnone
      cases hnone
    have hmem : ∀ m ∈ before, m ∈ members.map Resource.name ↔ m = root.name := by
      intro m hm
      refine ⟨fun hin => ?_, fun heq => heq ▸ List.mem_map_of_mem hhead⟩
      obtain ⟨t, ht, rfl⟩ := List.mem_map.1 hin
      refine Decidable.byContradiction fun hname => ?_
      have hans := answer_of_mem_collect hsound h ht hname
      rw [hbefore _ hm] at hans
      cases hans
    rw [map_fst_findSome?, htake, hcand, find?_eq_some_iff_of_split hnew, Bundle.has_of_add? hbook]
    refine and_congr_right fun _ => ⟨fun hnone hroot => ?_, fun hroot m hm => ?_⟩
    · have hno := hnone _ hroot
      rw [← Bool.not_eq_true, Bundle.has_of_add? hbook] at hno
      exact hno ((hmem _ hroot).2 rfl)
    · rw [← Bool.not_eq_true, Bundle.has_of_add? hbook, hmem m hm]
      rintro rfl
      exact hroot hm

/-! ## A list whose second candidate is known already -/

/-- Two pages below `/pages`. -/
def pairWorld : World where
  disk := { entries := [
    (["pages"], .directory),
    (["pages", "a.tera"], .file "A".toUTF8 1),
    (["pages", "b.tera"], .file "B".toUTF8 1)] }

/-- What the loader has under the name of the first page. -/
def pairFirst : Resource where
  name := "a.tera"
  loader := "pages"
  path := "/pages/a.tera"
  source := "A"
  modified := some 1

/-- What the loader has under the name of the second page. -/
def pairSecond : Resource where
  name := "b.tera"
  loader := "pages"
  path := "/pages/b.tera"
  source := "B"
  modified := some 1

/-- A root that includes the second page, and then the first of both. -/
def pairRoot : Resource where
  name := "root"
  loader := "inline"
  path := ""
  source := "\x7b% include \"b.tera\" %\x7d\x7b% include [\"a.tera\", \"b.tera\"] %\x7d"
  modified := none

/-- The reference of the root to the first of both pages. -/
def pairReference : Reference where
  candidates := ["a.tera", "b.tera"]
  optional := false

theorem collect_pair :
    (ringChain.collect pairWorld pairRoot).1 = .ok [pairRoot, pairSecond] := by
  rfl

theorem first_pairReference :
    (answer pairWorld ringChain).first pairReference.candidates = .ok (some pairFirst) := by
  rfl

theorem pairReference_mem : pairReference ∈ Reference.ofText pairRoot.source := by
  decide +kernel

/-- The first page is there, and no reference brings it in. -/
theorem not_brings_pairFirst :
    (ringChain.collect pairWorld pairRoot).1 = .ok [pairRoot, pairSecond] ∧
      ¬ (answer pairWorld ringChain).Brings pairRoot pairFirst := by
  refine ⟨collect_pair, fun hbrings => ?_⟩
  obtain ⟨-, hiff, -⟩ := first_candidate_iff reachable_ringChain collect_pair
    (List.mem_cons_self) pairReference_mem first_pairReference
  exact absurd (hiff.2 (.inr hbrings)) (by decide +kernel)

/-- **A list does not always get the first candidate that a loader has.** -/
theorem not_first_candidate :
    ¬ ∀ (w : World) (c : Chain) (root r s : Resource) (ref : Reference) (members : List Resource),
      c.Reachable → (c.collect w root).1 = .ok members → r ∈ members →
      ref ∈ Reference.ofText r.source →
      (answer w c).first ref.candidates = .ok (some s) → s.name ∈ members.map Resource.name := by
  intro h
  have hmem := h pairWorld ringChain pairRoot pairRoot pairFirst pairReference
    [pairRoot, pairSecond] reachable_ringChain collect_pair List.mem_cons_self pairReference_mem
    first_pairReference
  exact absurd hmem (by decide +kernel)

end Chain

end QueryPress
