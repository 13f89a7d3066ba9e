import QueryPress.Proofs.Resource.Resting

/-!
# Proofs/Resource/Repeating — loaders that do not wait repeat themselves

What a look for a later copy comes to is a matter of the disk alone if the loader does not wait between
its looks, and no question to such a loader changes an answer of it, not even one that fails.  So to look
for later copies and to collect what they refer to comes to the same when it is done again
(`collectChanges_again`), as long as no file changes; also where it has failed half way.
-/

namespace QueryPress

namespace Answers

variable {A A' : Answers} {given known : List String} {start done done' waiting waiting' : List Resource}
  {r : Resource} {a a' : Except Error (List Resource)}

/-! ## Answers that agree on what is not known -/

theorem first_agree : ∀ {ns : List String}, (∀ n ∈ ns, A n = A' n) → A.first ns = A'.first ns
  | [], _ => rfl
  | n :: ns, h => by
    obtain ⟨hn, hns⟩ := List.forall_mem_cons.1 h
    rw [first, first, hn, first_agree hns]

theorem follow_agree : ∀ {refs : List Reference} {known : List String}, (∀ n, n ∉ known → A n = A' n) →
    A.follow known refs = A'.follow known refs
  | [], _, _ => rfl
  | ref :: refs, known, h => by
    rw [follow, follow]
    split
    · exact follow_agree h
    · rename_i hany
      have hunknown : ∀ n ∈ ref.candidates, A n = A' n := fun n hn => h n fun hk =>
        hany (List.any_eq_true.2 ⟨n, hn, by simpa using hk⟩)
      have hcons : ∀ r : Resource, A.follow (r.name :: known) refs = A'.follow (r.name :: known) refs :=
        fun r => follow_agree fun n hn => h n fun hk => hn (List.mem_cons_of_mem _ hk)
      rw [first_agree hunknown, follow_agree h]
      simp only [hcons]

theorem Reaches.agree (h : Reaches A given start done waiting) (hA : ∀ n, n ∉ given → A n = A' n) :
    Reaches A' given start done waiting := by
  induction h with
  | start => exact .start
  | onward _ hf ih =>
    refine ih.onward ?_
    rwa [← follow_agree fun n hn => hA n fun hin => hn (List.mem_append_left _ hin)]

/-- **Answers that agree on what is not given end a walk alike.** -/
theorem Ends.agree (h : Ends A given start a) (hA : ∀ n, n ∉ given → A n = A' n) :
    Ends A' given start a := by
  cases h with
  | finished h => exact .finished (h.agree hA)
  | failed h hf =>
    refine .failed (h.agree hA) ?_
    rwa [← follow_agree fun n hn => hA n fun hin => hn (List.mem_append_left _ hin)]

/-! ## There is one end -/

/-- A walk that has come further has gone on from here. -/
theorem Reaches.follow_of_lt (h' : Reaches A given start done' waiting')
    (h : Reaches A given start done (r :: waiting)) (hlt : done.length < done'.length) :
    ∃ found, A.follow (given ++ (done ++ r :: waiting).map Resource.name) (Reference.ofText r.source)
      = .ok found := by
  induction h' with
  | start => cases hlt
  | @onward d wt found s h' hf ih =>
    rcases Nat.lt_or_ge done.length d.length with hlt' | hge
    · exact ih hlt'
    · rw [List.length_append, List.length_singleton] at hlt
      obtain ⟨rfl, heq⟩ := h.unique h' (by omega)
      obtain ⟨rfl, rfl⟩ := List.cons.inj heq
      exact ⟨found, hf⟩

/-- **A walk has one end.** -/
theorem Ends.unique (h : Ends A given start a) (h' : Ends A given start a') : a = a' := by
  -- what fails somewhere does not finish, and does not fail further on
  have hstuck : ∀ {done waiting done' waiting' r e}, Reaches A given start done (r :: waiting) →
      A.follow (given ++ (done ++ r :: waiting).map Resource.name) (Reference.ofText r.source)
        = .error e → Reaches A given start done' waiting' → done'.length ≤ done.length := by
    intro done waiting done' waiting' r e hreach hf hreach'
    refine Nat.le_of_not_lt fun hlt => ?_
    obtain ⟨found, hfound⟩ := hreach'.follow_of_lt hreach hlt
    rw [hf] at hfound
    cases hfound
  cases h with
  | finished hm =>
    cases h' with
    | finished hm' =>
      have hlen := Nat.le_antisymm (hm.length_le_of_finished hm') (hm'.length_le_of_finished hm)
      exact congrArg _ (hm.unique hm' hlen).1
    | failed hreach hf =>
      have hlen := Nat.le_antisymm (hreach.length_le_of_finished hm) (hstuck hreach hf hm)
      cases (hreach.unique hm hlen).2
  | failed hreach hf =>
    cases h' with
    | finished hm =>
      have hlen := Nat.le_antisymm (hreach.length_le_of_finished hm) (hstuck hreach hf hm)
      cases (hreach.unique hm hlen).2
    | failed hreach' hf' =>
      have hlen := Nat.le_antisymm (hstuck hreach' hf' hreach) (hstuck hreach hf hreach')
      obtain ⟨rfl, heq⟩ := hreach.unique hreach' hlen
      obtain ⟨rfl, rfl⟩ := List.cons.inj heq
      rw [hf] at hf'
      exact congrArg _ (Except.error.inj hf')

end Answers

namespace Loader

variable {w w' : World} {l l' : Loader} {n m : String} {r : Resource}

/-! ## One loader -/

theorem read_unchanged (h : w.Unchanged w') {path : Path}
    (hmodified : w'.modified path = w.modified path) : l.read w' n path = l.read w n path := by
  simp only [read, hmodified, h.readText]

theorem found_unchanged (h : w.Unchanged w') : l.found w' n = l.found w n := by
  have hlocate : l.locate? w' n = l.locate? w n := by
    have hfile : w'.isFile = w.isFile := funext fun p => h.isFile
    simp only [locate?, hfile]
  rw [found, found, hlocate]
  cases hl : l.locate? w n with
  | none => rfl
  | some path =>
    have hfile : w.isFile path = true := by
      simp only [locate?, Option.ite_none_right_eq_some] at hl
      exact List.find?_some hl.2
    simp only [read_unchanged h (h.modified hfile)]

theorem isDue_untimed (h : l.settings.checkInterval.isTimed = false) (now now' : Instant) :
    l.isDue now n = l.isDue now' n := by
  unfold isDue
  cases hinterval : l.settings.checkInterval with
  | never => rfl
  | always => rfl
  | every s =>
    rw [hinterval] at h
    cases h

/-- **A loader that does not wait says the same of a name** while no file changes. -/
theorem fst_load_unchanged (hu : l.settings.checkInterval.isTimed = false) (h : w.Unchanged w')
    (htimes : ∀ n y, Table.get? l.copies n = some y → w'.modified y.path = w.modified y.path) :
    (l.load w' n).1 = (l.load w n).1 := by
  have hkept : l.kept? w' n = l.kept? w n := by
    rw [kept?, kept?, isDue_untimed hu w'.now w.now]
    cases hy : l.copy? n with
    | none => rfl
    | some y =>
      have hcurrent : isCurrent w' y = isCurrent w y := by
        simp only [isCurrent, htimes n y (get?_of_copy? hy)]
      simp only [Option.filter, hcurrent]
  rw [fst_load, fst_load, hkept, found_unchanged h]

/-- **A look for a later copy comes to the same**, whatever the loader has taken down in between. -/
theorem fst_refresh_unchanged (hu : l.settings.checkInterval.isTimed = false) (h : w.Unchanged w')
    (hs : l'.settings = l.settings) (hmodified : w'.modified r.path = w.modified r.path) :
    (l'.refresh w' r).1 = (l.refresh w r).1 := by
  have hlooked : l'.looked w' r = l.looked w r := by
    rw [looked_congr hs]
    simp only [looked, hmodified, read_unchanged h hmodified]
  rw [fst_refresh, fst_refresh, hs, hlooked]
  cases hinterval : l.settings.checkInterval with
  | never => rfl
  | always => simp [isDue_of_always hinterval, isDue_of_always (hs ▸ hinterval)]
  | every s =>
    rw [hinterval] at hu
    cases hu

/-- **No question changes an answer of a loader that does not wait**, not even one that fails. -/
theorem fst_load_load_untimed (hu : l.settings.checkInterval.isTimed = false) (hs : l.IsSound) :
    ((l.load w n).2.load w m).1 = (l.load w m).1 := by
  cases h : (l.load w n).1 with
  | ok a => exact fst_load_load_of_ok h m
  | error e =>
    obtain ⟨y, -, -, hl⟩ | ⟨hnone, l₁, hl₁, hl⟩ := load_cases w l n <;> rw [hl] at h ⊢
    · cases h
    · obtain ⟨-, hsearch⟩ | ⟨path, e', -, -, hsearch⟩ | ⟨path, y, -, -, hsearch⟩ :=
        search_cases w l₁ n <;> rw [hsearch] at h ⊢
      · cases h
      · rcases hl₁ with rfl | rfl
        · rfl
        · by_cases hm : m = n
          · -- the look that is taken down is of no account, for there is no copy that it could spare
            have hkept : (l.noteCheck w.now n).kept? w m = none := by
              cases hinterval : l.settings.checkInterval with
              | always =>
                rw [kept?, isDue_of_always (show (l.noteCheck w.now n).settings.checkInterval = _ from
                  hinterval)]
                rw [kept?, isDue_of_always hinterval] at hnone
                rw [hm]
                exact hnone
              | never =>
                have hcopy : l.copy? n = none := by
                  cases hy : l.copy? n with
                  | none => rfl
                  | some y =>
                    have hcheck := hs.isChecked (get?_of_copy? hy)
                    rw [kept?, isDue_of_never hinterval hcheck, hy] at hnone
                    cases hnone
                rw [kept?, hm, show (l.noteCheck w.now n).copy? n = none from hcopy]
                rfl
              | every s =>
                rw [hinterval] at hu
                cases hu
            rw [fst_load, fst_load, hkept, hm, hnone]
            exact found_congr rfl
          · exact (sameAt_noteCheck w.now hm).fst_load_eq
      · cases h

end Loader

namespace Chain

open Answers

variable {w w' : World} {c c' : Chain} {n : String} {r : Resource} {rs : List Resource}

/-! ## A chain of them -/

/-- No loader waits between its looks. -/
def IsUntimed (c : Chain) : Prop := ∀ l ∈ c, l.settings.checkInterval.isTimed = false

theorem IsUntimed.congr (h : IsUntimed c) (hs : c'.map Loader.settings = c.map Loader.settings) :
    IsUntimed c' := by
  intro l hl
  have hin : l.settings ∈ c.map Loader.settings := hs ▸ List.mem_map_of_mem hl
  obtain ⟨l', hl', heq⟩ := List.mem_map.1 hin
  rw [← heq]
  exact h l' hl'

/-- The times of the files that copies were made of read the same. -/
def KeepsTimes (w w' : World) (c : Chain) : Prop :=
  ∀ l ∈ c, ∀ n y, Table.get? l.copies n = some y → w'.modified y.path = w.modified y.path

theorem answer_unchanged (hu : IsUntimed c) (h : w.Unchanged w') (htimes : KeepsTimes w w' c) :
    answer w' c = answer w c := by
  funext n
  induction c with
  | nil => rfl
  | cons l ls ih =>
    obtain ⟨hl, hls⟩ := List.forall_mem_cons.1 hu
    obtain ⟨hcopies, hothers⟩ := List.forall_mem_cons.1 htimes
    rw [answer_cons, answer_cons, Loader.fst_load_unchanged hl h hcopies, ih hls hothers]

theorem answer_find_untimed (hc : c.IsSound) (hu : IsUntimed c) :
    answer w (find w n c).2 = answer w c := by
  funext m
  induction c with
  | nil => rfl
  | cons l ls ih =>
    obtain ⟨hl, hls⟩ := List.forall_mem_cons.1 hc
    obtain ⟨hul, huls⟩ := List.forall_mem_cons.1 hu
    have hload := Loader.fst_load_load_untimed (w := w) (n := n) (m := m) hul hl
    rcases snd_find_cons w n l ls with hf | hf <;> rw [hf, answer_cons, answer_cons, hload]
    rw [ih hls huls]

theorem Asks.answer_untimed {ns : List String} (h : Asks w ns c c') (hc : c.IsSound)
    (hu : IsUntimed c) : answer w c' = answer w c := by
  induction h with
  | nothing => rfl
  | @next n ns c c' _ ih =>
    rw [ih (hc.find w n) (hu.congr (settings_find w n c)), answer_find_untimed hc hu]

/-- **A chain has been asked for names meanwhile**, and for nothing else, in worlds where no file is another
and the times of the files that copies were made of read the same. -/
inductive AskedMeanwhile (w : World) (c : Chain) : Chain → Prop
  | nothing : AskedMeanwhile w c c
  | next {c' : Chain} {v : World} {n : String} : AskedMeanwhile w c c' → w.Unchanged v →
      KeepsTimes w v c' → KeepsTimes w v (find v n c').2 → AskedMeanwhile w c (find v n c').2

/-- **A chain that has been asked for names meanwhile answers as before**, if no loader waits. -/
theorem AskedMeanwhile.answer_eq (h : AskedMeanwhile w c c') (hc : c.IsSound) (hu : IsUntimed c) :
    c'.IsSound ∧ c'.map Loader.settings = c.map Loader.settings ∧ answer w c' = answer w c := by
  induction h with
  | nothing => exact ⟨hc, rfl, rfl⟩
  | @next c' v n _ hv htimes htimes' ih =>
    obtain ⟨hc', hset, hanswer⟩ := ih
    have hset' := (settings_find v n c').trans hset
    refine ⟨hc'.find v n, hset', ?_⟩
    calc answer w (find v n c').2
        = answer v (find v n c').2 := (answer_unchanged (hu.congr hset') hv htimes').symm
      _ = answer v c' := answer_find_untimed hc' (hu.congr hset)
      _ = answer w c' := answer_unchanged (hu.congr hset) hv htimes
      _ = answer w c := hanswer

theorem fst_refresh_unchanged (h : w.Unchanged w') (hmodified : w'.modified r.path = w.modified r.path) :
    ∀ {c c' : Chain}, IsUntimed c → c'.map Loader.settings = c.map Loader.settings →
      (refresh w' r c').1 = (refresh w r c).1
  | [], [], _, _ => rfl
  | [], l' :: ls', _, hs => by cases hs
  | l :: ls, [], _, hs => by cases hs
  | l :: ls, l' :: ls', hu, hs => by
    obtain ⟨hl, hls⟩ := List.forall_mem_cons.1 hu
    obtain ⟨hsl, hsls⟩ := List.cons.inj hs
    have hname : l'.name = l.name := congrArg LoaderSettings.name hsl
    obtain ⟨hn, hf⟩ | ⟨hn, hf⟩ := refresh_cons w r l ls <;>
      obtain ⟨hn', hf'⟩ | ⟨hn', hf'⟩ := refresh_cons w' r l' ls' <;> rw [hf, hf']
    · rw [Loader.fst_refresh_unchanged hl h hsl hmodified]
    · exact absurd (hname.trans hn) hn'
    · exact absurd (hname.symm.trans hn') hn
    · exact fst_refresh_unchanged h hmodified hls hsls

theorem fst_refreshAll_unchanged (h : w.Unchanged w') : ∀ {rs : List Resource} {c c' : Chain},
    (∀ r ∈ rs, w'.modified r.path = w.modified r.path) → IsUntimed c →
      c'.map Loader.settings = c.map Loader.settings → (refreshAll w' rs c').1 = (refreshAll w rs c).1
  | [], _, _, _, _, _ => rfl
  | r :: rs, c, c', hmodified, hu, hs => by
    obtain ⟨hr, hrs⟩ := List.forall_mem_cons.1 hmodified
    have hfirst := fst_refresh_unchanged h hr hu hs
    have hset := settings_refresh w r c
    have hset' := settings_refresh w' r c'
    rw [refreshAll, refreshAll]
    rcases hf : refresh w r c with ⟨a, d⟩
    rcases hf' : refresh w' r c' with ⟨a', d'⟩
    rw [hf, hf'] at hfirst
    rw [hf] at hset
    rw [hf'] at hset'
    obtain rfl : a' = a := hfirst
    cases a' with
    | error e => rfl
    | ok found =>
      have hrest := fst_refreshAll_unchanged h hrs (hu.congr hset) (hset'.trans (hs.trans hset.symm))
      rcases hg : refreshAll w rs d with ⟨b, e⟩
      rcases hg' : refreshAll w' rs d' with ⟨b', e'⟩
      rw [hg, hg'] at hrest
      obtain rfl : b' = b := hrest
      cases b' <;> simp [hg, hg']

/-- **To look for later copies again comes to the same** while no file changes, if no loader waits between
its looks and they have been asked for names and nothing else in between. -/
theorem collectChanges_again {d : Chain} (hc : c.IsSound) (hu : IsUntimed c) (h : w.Unchanged w')
    (hrs : ∀ r ∈ rs, w'.modified r.path = w.modified r.path)
    (hasked : AskedMeanwhile w (c.collectChanges w rs).2 d) (htimes : KeepsTimes w w' d) :
    (d.collectChanges w' rs).1 = (c.collectChanges w rs).1 := by
  have hc' := hc.refreshAll w rs
  have hset := settings_refreshAll w rs c
  have hnamed : ∀ changed, (refreshAll w rs c).1 = .ok changed →
      (changed.map Resource.name).Sublist (rs.map Resource.name) := fun _ => names_refreshAll hc
  have hlooks : ∀ d : Chain, d.map Loader.settings = c.map Loader.settings →
      (refreshAll w' rs d).1 = (refreshAll w rs c).1 := fun _ => fst_refreshAll_unchanged h hrs hu
  rcases hf : refreshAll w rs c with ⟨a, c'⟩
  rw [hf] at hc' hset hnamed hlooks
  have hu' : IsUntimed c' := hu.congr hset
  rw [collectChanges_eq w rs c, hf] at hasked ⊢
  cases a with
  | error e =>
    obtain ⟨-, hsetd, -⟩ := hasked.answer_eq hc' hu'
    have hagain := hlooks d (hsetd.trans hset)
    rw [collectChanges_eq]
    rcases hg : refreshAll w' rs d with ⟨b, d'⟩
    rw [hg] at hagain
    obtain rfl : b = .error e := hagain
    rfl
  | ok changed =>
    dsimp only at hasked ⊢
    have hsub := hnamed changed rfl
    have hknown : ∀ n, n ∈ rs.map Resource.name
        ↔ n ∈ rs.map Resource.name ++ changed.map Resource.name := fun n =>
      ⟨fun hn => List.mem_append_left _ hn,
        fun hn => (List.mem_append.1 hn).elim id fun hn => hsub.subset hn⟩
    obtain ⟨asked, hasks, -⟩ := (walks_collectFrom hc' w (rs.map Resource.name) changed).asks hc'
    have hends := ends_collectFrom hc' w hknown
    -- in the end the chain answers like the one that the first look has left
    generalize hafter : (c'.collectFrom w (rs.map Resource.name) changed).2 = c₁ at hasks hasked
    have hu₁ : IsUntimed c₁ := hu'.congr hasks.settings_eq
    have hc₁ : c₁.IsSound := hasks.keeps (fun n _ c hc => hc.find w n) hc'
    obtain ⟨hd, hsetd, hsame⟩ := hasked.answer_eq hc₁ hu₁
    have hagain := hlooks d (hsetd.trans (hasks.settings_eq.trans hset))
    have hd' := hd.refreshAll w' rs
    have hanswer : ∀ n, n ∉ rs.map Resource.name →
        answer w' (refreshAll w' rs d).2 n = answer w c' n := by
      intro n hn
      rw [answer_refreshAll hn, answer_unchanged (hu₁.congr hsetd) h htimes, hsame,
        hasks.answer_untimed hc' hu']
    rw [collectChanges_eq]
    rcases hg : refreshAll w' rs d with ⟨b, d'⟩
    rw [hg] at hagain hd' hanswer
    obtain rfl : b = .ok changed := hagain
    exact ((ends_collectFrom hd' w' hknown).agree hanswer).unique hends

end Chain

end QueryPress
