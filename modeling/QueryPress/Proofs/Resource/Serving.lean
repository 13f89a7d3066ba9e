import QueryPress.Proofs.Resource.Backing
import QueryPress.Proofs.Resource.Ending

/-!
# Proofs/Resource/Serving — a chain that stands behind what it has handed out

A chain of prompt loaders backs a resource if one of its loaders does and those before it have nothing
under the name.  Whatever the chain is asked for, it goes on backing what it backs under other names
and lacking what it lacks, and what it has been asked for it backs or lacks from then on
(`Asks.standsBy`).
-/

namespace QueryPress.Chain

variable {w w' : World} {c c' : Chain} {n m : String} {r s : Resource}

/-! ## All loaders, one after the other -/

/-- What a question leaves behind: the first loader has been asked, and perhaps the others. -/
theorem snd_find_cons (w : World) (n : String) (l : Loader) (ls : Chain) :
    (find w n (l :: ls)).2 = (l.load w n).2 :: ls ∨
      (find w n (l :: ls)).2 = (l.load w n).2 :: (find w n ls).2 := by
  obtain ⟨e, -, h⟩ | ⟨r, -, h⟩ | ⟨-, h⟩ := find_cases w n l ls <;> rw [h]
  · exact .inl rfl
  · exact .inl rfl
  · exact .inr rfl

/-- What a look for a later copy leaves behind: the loader of the resource has looked. -/
theorem refresh_cons (w : World) (r : Resource) (l : Loader) (ls : Chain) :
    (l.name = r.loader ∧
      refresh w r (l :: ls) = ((l.refresh w r).1.mapError Error.io, (l.refresh w r).2 :: ls)) ∨
    (l.name ≠ r.loader ∧
      refresh w r (l :: ls) = ((refresh w r ls).1, l :: (refresh w r ls).2)) := by
  rw [refresh]
  by_cases h : l.name = r.loader
  · refine .inl ⟨h, ?_⟩
    rw [if_pos h]
    rcases l.refresh w r with ⟨(e | found), l'⟩ <;> rfl
  · exact .inr ⟨h, by rw [if_neg h]⟩

/-- What every loader keeps, the chain keeps. -/
theorem forall_find {P : Loader → Prop} (h : ∀ l, P l → P (l.load w n).2) :
    ∀ {c : Chain}, (∀ l ∈ c, P l) → ∀ l ∈ (find w n c).2, P l
  | [], hc => hc
  | l :: ls, hc => by
    obtain ⟨hl, hls⟩ := List.forall_mem_cons.1 hc
    rcases snd_find_cons w n l ls with hf | hf <;> rw [hf]
    · exact List.forall_mem_cons.2 ⟨h l hl, hls⟩
    · exact List.forall_mem_cons.2 ⟨h l hl, forall_find h hls⟩

theorem forall_refresh {P : Loader → Prop}
    (h : ∀ l, l.name = r.loader → P l → P (l.refresh w r).2) :
    ∀ {c : Chain}, (∀ l ∈ c, P l) → ∀ l ∈ (refresh w r c).2, P l
  | [], hc => hc
  | l :: ls, hc => by
    obtain ⟨hl, hls⟩ := List.forall_mem_cons.1 hc
    obtain ⟨hn, hf⟩ | ⟨-, hf⟩ := refresh_cons w r l ls <;> rw [hf]
    · exact List.forall_mem_cons.2 ⟨h l hn hl, hls⟩
    · exact List.forall_mem_cons.2 ⟨hl, forall_refresh h hls⟩

theorem Reachable.find (h : c.Reachable) (w : World) (n : String) : (find w n c).2.Reachable :=
  forall_find (fun _ hl => .load w n hl) h

theorem settings_find (w : World) (n : String) : ∀ c : Chain,
    (find w n c).2.map Loader.settings = c.map Loader.settings
  | [] => rfl
  | l :: ls => by
    rcases snd_find_cons w n l ls with hf | hf <;>
      rw [hf, List.map_cons, List.map_cons, Loader.settings_eq_of_load]
    exact congrArg (l.settings :: ·) (settings_find w n ls)

theorem settings_refresh (w : World) (r : Resource) : ∀ c : Chain,
    (refresh w r c).2.map Loader.settings = c.map Loader.settings
  | [] => rfl
  | l :: ls => by
    obtain ⟨-, hf⟩ | ⟨-, hf⟩ := refresh_cons w r l ls <;> rw [hf, List.map_cons, List.map_cons]
    · rw [Loader.settings_refresh]
    · exact congrArg (l.settings :: ·) (settings_refresh w r ls)

theorem names_eq (c : Chain) : c.names = (c.map Loader.settings).map LoaderSettings.name := by
  simp [names, Loader.name, Function.comp_def]

theorem names_find (w : World) (n : String) (c : Chain) : (find w n c).2.names = c.names := by
  rw [names_eq, settings_find, ← names_eq]

theorem names_refresh (w : World) (r : Resource) (c : Chain) :
    (refresh w r c).2.names = c.names := by
  rw [names_eq, settings_refresh, ← names_eq]

/-- A look for a later copy changes no answer for another name. -/
theorem answer_refresh (h : n ≠ r.name) : ∀ c : Chain,
    answer w (refresh w r c).2 n = answer w c n
  | [] => rfl
  | l :: ls => by
    obtain ⟨-, hf⟩ | ⟨-, hf⟩ := refresh_cons w r l ls <;> rw [hf, answer_cons, answer_cons]
    · rw [(Loader.sameAt_refresh h).fst_load_eq]
    · rw [answer_refresh h ls]

/-! ## Chains in order -/

/-- **A chain in order** — its loaders are prompt, their tables are sound, and their names differ. -/
structure IsOrderly (c : Chain) : Prop where
  prompt : ∀ l ∈ c, l.IsPrompt
  sound : c.IsSound
  nodup : c.names.Nodup

theorem IsOrderly.find (h : c.IsOrderly) (w : World) (n : String) : (find w n c).2.IsOrderly where
  prompt := forall_find (fun l hl => hl.congr (Loader.settings_eq_of_load w l n)) h.prompt
  sound := h.sound.find w n
  nodup := by rw [names_find]; exact h.nodup

theorem IsOrderly.refresh (h : c.IsOrderly) (w : World) (r : Resource) :
    (refresh w r c).2.IsOrderly where
  prompt := forall_refresh (fun l _ hl => hl.congr (Loader.settings_refresh w l r)) h.prompt
  sound := forall_refresh (fun l _ hl => hl.refresh w r) h.sound
  nodup := by rw [names_refresh]; exact h.nodup

theorem IsOrderly.of_cons {l : Loader} (h : IsOrderly (l :: c)) :
    l.IsPrompt ∧ l.IsSound ∧ l.name ∉ c.names ∧ c.IsOrderly := by
  obtain ⟨hl, hc⟩ := List.forall_mem_cons.1 h.prompt
  obtain ⟨hl', hc'⟩ := List.forall_mem_cons.1 h.sound
  obtain ⟨hn, hnodup⟩ := List.nodup_cons.1 h.nodup
  exact ⟨hl, hl', hn, hc, hc', hnodup⟩

/-! ## What a chain lacks and what it backs -/

/-- No loader has anything under a name. -/
def Lacks (w : World) (c : Chain) (n : String) : Prop := ∀ l ∈ c, l.Lacks w n

/-- **A chain backs a resource** — one of its loaders does, and those before it have nothing under the
name. -/
inductive Backs (w : World) : Chain → Resource → Prop
  | here {l : Loader} {ls : Chain} {r : Resource} : l.Backs w r → Backs w (l :: ls) r
  | further {l : Loader} {ls : Chain} {r : Resource} :
      l.Lacks w r.name → Backs w ls r → Backs w (l :: ls) r

theorem Lacks.ages (h : Lacks w c n) (ha : w.Ages w') : Lacks w' c n := fun l hl => (h l hl).ages ha

theorem Backs.ages (h : Backs w c r) (ha : w.Ages w') : Backs w' c r := by
  induction h with
  | here hl => exact .here (hl.ages ha)
  | further hl _ ih => exact .further (hl.ages ha) ih

theorem Backs.loader_mem (h : Backs w c r) : r.loader ∈ c.names := by
  induction h with
  | here hl => rw [hl.loader]; exact List.mem_cons_self
  | further _ _ ih => exact List.mem_cons_of_mem _ ih

theorem Lacks.answer_eq : ∀ {c : Chain}, Lacks w c n → answer w c n = .ok none
  | [], _ => rfl
  | l :: ls, h => by
    obtain ⟨hl, hls⟩ := List.forall_mem_cons.1 h
    rw [answer_cons, hl.fst_load]
    exact Lacks.answer_eq hls

/-- What is lacking stays lacking, whatever is asked for. -/
theorem Lacks.find (h : Lacks w c n) (m : String) : Lacks w (find w m c).2 n :=
  forall_find (fun _ hl => hl.load m) h

/-- **A question for another name changes nothing of what is backed.** -/
theorem Backs.find (h : Backs w c r) (hn : r.name ≠ n) : Backs w (find w n c).2 r := by
  induction h with
  | @here l ls r hl =>
    have hl' := hl.congr (Loader.sameAt_load (w := w) hn)
    rcases snd_find_cons w n l ls with hf | hf <;> rw [hf]
    · exact .here hl'
    · exact .here hl'
  | @further l ls r hl hls ih =>
    rcases snd_find_cons w n l ls with hf | hf <;> rw [hf]
    · exact .further (hl.load n) hls
    · exact .further (hl.load n) (ih hn)

/-! ## What has been asked for -/

/-- **A chain stands by what it says of a name** — what it has it backs, and what it has not it
lacks. -/
def StandsBy (w : World) (c : Chain) (n : String) : Prop :=
  (∀ r, answer w c n = .ok (some r) → Backs w c r) ∧ (answer w c n = .ok none → Lacks w c n)

/-- **What a chain has just said it stands by.** -/
theorem standsBy_find : ∀ {c : Chain}, c.IsOrderly → (∃ a, answer w c n = .ok a) →
    StandsBy w (find w n c).2 n
  | [], _, _ => ⟨fun r h => by simp [find, answer] at h, fun _ l hl => by simp [find] at hl⟩
  | l :: ls, hc, hok => by
    obtain ⟨hprompt, hsound, -, hls⟩ := hc.of_cons
    obtain ⟨a, ha⟩ := hok
    have hkeep := congrFun (answer_find ha) n
    rw [StandsBy, hkeep]
    obtain ⟨e, hl, hf⟩ | ⟨s, hl, hf⟩ | ⟨hl, hf⟩ := find_cases w n l ls <;> rw [hf]
    · simp [answer, hf] at ha
    · have hans : answer w (l :: ls) n = .ok (some s) := by simp [answer, hf]
      refine ⟨fun r hr => ?_, fun hr => ?_⟩ <;> rw [hans] at hr
      · obtain rfl : s = r := by simpa using hr
        exact .here (Loader.backs_of_load hprompt hsound hl)
      · cases hr
    · have hans : answer w (l :: ls) n = answer w ls n := by simp [answer, hf]
      rw [hans] at ha ⊢
      have hlacks := Loader.lacks_of_load hl
      obtain ⟨hbacks, hnone⟩ := standsBy_find hls ⟨a, ha⟩
      rw [congrFun (answer_find ha) n] at hbacks hnone
      refine ⟨fun r hr => .further ?_ (hbacks r hr), fun hr => ?_⟩
      · rwa [hls.sound.name_of_answer hr]
      · exact List.forall_mem_cons.2 ⟨hlacks, hnone hr⟩

/-- A chain goes on standing by what it has said, whatever it is asked for that it can say. -/
theorem StandsBy.find (hc : c.IsOrderly) (h : StandsBy w c n) (hm : ∃ a, answer w c m = .ok a) :
    StandsBy w (find w m c).2 n := by
  by_cases hn : n = m
  · subst hn
    exact standsBy_find hc hm
  · obtain ⟨a, ha⟩ := hm
    rw [StandsBy, congrFun (answer_find ha) n]
    refine ⟨fun r hr => (h.1 r hr).find ?_, fun hr => (h.2 hr).find m⟩
    rwa [hc.sound.name_of_answer hr]

theorem Asks.isOrderly {ns : List String} (h : Asks w ns c c') (hc : c.IsOrderly) :
    c'.IsOrderly :=
  h.keeps (fun n _ _ hc => hc.find w n) hc

/-- **What a chain could say of all that it was asked for, it stands by.** -/
theorem Asks.standsBy {ns : List String} (h : Asks w ns c c') (hc : c.IsOrderly)
    (hok : ∀ n ∈ ns, ∃ a, answer w c n = .ok a) :
    (∀ n ∈ ns, StandsBy w c' n) ∧ ∀ n, StandsBy w c n → StandsBy w c' n := by
  induction h with
  | nothing => exact ⟨by simp, fun _ h => h⟩
  | @next n ns c c' _ ih =>
    obtain ⟨hn, hns⟩ := List.forall_mem_cons.1 hok
    obtain ⟨a, ha⟩ := hn
    have hkeep := answer_find ha
    obtain ⟨hasked, hold⟩ := ih (hc.find w n) (by rwa [hkeep])
    refine ⟨List.forall_mem_cons.2 ⟨hold n (standsBy_find hc ⟨a, ha⟩), hasked⟩, fun m hm => ?_⟩
    exact hold m (hm.find hc ⟨a, ha⟩)

end QueryPress.Chain
