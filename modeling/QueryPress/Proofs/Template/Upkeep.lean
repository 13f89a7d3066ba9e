import QueryPress.Proofs.Markup.Holding
import QueryPress.Proofs.Resource.Sharing
import QueryPress.Template

/-!
# Proofs/Template/Upkeep — a bundle that can be kept as its loaders have it

A bundle is *upheld* by a chain if the chain backs every resource that was not given in memory, the
resources settle each other's references, and the book holds their texts.  A bundle that has just been
made is (`isUpheld_of_ofRoot`), and it stays so while files become later (`IsUpheld.ages`) and through
every refresh, abandoned or not (`IsUpheld.refresh`).  After a refresh that was not abandoned, what
would be collected anew is all in the bundle (`IsUpheld.collect`).
-/

namespace QueryPress

namespace Bundle

variable {rs ms : List Resource} {r m : Resource} {n : String}

/-! ## Resources in place of those of their names -/

theorem mem_put (hnodup : (rs.map Resource.name).Nodup) :
    m ∈ put r rs ↔ m = r ∨ (m ∈ rs ∧ m.name ≠ r.name) := by
  induction rs with
  | nil => simp [put]
  | cons s rs ih =>
    rw [List.map_cons, List.nodup_cons] at hnodup
    obtain ⟨hout, hnodup⟩ := hnodup
    rw [put]
    by_cases hs : s.name = r.name
    · have hne : ∀ t ∈ rs, t.name ≠ r.name := fun t ht heq =>
        hout (hs.trans heq.symm ▸ List.mem_map_of_mem ht)
      rw [if_pos hs, List.mem_cons, List.mem_cons]
      constructor
      · rintro (rfl | hm)
        · exact .inl rfl
        · exact .inr ⟨.inr hm, hne m hm⟩
      · rintro (rfl | ⟨rfl | hm, hname⟩)
        · exact .inl rfl
        · exact absurd hs hname
        · exact .inr hm
    · rw [if_neg hs, List.mem_cons, ih hnodup, List.mem_cons]
      constructor
      · rintro (rfl | rfl | ⟨hm, hname⟩)
        · exact .inr ⟨.inl rfl, hs⟩
        · exact .inl rfl
        · exact .inr ⟨.inr hm, hname⟩
      · rintro (rfl | ⟨rfl | hm, hname⟩)
        · exact .inr (.inl rfl)
        · exact .inl rfl
        · exact .inr (.inr ⟨hm, hname⟩)

theorem mem_names_put : n ∈ (put r rs).map Resource.name ↔ n = r.name ∨ n ∈ rs.map Resource.name := by
  induction rs with
  | nil => simp [put]
  | cons s rs ih =>
    rw [put]
    by_cases hs : s.name = r.name
    · simp [hs]
    · rw [if_neg hs, List.map_cons, List.mem_cons, ih, List.map_cons, List.mem_cons]
      exact or_left_comm

theorem nodup_put (hnodup : (rs.map Resource.name).Nodup) :
    ((put r rs).map Resource.name).Nodup := by
  induction rs with
  | nil => simp [put]
  | cons s rs ih =>
    rw [List.map_cons, List.nodup_cons] at hnodup
    obtain ⟨hout, hnodup⟩ := hnodup
    rw [put]
    by_cases hs : s.name = r.name
    · rw [if_pos hs, List.map_cons, List.nodup_cons, ← hs]
      exact ⟨hout, hnodup⟩
    · rw [if_neg hs, List.map_cons, List.nodup_cons, mem_names_put]
      exact ⟨fun hin => hin.elim hs hout, ih hnodup⟩

/-- **Resources that are put in place of others** — all of them are there afterwards, and of the others
those of other names. -/
theorem mem_foldl_put : ∀ {ms rs : List Resource}, (ms.map Resource.name).Nodup →
    (rs.map Resource.name).Nodup →
      ((ms.foldl (fun rs r => put r rs) rs).map Resource.name).Nodup ∧
      (∀ m, m ∈ ms.foldl (fun rs r => put r rs) rs ↔
        m ∈ ms ∨ (m ∈ rs ∧ m.name ∉ ms.map Resource.name)) ∧
      ∀ n, n ∈ (ms.foldl (fun rs r => put r rs) rs).map Resource.name ↔
        n ∈ ms.map Resource.name ∨ n ∈ rs.map Resource.name
  | [], rs, _, hrs => by simpa using hrs
  | r :: ms, rs, hms, hrs => by
    rw [List.map_cons, List.nodup_cons] at hms
    obtain ⟨hout, hms⟩ := hms
    obtain ⟨hnodup, hmem, hnames⟩ := mem_foldl_put hms (nodup_put (r := r) hrs)
    refine ⟨hnodup, fun m => ?_, fun n => ?_⟩
    · rw [List.foldl_cons, hmem m, mem_put hrs, List.mem_cons, List.map_cons, List.mem_cons]
      constructor
      · rintro (hm | ⟨rfl | ⟨hm, hname⟩, hno⟩)
        · exact .inl (.inr hm)
        · exact .inl (.inl rfl)
        · exact .inr ⟨hm, fun h => h.elim hname hno⟩
      · rintro ((rfl | hm) | ⟨hm, hno⟩)
        · exact .inr ⟨.inl rfl, hout⟩
        · exact .inl hm
        · exact .inr ⟨.inr ⟨hm, fun h => hno (.inl h)⟩, fun h => hno (.inr h)⟩
    · rw [List.foldl_cons, hnames n, mem_names_put, List.map_cons, List.mem_cons]
      constructor
      · rintro (h | h | h)
        · exact .inl (.inr h)
        · exact .inl (.inl h)
        · exact .inr h
      · rintro ((h | h) | h)
        · exact .inr (.inl h)
        · exact .inl h
        · exact .inr (.inr h)

/-! ## The book and the resources -/

/-- The book holds the text of each resource. -/
def Agrees (book : Book) (rs : List Resource) : Prop :=
  ∀ r ∈ rs, book.source? r.name = some r.source

theorem lookup_texts (hnodup : (ms.map Resource.name).Nodup) (hm : m ∈ ms) :
    (texts ms).reverse.lookup m.name = some m.source := by
  obtain ⟨front, back, rfl⟩ := List.append_of_mem hm
  refine List.lookup_eq_some_iff.2 ⟨(texts back).reverse, (texts front).reverse, ?_, ?_⟩
  · simp [texts]
  · intro p hp
    obtain ⟨s, hs, rfl⟩ := List.mem_map.1 (List.mem_reverse.1 hp)
    rw [List.map_append, List.map_cons] at hnodup
    have hout := (List.nodup_cons.1 (List.nodup_append.1 hnodup).2.1).1
    refine bne_iff_ne.2 fun heq => hout ?_
    rw [heq]
    exact List.mem_map_of_mem hs

theorem lookup_texts_of_not_mem (hn : n ∉ ms.map Resource.name) :
    (texts ms).reverse.lookup n = none := by
  refine List.lookup_eq_none_iff.2 fun p hp => bne_iff_ne.2 fun heq => hn ?_
  obtain ⟨s, hs, rfl⟩ := List.mem_map.1 (List.mem_reverse.1 hp)
  rw [heq]
  exact List.mem_map_of_mem hs

theorem Agrees.add? {book book' : Book} (h : Agrees book rs) (hms : (ms.map Resource.name).Nodup)
    (hrs : (rs.map Resource.name).Nodup) (hadd : book.add? (texts ms) = some book') :
    Agrees book' (ms.foldl (fun rs r => put r rs) rs) := by
  intro r hr
  rw [Book.source?_add? hadd]
  rcases ((mem_foldl_put hms hrs).2.1 r).1 hr with hr | ⟨hr, hout⟩
  · rw [lookup_texts hms hr, Option.some_or]
  · rw [lookup_texts_of_not_mem hout, Option.none_or, h r hr]

/-! ## A bundle that is upheld -/

/-- **A bundle is upheld by a chain** — its resources have different names, one of them the entry's;
they are backed, but for the root that is kept, if there is one, which is still; each of their
references is settled by one of them or is optional and lacking; and the book holds their texts. -/
structure IsUpheld (w : World) (c : Chain) (kept : Option Resource) (b : Bundle) : Prop where
  nodup : (b.resources.map Resource.name).Nodup
  entry : b.entry ∈ b.resources.map Resource.name
  still : ∀ r, kept = some r → Chain.IsStill c r ∧ r ∈ b.resources
  backed : ∀ r ∈ b.resources, kept = some r ∨ Chain.Backs w c r
  settled : ∀ r ∈ b.resources, ∀ ref ∈ Reference.ofText r.source,
    (∃ n ∈ ref.candidates, n ∈ b.resources.map Resource.name) ∨
      (ref.optional = true ∧ ∀ n ∈ ref.candidates, Chain.Lacks w c n)
  agrees : Agrees b.book b.resources

/-- **A bundle is up to date** — the chain has each of its resources but the root that is kept. -/
def IsCurrent (w : World) (c : Chain) (kept : Option Resource) (b : Bundle) : Prop :=
  ∀ r ∈ b.resources, kept = some r ∨ Chain.answer w c r.name = .ok (some r)

/-- A refresh is abandoned if the loaders fail or the changed texts do not make a book. -/
def Abandons (w : World) (c : Chain) (b : Bundle) : Prop :=
  ∀ changed, (c.collectChanges w b.resources).1 = .ok changed → b.book.add? (texts changed) = none

theorem not_abandons {w : World} {c : Chain} {b : Bundle}
    (h : ((c.collectChanges w b.resources).1.toOption.bind
      fun changed => b.book.add? (texts changed)).isSome = true) : ¬ Abandons w c b := by
  intro habandons
  cases hchanged : (c.collectChanges w b.resources).1 with
  | error e => simp [hchanged, Except.toOption] at h
  | ok changed => simp [hchanged, Except.toOption, habandons changed hchanged] at h

variable {w w' : World} {c c' : Chain} {kept : Option Resource} {b : Bundle}

theorem IsUpheld.ages (h : b.IsUpheld w c kept) (ha : w.Ages w') : b.IsUpheld w' c kept where
  nodup := h.nodup
  entry := h.entry
  still := h.still
  backed r hr := (h.backed r hr).imp id (·.ages ha)
  settled r hr ref href := (h.settled r hr ref href).imp id (And.imp_right fun hlacks n hn =>
    (hlacks n hn).ages ha)
  agrees := h.agrees

/-- **A refresh either leaves the bundle alone or puts in place what has changed.** -/
theorem refresh_cases (w : World) (b : Bundle) (c : Chain) :
    (b.refresh w c).2 = (c.collectChanges w b.resources).2 ∧
    ((Abandons w c b ∧ (b.refresh w c).1 = b) ∨
      ∃ changed book, ¬ Abandons w c b ∧ (c.collectChanges w b.resources).1 = .ok changed ∧
        b.book.add? (texts changed) = some book ∧
        (b.refresh w c).1 = { b with
          book, resources := changed.foldl (fun rs r => put r rs) b.resources }) := by
  rw [Bundle.refresh, Abandons]
  rcases c.collectChanges w b.resources with ⟨(e | changed), c'⟩
  · exact ⟨rfl, .inl ⟨by simp, rfl⟩⟩
  · refine ⟨rfl, ?_⟩
    cases hadd : b.book.add? (texts changed) with
    | none => exact .inl ⟨by simp [hadd], by simp [update, hadd]⟩
    | some book =>
      exact .inr ⟨changed, book, fun h => by simp [hadd] at h, rfl, hadd, by simp [update, hadd]⟩

theorem entry_refresh (w : World) (b : Bundle) (c : Chain) : (b.refresh w c).1.entry = b.entry := by
  rw [Bundle.refresh]
  rcases c.collectChanges w b.resources with ⟨(e | changed), c'⟩
  · rfl
  · exact entry_update b changed

/-- What every look keeps of a bundle. -/
theorem IsUpheld.of_abandoned (hc : c.IsOrderly) (h : b.IsUpheld w c kept) :
    b.IsUpheld w (c.collectChanges w b.resources).2 kept where
  nodup := h.nodup
  entry := h.entry
  still r hr := (h.still r hr).imp (·.congr (Chain.settings_collectChanges hc.sound w b.resources)) id
  backed r hr := (h.backed r hr).imp id fun hback => hback.collectChanges hc h.nodup hr
  settled r hr ref href := by
    rcases h.settled r hr ref href with hin | ⟨hoptional, hlacks⟩
    · exact .inl hin
    · by_cases hin : ∃ n ∈ ref.candidates, n ∈ b.resources.map Resource.name
      · exact .inl hin
      · exact .inr ⟨hoptional, fun n hn => (hlacks n hn).collectChanges hc
          fun hin' => hin ⟨n, hn, hin'⟩⟩
  agrees := h.agrees

/-- **An upheld bundle stays upheld through every refresh**, and one that is not abandoned brings it up
to date. -/
theorem IsUpheld.refresh (hc : c.IsOrderly) (h : b.IsUpheld w c kept) :
    (b.refresh w c).1.IsUpheld w (b.refresh w c).2 kept ∧
      (¬ Abandons w c b → (b.refresh w c).1.IsCurrent w (b.refresh w c).2 kept) := by
  obtain ⟨hchain, ⟨habandons, hb⟩ | ⟨changed, book, -, hchanged, hadd, hb⟩⟩ := refresh_cases w b c <;>
    rw [hchain, hb]
  · exact ⟨h.of_abandoned hc, fun hno => absurd habandons hno⟩
  · have hkept := h.of_abandoned hc
    have hrenews := Chain.renews_of_collectChanges hc h.nodup
      (fun r hr => (h.backed r hr).imp (fun hroot => (h.still r hroot).1) id) hchanged
    obtain ⟨hnodup, hmem, hnames⟩ := mem_foldl_put hrenews.nodup h.nodup
    have hwiden : ∀ n, n ∈ b.resources.map Resource.name ++ changed.map Resource.name →
        n ∈ (changed.foldl (fun rs r => put r rs) b.resources).map Resource.name := fun n hn =>
      (hnames n).2 (List.mem_append.1 hn).symm
    refine ⟨⟨hnodup, hwiden _ (List.mem_append_left _ h.entry), fun r hroot => ?_, fun r hr => ?_,
      fun r hr ref href => ?_, h.agrees.add? hrenews.nodup h.nodup hadd⟩, fun _ r hr => ?_⟩
    · obtain ⟨hstill, hr⟩ := h.still r hroot
      exact ⟨(hkept.still r hroot).1, (hmem r).2 (.inr ⟨hr, hrenews.still r hr hstill⟩)⟩
    · rcases (hmem r).1 hr with hr | ⟨hr, -⟩
      · exact .inr (hrenews.serves r hr).1
      · exact hkept.backed r hr
    · rcases (hmem r).1 hr with hr | ⟨hr, -⟩
      · exact (hrenews.settled r hr ref href).imp (fun ⟨n, hn, hin⟩ => ⟨n, hn, hwiden n hin⟩) id
      · exact (hkept.settled r hr ref href).imp
          (fun ⟨n, hn, hin⟩ => ⟨n, hn, hwiden n (List.mem_append_left _ hin)⟩) id
    · rcases (hmem r).1 hr with hr | ⟨hr, hout⟩
      · exact .inr (hrenews.serves r hr).2
      · exact (h.backed r hr).imp id fun hback => (hrenews.old r hr hout hback).2

/-- **A bundle stays upheld while a calm chain looks for later copies for another one.** -/
theorem IsUpheld.of_calm (hc : c.IsOrderly) (hcalm : Chain.IsCalm w c rs) (h : b.IsUpheld w c kept)
    (hsettled : ∀ r ∈ b.resources, kept = some r ∨ Chain.Has (settledTrait w) c r) :
    b.IsUpheld w (c.collectChanges w rs).2 kept where
  nodup := h.nodup
  entry := h.entry
  still r hr := (h.still r hr).imp (·.congr (Chain.settings_collectChanges hc.sound w rs)) id
  backed r hr := by
    rcases h.backed r hr with hkept | hback
    · exact .inl hkept
    · exact (hsettled r hr).imp id fun hhas => (hcalm.collectChanges hc).1 r hhas hback
  settled r hr ref href := (h.settled r hr ref href).imp id
    (And.imp_right fun hlacks n hn => (hcalm.collectChanges hc).2 n (hlacks n hn))
  agrees := h.agrees

/-! ## What a refresh brings -/

theorem mem_of_mem_put : ∀ {rs : List Resource}, m ∈ put r rs → m = r ∨ m ∈ rs
  | [], h => by simpa [put] using h
  | s :: rs, h => by
    rw [put] at h
    split at h
    · exact (List.mem_cons.1 h).imp id (List.mem_cons_of_mem s)
    · rcases List.mem_cons.1 h with rfl | h
      · exact .inr List.mem_cons_self
      · exact (mem_of_mem_put h).imp id (List.mem_cons_of_mem s)

theorem mem_of_mem_foldl_put : ∀ {ms rs : List Resource},
    m ∈ ms.foldl (fun rs r => put r rs) rs → m ∈ ms ∨ m ∈ rs
  | [], _, h => .inr h
  | r :: ms, rs, h => by
    rw [List.foldl_cons] at h
    rcases mem_of_mem_foldl_put h with h | h
    · exact .inl (List.mem_cons_of_mem r h)
    · refine (mem_of_mem_put h).imp ?_ id
      rintro rfl
      exact List.mem_cons_self

/-- **A regular property of the copies and of what is looked at** holds of the copies after a refresh,
and of every resource that the refresh has brought. -/
theorem has_refresh {R : Trait} (hR : R.IsRegular w) (hc : c.IsSound) (hnames : c.names.Nodup)
    (hk : Chain.Keeps R c) (h : ∀ r ∈ b.resources, r.IsGiven ∨ Chain.Has R c r) :
    Chain.Keeps R (b.refresh w c).2 ∧ ∀ r ∈ (b.refresh w c).1.resources,
      r ∈ b.resources ∨ Chain.Has R (b.refresh w c).2 r := by
  have hset := Chain.settings_collectChanges hc w b.resources
  obtain ⟨hkeeps, hbrought⟩ := hk.collectChanges hR hc hnames h
  obtain ⟨hchain, ⟨-, hb⟩ | ⟨changed, book, -, hchanged, -, hb⟩⟩ := refresh_cases w b c <;>
    rw [hchain, hb]
  · exact ⟨hkeeps, fun r hr => .inl hr⟩
  · refine ⟨hkeeps, fun r hr => ?_⟩
    rcases mem_of_mem_foldl_put hr with hr | hr
    · exact .inr ((hbrought changed hchanged r hr).congr hset)
    · exact .inl hr

/-! ## A bundle that has just been made -/

theorem agrees_of_add? {book : Book} (hms : (ms.map Resource.name).Nodup)
    (hadd : Book.add? [] (texts ms) = some book) : Agrees book ms := by
  intro r hr
  rw [Book.source?_add? hadd, lookup_texts hms hr, Option.some_or]

/-- **To make a bundle** is to collect its root and to read what was collected. -/
theorem ofRoot_cases (w : World) (label : String) (root : Resource) (c : Chain) :
    (ofRoot w label root c).2 = (c.collect w root).2 ∧
      ∀ b, (ofRoot w label root c).1 = .ok b → ∃ members book,
        (c.collect w root).1 = .ok members ∧ Book.add? [] (texts members) = some book ∧
        b = { entry := root.name, book, resources := members } := by
  rw [ofRoot]
  rcases c.collect w root with ⟨(e | members), c'⟩
  · exact ⟨rfl, by simp⟩
  · dsimp only
    cases hadd : Book.add? [] (texts members) with
    | none => exact ⟨rfl, by simp⟩
    | some book => exact ⟨rfl, fun b hb => ⟨members, book, rfl, hadd, (Except.ok.inj hb).symm⟩⟩

/-- The root comes first in its bundle. -/
theorem head?_of_ofRoot {label : String} {root : Resource} (hc : c.IsSound)
    (h : (ofRoot w label root c).1 = .ok b) : b.resources.head? = some root := by
  obtain ⟨members, book, hmembers, -, rfl⟩ := (ofRoot_cases w label root c).2 b h
  exact (Chain.isClosure_of_collect hc hmembers).1.head

/-- **A bundle that has just been made is upheld** — around a root that is still, or that the chain
serves. -/
theorem isUpheld_of_ofRoot {label : String} {root : Resource} (hc : c.IsOrderly)
    (hroot : (kept = some root ∧ Chain.IsStill c root) ∨ (kept = none ∧ Chain.Serves w c root))
    (h : (ofRoot w label root c).1 = .ok b) :
    b.IsUpheld w (ofRoot w label root c).2 kept := by
  have hin : root ∈ b.resources := List.mem_of_mem_head? (head?_of_ofRoot hc.sound h)
  obtain ⟨hchain, hok⟩ := ofRoot_cases w label root c
  obtain ⟨members, book, hmembers, hadd, rfl⟩ := hok b h
  rw [hchain]
  obtain ⟨asked, hasks, -⟩ := Chain.asks_collectFrom hc.sound w [root.name] [root]
  have hset := hasks.settings_eq
  have hcollects : Chain.Collects w c [root.name] [root] members (c.collect w root).2 :=
    Chain.collects_of_collectFrom hc (by simp) (by simp) hmembers
  refine ⟨hcollects.nodup, List.mem_map_of_mem hin, fun r hr => ?_, fun r hr => ?_,
    fun r hr ref href => ?_, agrees_of_add? hcollects.nodup hadd⟩
  · rcases hroot with ⟨hkept, hstill⟩ | ⟨hkept, -⟩
    · obtain rfl : root = r := by simpa [hkept] using hr
      exact ⟨hstill.congr hset, hin⟩
    · rw [hkept] at hr
      cases hr
  · rcases hcollects.serves r hr with hr | ⟨-, hserves⟩
    · obtain rfl : r = root := by simpa using hr
      rcases hroot with ⟨hkept, -⟩ | ⟨-, hserves⟩
      · exact .inl hkept
      · exact .inr (hcollects.keeps r (by simp) hserves).1
    · exact .inr hserves.1
  · refine (hcollects.settled r hr ref href).imp (fun ⟨n, hn, hnames⟩ => ⟨n, hn, ?_⟩) id
    rcases List.mem_append.1 hnames with hnames | hnames
    · obtain rfl : n = root.name := by simpa using hnames
      exact List.mem_map_of_mem hin
    · exact hnames

/-- A regular property of the copies holds of all that is collected for a bundle. -/
theorem has_of_ofRoot {R : Trait} {label : String} {root : Resource} (hR : R.IsRegular w)
    (hc : c.IsSound) (hk : Chain.Keeps R c) (h : (ofRoot w label root c).1 = .ok b) :
    Chain.Keeps R (ofRoot w label root c).2 ∧
      ∀ r ∈ b.resources, r = root ∨ Chain.Has R (ofRoot w label root c).2 r := by
  obtain ⟨hchain, hok⟩ := ofRoot_cases w label root c
  obtain ⟨members, book, hmembers, -, rfl⟩ := hok b h
  obtain ⟨hkeeps, hhas⟩ := hk.collectFrom hR hc [root.name] [root]
  obtain ⟨asked, hasks, -⟩ := Chain.asks_collectFrom hc w [root.name] [root]
  rw [hchain]
  exact ⟨hkeeps, fun r hr => (hhas members hmembers r hr).imp (by simp) (·.congr hasks.settings_eq)⟩

theorem settings_ofRoot (hc : c.IsSound) (w : World) (label : String) (root : Resource) :
    (ofRoot w label root c).2.map Loader.settings = c.map Loader.settings := by
  obtain ⟨asked, hasks, -⟩ := Chain.asks_collectFrom hc w [root.name] [root]
  rw [(ofRoot_cases w label root c).1]
  exact hasks.settings_eq

theorem isOrderly_ofRoot (hc : c.IsOrderly) (w : World) (label : String) (root : Resource) :
    (ofRoot w label root c).2.IsOrderly := by
  obtain ⟨asked, hasks, -⟩ := Chain.asks_collectFrom hc.sound w [root.name] [root]
  rw [(ofRoot_cases w label root c).1]
  exact hasks.isOrderly hc

/-! ## Collected anew -/

/-- **What a bundle would be made of now** — the root that is kept, or else what the chain has under
the entry's name, with all it refers to. -/
def collectAnew (w : World) (c : Chain) (kept : Option Resource) (entry : String) :
    Except Error (List Resource) :=
  match kept with
  | some root => (c.collect w root).1
  | none =>
    match c.resolve w entry with
    | (.error e, _) => .error e
    | (.ok root, c) => (c.collect w root).1

theorem resolve_of_answer (h : Chain.answer w c n = .ok (some r)) :
    Chain.resolve w n c = (.ok r, (Chain.find w n c).2) := by
  rw [Chain.resolve]
  rcases hf : Chain.find w n c with ⟨(e | _ | s), c'⟩ <;> rw [Chain.answer, hf] at h
  · cases h
  · cases h
  · obtain rfl : s = r := by simpa using h
    rfl

/-- A bundle that is upheld and up to date settles all its references. -/
theorem IsUpheld.isComplete (h : b.IsUpheld w c kept) (hcurrent : b.IsCurrent w c kept)
    (hplain : ∀ r ∈ b.resources, IsPlain r.source) (hr : r ∈ b.resources)
    (hroot : ∀ s, kept = some s → s = r) :
    Answers.IsComplete (Chain.answer w c) r b.resources where
  holds := hr
  current s hs := (hcurrent s hs).imp (fun hkept => by rw [hroot s hkept]) id
  settled s hs ref href := (h.settled s hs ref href).imp id
    (And.imp_right fun hlacks n hn => (hlacks n hn).answer_eq)
  plain := hplain

/-- **What would be collected anew for a bundle that is up to date is all in it**, in its resources as
in its book. -/
theorem IsUpheld.collectAnew (hc : c.IsOrderly) (h : b.IsUpheld w c kept)
    (hcurrent : b.IsCurrent w c kept) (hplain : ∀ r ∈ b.resources, IsPlain r.source) :
    ∃ members, Bundle.collectAnew w c kept b.entry = .ok members ∧
      ∀ m ∈ members, m ∈ b.resources ∧ b.book.source? m.name = some m.source := by
  obtain ⟨members, hmembers, hsub⟩ : ∃ members,
      Bundle.collectAnew w c kept b.entry = .ok members ∧ members ⊆ b.resources := by
    cases hkept : kept with
    | some root =>
      have hroot := (h.still root hkept).2
      have hcomplete := h.isComplete hcurrent hplain hroot fun s hs => by simpa [hkept] using hs.symm
      exact hcomplete.ends (Chain.isNamed_answer hc.sound w) (Chain.ends_collect hc.sound w root)
    | none =>
      obtain ⟨root, hroot, hname⟩ := List.mem_map.1 h.entry
      have hans := (hcurrent root hroot).resolve_left (by simp [hkept])
      have hcomplete := h.isComplete hcurrent hplain hroot fun s hs => by simp [hkept] at hs
      rw [Bundle.collectAnew, ← hname, resolve_of_answer hans]
      rw [← Chain.answer_find hans] at hcomplete
      have hc' := hc.find w root.name
      exact hcomplete.ends (Chain.isNamed_answer hc'.sound w) (Chain.ends_collect hc'.sound w root)
  exact ⟨members, hmembers, fun m hm => ⟨hsub hm, h.agrees m (hsub hm)⟩⟩

end Bundle

end QueryPress
