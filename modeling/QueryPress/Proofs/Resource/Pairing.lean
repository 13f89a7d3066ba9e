import Mathlib.Data.List.Forall2
import QueryPress.Proofs.Disk.Beside
import QueryPress.Proofs.Resource.Resting

/-!
# Proofs/Resource/Pairing — loaders in two worlds that differ in one file

Two loaders are *paired* around an entry and a file if they hold the same under every name that is apart
from both, and nothing there was read from the file.  In worlds that are beside each other at the place
of the file they give the same answers to such names and stay paired (`Loader.IsPaired.load`,
`refresh`), and so do whole chains of them (`Chain.IsPaired.find`, `follow`, `refreshAll`).  A walk
through references therefore comes to the same in both worlds, as long as no text that it meets refers to
the entry or to the file (`Chain.Walks.agree`).
-/

namespace QueryPress

/-- **Two steps agree** — they answer the same, what they answer fits, and what they leave behind is
related. -/
structure Agree {ε α σ : Type} (Fits : α → Prop) (Related : σ → σ → Prop) (x x' : Except ε α × σ) :
    Prop where
  answer : x'.1 = x.1
  fits : ∀ a, x.1 = .ok a → Fits a
  related : Related x.2 x'.2

namespace Agree

variable {ε α σ : Type} {Fits : α → Prop} {Related : σ → σ → Prop} {x x' : Except ε α × σ} {s s' : σ}
  {a : α}

theorem error {e : ε} (h : Related s s') : Agree Fits Related (.error e, s) (.error e, s') :=
  ⟨rfl, fun _ h => (nomatch h), h⟩

theorem ok (ha : Fits a) (h : Related s s') :
    Agree (ε := ε) Fits Related (.ok a, s) (.ok a, s') :=
  ⟨rfl, fun _ h => Except.ok.inj h ▸ ha, h⟩

theorem cases (h : Agree Fits Related x x') :
    (∃ e s s', x = (.error e, s) ∧ x' = (.error e, s') ∧ Related s s') ∨
      ∃ a s s', x = (.ok a, s) ∧ x' = (.ok a, s') ∧ Fits a ∧ Related s s' := by
  obtain ⟨a, s⟩ := x
  obtain ⟨a', s'⟩ := x'
  obtain ⟨hanswer, hfits, hrelated⟩ := h
  obtain rfl : a' = a := hanswer
  cases a' with
  | error e => exact .inl ⟨e, s, s', rfl, rfl, hrelated⟩
  | ok a => exact .inr ⟨a, s, s', rfl, rfl, hfits a rfl, hrelated⟩

end Agree

variable {v w : World} {home : Place} {file entry n : String} {r : Resource}

/-- **A resource rests with some loaders** — its loader never looks at files again, or it is no file's
and its loader hands out no copies while it waits. -/
def Resource.Rests (settings : List LoaderSettings) (r : Resource) : Prop :=
  ∀ s ∈ settings, s.name = r.loader → s.checkInterval = .never ∨
    (r.path = "" ∧ (s.checkInterval.isTimed = true → s.cache = false))

/-! ## Names that lead elsewhere -/

/-- **A name is apart** from an entry and from a file — it is not the entry, and does not end like the
file. -/
structure IsApart (entry file : String) (n : String) : Prop where
  other : n ≠ entry
  elsewhere : ¬ Path.EndsIn n file

/-- What is apart from a file is not called like it. -/
theorem IsApart.ne (h : IsApart entry file n) (hends : Path.EndsIn file file) : n ≠ file :=
  fun heq => h.elsewhere (heq ▸ hends)

/-- **A resource is apart** from an entry and from a file by its name, and was not read from the file. -/
structure Resource.IsApart (entry file : String) (r : Resource) : Prop where
  name : QueryPress.IsApart entry file r.name
  path : ¬ r.path.EndsIn file

/-- What is found, if anything is, was not read from the file. -/
def FoundElsewhere (file : String) (found : Option Resource) : Prop :=
  ∀ r, found = some r → ¬ r.path.EndsIn file

namespace Loader

variable {l l' : Loader}

/-- **Two loaders are paired around an entry and a file** — under names that are apart from both they
hold the same, and nothing that was read from the file. -/
structure IsPaired (entry file : String) (l l' : Loader) : Prop where
  settings : l'.settings = l.settings
  same : ∀ n, IsApart entry file n → SameAt n l' l
  elsewhere : ∀ n r, IsApart entry file n → Table.get? l.copies n = some r → ¬ r.path.EndsIn file

theorem IsPaired.symm (h : IsPaired entry file l l') : IsPaired entry file l' l where
  settings := h.settings.symm
  same n hn := ⟨h.settings.symm, (h.same n hn).copies.symm, (h.same n hn).checks.symm⟩
  elsewhere n r hn hr := h.elsewhere n r hn (by rwa [← (h.same n hn).copies])

/-! ## What is written down -/

/-- What is written down of a name that is not apart leaves loaders paired. -/
theorem IsPaired.noteCheck_left (h : IsPaired entry file l l') (now : Instant)
    (hn : ¬ IsApart entry file n) : IsPaired entry file (l.noteCheck now n) l' where
  settings := h.settings
  same m hm := by
    have hne : m ≠ n := fun heq => hn (heq ▸ hm)
    exact ⟨h.settings, (h.same m hm).copies, by simp [(h.same m hm).checks, hne]⟩
  elsewhere := h.elsewhere

theorem IsPaired.noteCheck (h : IsPaired entry file l l') (now : Instant) (n : String) :
    IsPaired entry file (l.noteCheck now n) (l'.noteCheck now n) where
  settings := h.settings
  same m hm := ⟨h.settings, (h.same m hm).copies, by simp [(h.same m hm).checks]⟩
  elsewhere := h.elsewhere

theorem IsPaired.evict (h : IsPaired entry file l l') (n : String) :
    IsPaired entry file (l.evict n) (l'.evict n) where
  settings := h.settings
  same m hm := ⟨h.settings, by simp [(h.same m hm).copies], by simp [(h.same m hm).checks]⟩
  elsewhere m r hm hr := by
    rw [get?_copies_evict] at hr
    split at hr
    · cases hr
    · exact h.elsewhere m r hm hr

theorem IsPaired.remember (h : IsPaired entry file l l') (now : Instant) (hr : ¬ r.path.EndsIn file) :
    IsPaired entry file (l.remember now r) (l'.remember now r) where
  settings := by simp [h.settings]
  same m hm := ⟨by simp [h.settings], by simp [h.settings, (h.same m hm).copies],
    by simp [(h.same m hm).checks]⟩
  elsewhere m s hm hs := by
    rw [get?_copies_remember] at hs
    split at hs
    · exact Option.some.inj hs ▸ hr
    · exact h.elsewhere m s hm hs

theorem IsPaired.claim (h : IsPaired entry file l l') (now : Instant) (hn : IsApart entry file n) :
    (l'.claim now n).1 = (l.claim now n).1 ∧ IsPaired entry file (l.claim now n).2 (l'.claim now n).2 := by
  unfold Loader.claim
  rw [(h.same n hn).isDue_eq]
  split
  · exact ⟨rfl, h.noteCheck now n⟩
  · exact ⟨rfl, h⟩

/-! ## What is looked for -/

theorem IsPaired.locate? (h : IsPaired entry file l l') (hw : World.Beside (home ++ [file]) v w)
    (hn : IsApart entry file n) : l'.locate? w n = l.locate? v n := by
  have hfile : (w.isFile ∘ (Path.join · n)) = (v.isFile ∘ (Path.join · n)) :=
    funext fun dir => hw.isFile (mt Path.endsIn_join.1 hn.elsewhere)
  rw [Loader.locate?, Loader.locate?, h.settings, List.find?_map, List.find?_map, hfile]

theorem not_endsIn_of_locate? {path : Path} (hn : IsApart entry file n)
    (h : l.locate? v n = some path) : ¬ path.EndsIn file := by
  simp only [Loader.locate?, Option.ite_none_right_eq_some] at h
  obtain ⟨dir, -, rfl⟩ := List.mem_map.1 (List.mem_of_find?_eq_some h.2)
  exact mt Path.endsIn_join.1 hn.elsewhere

theorem isFile_of_locate? {path : Path} (h : l.locate? v n = some path) : v.isFile path = true := by
  simp only [Loader.locate?, Option.ite_none_right_eq_some] at h
  exact List.find?_some h.2

/-- What stands at a path in both worlds reads the same in both. -/
theorem IsPaired.read (h : IsPaired entry file l l') (hw : World.Beside (home ++ [file]) v w) {path : Path}
    (hpath : ¬ path.EndsIn file) {t : Instant} (ht : v.modified path = .ok t) :
    l'.read w n path = l.read v n path := by
  obtain ⟨t', hv, hw', htext⟩ | ⟨x, -, hv, -⟩ := hw.modified hpath
  · simp only [Loader.read, hv, hw', htext, name, h.settings]
  · rw [ht] at hv
    cases hv

theorem IsPaired.search (h : IsPaired entry file l l') (hw : World.Beside (home ++ [file]) v w)
    (hn : IsApart entry file n) :
    Agree (FoundElsewhere file) (IsPaired entry file) (l.search v n) (l'.search w n) := by
  unfold Loader.search
  rw [h.locate? hw hn, hw.now]
  cases hl : l.locate? v n with
  | none => exact .ok nofun (h.evict n)
  | some path =>
    have hpath := not_endsIn_of_locate? hn hl
    obtain ⟨t, ht⟩ := World.modified_of_isFile (isFile_of_locate? hl)
    dsimp only
    rw [h.read hw hpath ht]
    cases hr : l.read v n path with
    | error e => exact .error h
    | ok r =>
      have hr' : ¬ r.path.EndsIn file := by rwa [(read_eq_ok hr).2]
      exact .ok (by simp [FoundElsewhere, hr']) (h.remember v.now hr')

theorem isCurrent_beside (hw : World.Beside (home ++ [file]) v w) (hr : ¬ r.path.EndsIn file) :
    isCurrent w r = isCurrent v r := by
  obtain ⟨t, hv, hw', -⟩ | ⟨x, x', hv, hw'⟩ := hw.modified hr <;> simp only [isCurrent, hv, hw']

/-- **Paired loaders load the same**, and stay paired. -/
theorem IsPaired.load (h : IsPaired entry file l l') (hw : World.Beside (home ++ [file]) v w)
    (hn : IsApart entry file n) :
    Agree (FoundElsewhere file) (IsPaired entry file) (l.load v n) (l'.load w n) := by
  unfold Loader.load
  rw [(h.same n hn).copy?_eq, hw.now]
  cases hc : l.copy? n with
  | none => exact h.search hw hn
  | some copy =>
    have hcopy := h.elsewhere n copy hn (get?_of_copy? hc)
    obtain ⟨hdue, hpair⟩ := h.claim v.now hn
    dsimp only
    rw [hdue, isCurrent_beside hw hcopy]
    split
    · exact .ok (by simp [FoundElsewhere, hcopy]) hpair
    · exact hpair.search hw hn

theorem IsPaired.reread (h : IsPaired entry file l l') (hw : World.Beside (home ++ [file]) v w)
    (hr : ¬ r.path.EndsIn file) :
    Agree (FoundElsewhere file) (IsPaired entry file) (l.reread v r) (l'.reread w r) := by
  unfold Loader.reread
  obtain ⟨t, hv, hw', -⟩ | ⟨x, x', hv, hw'⟩ := hw.modified hr <;> rw [hv, hw']
  · dsimp only
    split
    · exact .ok nofun h
    · rw [h.read hw hr hv, hw.now]
      cases hread : l.read v r.name r.path with
      | error e => exact .error h
      | ok fresh =>
        have hfresh : ¬ fresh.path.EndsIn file := by rwa [(read_eq_ok hread).2]
        exact .ok (by simp [FoundElsewhere, hfresh]) (h.remember v.now hfresh)
  · exact .ok nofun h

/-- **Paired loaders find the same later copy** of a resource that was not read from the file. -/
theorem IsPaired.refresh (h : IsPaired entry file l l') (hw : World.Beside (home ++ [file]) v w)
    (hn : IsApart entry file r.name) (hr : ¬ r.path.EndsIn file) :
    Agree (FoundElsewhere file) (IsPaired entry file) (l.refresh v r) (l'.refresh w r) := by
  unfold Loader.refresh
  rw [h.settings, hw.now]
  obtain ⟨hdue, hpair⟩ := h.claim v.now hn
  split
  · exact .ok nofun h
  · dsimp only
    rw [hdue, (hpair.same r.name hn).copy?_eq]
    split
    · exact hpair.reread hw hr
    · exact .ok (fun s hs => hpair.elsewhere _ s hn (get?_of_copy? (Option.filter_eq_some_iff.1 hs).1))
        hpair

/-- A look at a resource that rests finds nothing. -/
theorem refresh_of_rests (w : World) (h : l.settings.checkInterval = .never ∨
    (r.path = "" ∧ (l.settings.checkInterval.isTimed = true → l.settings.cache = false))) :
    l.refresh w r = (.ok none, l) ∨ l.refresh w r = (.ok none, l.noteCheck w.now r.name) := by
  obtain ⟨-, hf⟩ | ⟨hnever, hdue, hf⟩ | ⟨hnever, hdue, hf⟩ := refresh_cases w l r <;> rw [hf]
  · exact .inl rfl
  · obtain ⟨-, hcache⟩ := h.resolve_left hnever
    exact .inl (by simp [copy?, hcache (isTimed_of_not_due hnever hdue)])
  · obtain ⟨hpath, -⟩ := h.resolve_left hnever
    exact .inr (by rw [reread, hpath, World.modified_empty])

end Loader

namespace Chain

open Answers

variable {c c' d d' : Chain} {settings : List LoaderSettings} {known known' given : List String}
  {start waiting done : List Resource}

/-- **Two chains are paired around a file** — their loaders are, and their tables are sound. -/
structure IsPaired (entry file : String) (settings : List LoaderSettings) (c c' : Chain) : Prop where
  loaders : List.Forall₂ (Loader.IsPaired entry file) c c'
  sound : c.IsSound
  sound' : c'.IsSound
  settings_eq : c.map Loader.settings = settings

theorem IsPaired.settings_eq' (h : IsPaired entry file settings c c') :
    c'.map Loader.settings = settings := by
  rw [← h.settings_eq]
  have hloaders := h.loaders
  clear h
  induction hloaders with
  | nil => rfl
  | cons hl _ ih => rw [List.map_cons, List.map_cons, hl.settings, ih]

/-! ## One question, one look -/

theorem find_paired (hw : World.Beside (home ++ [file]) v w) (hn : IsApart entry file n)
    (h : List.Forall₂ (Loader.IsPaired entry file) c c') :
    Agree (FoundElsewhere file) (List.Forall₂ (Loader.IsPaired entry file)) (find v n c) (find w n c') := by
  induction h with
  | nil => exact .ok nofun .nil
  | cons hl hls ih =>
    rw [find, find]
    obtain ⟨e, k, k', hv, hw', hk⟩ | ⟨found, k, k', hv, hw', hfound, hk⟩ := (hl.load hw hn).cases <;>
      rw [hv, hw']
    · exact .error (.cons hk hls)
    · cases found with
      | some r => exact .ok hfound (.cons hk hls)
      | none => exact ⟨ih.answer, ih.fits, .cons hk ih.related⟩

theorem refresh_paired (hw : World.Beside (home ++ [file]) v w) (hn : IsApart entry file r.name)
    (hr : ¬ r.path.EndsIn file) (h : List.Forall₂ (Loader.IsPaired entry file) c c') :
    Agree (FoundElsewhere file) (List.Forall₂ (Loader.IsPaired entry file)) (refresh v r c)
      (refresh w r c') := by
  induction h with
  | nil => exact .ok nofun .nil
  | cons hl hls ih =>
    rw [refresh, refresh, Loader.name, Loader.name, hl.settings]
    split
    · obtain ⟨e, k, k', hv, hw', hk⟩ | ⟨found, k, k', hv, hw', hfound, hk⟩ :=
        (hl.refresh hw hn hr).cases <;> rw [hv, hw']
      · exact .error (.cons hk hls)
      · exact .ok hfound (.cons hk hls)
    · exact ⟨ih.answer, ih.fits, .cons hl ih.related⟩

/-- What is found, if anything is, is apart. -/
def FoundApart (entry file : String) (found : Option Resource) : Prop :=
  ∀ r, found = some r → r.IsApart entry file

/-- **Paired chains find the same** under a name that is apart, and stay paired. -/
theorem IsPaired.find (hw : World.Beside (home ++ [file]) v w) (hn : IsApart entry file n)
    (h : IsPaired entry file settings c c') :
    Agree (FoundApart entry file) (IsPaired entry file settings) (find v n c) (find w n c') := by
  obtain ⟨hanswer, hfits, hpair⟩ := find_paired hw hn h.loaders
  refine ⟨hanswer, fun a ha r hr => ⟨?_, hfits a ha r hr⟩, hpair, h.sound.find v n, h.sound'.find w n,
    (settings_find v n c).trans h.settings_eq⟩
  subst hr
  rwa [h.sound.name_of_answer ha]

/-- **Paired chains have the same later copy** of a resource that is apart. -/
theorem IsPaired.refresh (hw : World.Beside (home ++ [file]) v w) (hr : r.IsApart entry file)
    (h : IsPaired entry file settings c c') :
    Agree (FoundApart entry file) (IsPaired entry file settings) (refresh v r c) (refresh w r c') := by
  obtain ⟨hanswer, hfits, hpair⟩ := refresh_paired hw hr.name hr.path h.loaders
  refine ⟨hanswer, fun a ha s hs => ⟨?_, hfits a ha s hs⟩, hpair,
    forall_refresh (fun _ _ hl => hl.refresh v r) h.sound,
    forall_refresh (fun _ _ hl => hl.refresh w r) h.sound',
    (settings_refresh v r c).trans h.settings_eq⟩
  subst hs
  rw [name_of_refresh h.sound ha]
  exact hr.name

/-! ## A look at a root -/

/-- **Paired chains stay paired when one of them looks at a root that rests**, and nothing later is
found. -/
theorem refresh_rests (w : World) (hn : ¬ IsApart entry file r.name)
    (h : List.Forall₂ (Loader.IsPaired entry file) c c') (hr : r.Rests (c.map Loader.settings)) :
    ∃ d, refresh w r c = (.ok none, d) ∧ List.Forall₂ (Loader.IsPaired entry file) d c' := by
  induction h with
  | nil => exact ⟨[], rfl, .nil⟩
  | @cons l l' ls ls' hl hls ih =>
    obtain ⟨hrest, hrests⟩ := List.forall_mem_cons.1 hr
    rw [refresh]
    split
    · obtain hf | hf := Loader.refresh_of_rests w (hrest ‹_›) <;> rw [hf]
      · exact ⟨_, rfl, .cons hl hls⟩
      · exact ⟨_, rfl, .cons (hl.noteCheck_left w.now hn) hls⟩
    · obtain ⟨d, hf, hd⟩ := ih hrests
      rw [hf]
      exact ⟨_, rfl, .cons hl hd⟩

theorem IsPaired.symm (h : IsPaired entry file settings c c') : IsPaired entry file settings c' c where
  loaders := h.loaders.flip.imp fun _ _ hl => hl.symm
  sound := h.sound'
  sound' := h.sound
  settings_eq := h.settings_eq'

theorem IsPaired.refresh_left (w : World) (hn : ¬ IsApart entry file r.name) (hr : r.Rests settings)
    (h : IsPaired entry file settings c c') :
    ∃ d, Chain.refresh w r c = (.ok none, d) ∧ IsPaired entry file settings d c' := by
  obtain ⟨d, hf, hd⟩ := refresh_rests w hn h.loaders (h.settings_eq ▸ hr)
  have hsound := forall_refresh (fun _ _ hl => hl.refresh w r) h.sound
  have hsettings := settings_refresh w r c
  rw [hf] at hsound hsettings
  exact ⟨d, hf, hd, hsound, h.sound', hsettings.trans h.settings_eq⟩

theorem IsPaired.refresh_right (w : World) (hn : ¬ IsApart entry file r.name) (hr : r.Rests settings)
    (h : IsPaired entry file settings c c') :
    ∃ d', Chain.refresh w r c' = (.ok none, d') ∧ IsPaired entry file settings c d' := by
  obtain ⟨d', hf, hd⟩ := h.symm.refresh_left w hn hr
  exact ⟨d', hf, hd.symm⟩

/-! ## Many questions, many looks -/

theorem IsPaired.findFirst (hw : World.Beside (home ++ [file]) v w) : ∀ {names : List String}
    {c c' : Chain}, (∀ n ∈ names, IsApart entry file n) → IsPaired entry file settings c c' →
      Agree (FoundApart entry file) (IsPaired entry file settings) (findFirst v names c)
        (findFirst w names c')
  | [], c, c', _, h => .ok nofun h
  | n :: ns, c, c', hnames, h => by
    obtain ⟨hn, hns⟩ := List.forall_mem_cons.1 hnames
    rw [Chain.findFirst, Chain.findFirst]
    obtain ⟨e, d, d', hv, hw', hd⟩ | ⟨found, d, d', hv, hw', hfound, hd⟩ := (h.find hw hn).cases <;>
      rw [hv, hw']
    · exact .error hd
    · cases found with
      | some r => exact .ok hfound hd
      | none => exact IsPaired.findFirst hw hns hd

/-- **Paired chains find the same for references** to names that are apart. -/
theorem IsPaired.follow (hw : World.Beside (home ++ [file]) v w) : ∀ {refs : List Reference}
    {known known' : List String} {c c' : Chain},
    (∀ ref ∈ refs, ∀ n ∈ ref.candidates, IsApart entry file n) →
    (∀ n, IsApart entry file n → (n ∈ known ↔ n ∈ known')) → IsPaired entry file settings c c' →
      Agree (∀ r ∈ ·, r.IsApart entry file) (IsPaired entry file settings) (follow v known refs c)
        (follow w known' refs c')
  | [], _, _, c, c', _, _, h => .ok (by simp) h
  | ref :: refs, known, known', c, c', hrefs, hknown, h => by
    obtain ⟨href, hrefs⟩ := List.forall_mem_cons.1 hrefs
    have hany : ref.candidates.any (known'.contains ·) = ref.candidates.any (known.contains ·) := by
      rw [Bool.eq_iff_iff, List.any_eq_true, List.any_eq_true]
      exact exists_congr fun n => and_congr_right fun hn => by simp [hknown n (href n hn)]
    rw [Chain.follow, Chain.follow, hany]
    split
    · exact IsPaired.follow hw hrefs hknown h
    · obtain ⟨e, d, d', hv, hw', hd⟩ | ⟨found, d, d', hv, hw', hfound, hd⟩ :=
        (h.findFirst hw href).cases <;> rw [hv, hw']
      · exact .error hd
      · cases found with
        | none =>
          dsimp only
          split
          · exact IsPaired.follow hw hrefs hknown hd
          · exact .error hd
        | some r =>
          have hcons : ∀ n, IsApart entry file n → (n ∈ r.name :: known ↔ n ∈ r.name :: known') :=
            fun n hn => by simp [hknown n hn]
          have hrest := IsPaired.follow hw hrefs hcons hd
          dsimp only
          obtain ⟨e, k, k', hv, hw', hk⟩ | ⟨found, k, k', hv, hw', hrest, hk⟩ := hrest.cases <;>
            rw [hv, hw']
          · exact .error hk
          · exact .ok (List.forall_mem_cons.2 ⟨hfound r rfl, hrest⟩) hk

/-- **Paired chains have the same later copies** of resources that are apart. -/
theorem IsPaired.refreshAll (hw : World.Beside (home ++ [file]) v w) : ∀ {rs : List Resource}
    {c c' : Chain}, (∀ r ∈ rs, r.IsApart entry file) → IsPaired entry file settings c c' →
      Agree (∀ r ∈ ·, r.IsApart entry file) (IsPaired entry file settings) (refreshAll v rs c)
        (refreshAll w rs c')
  | [], c, c', _, h => .ok (by simp) h
  | r :: rs, c, c', hrs, h => by
    obtain ⟨hr, hrs⟩ := List.forall_mem_cons.1 hrs
    rw [Chain.refreshAll, Chain.refreshAll]
    obtain ⟨e, d, d', hv, hw', hd⟩ | ⟨fresh, d, d', hv, hw', hfresh, hd⟩ := (h.refresh hw hr).cases <;>
      rw [hv, hw']
    · exact .error hd
    · obtain ⟨e, k, k', hv, hw', hk⟩ | ⟨changed, k, k', hv, hw', hchanged, hk⟩ :=
        (IsPaired.refreshAll hw hrs hd).cases <;> dsimp only <;> rw [hv, hw']
      · exact .error hk
      · refine .ok (fun s hs => ?_) hk
        rcases List.mem_append.1 hs with hs | hs
        · exact hfresh s (Option.mem_toList.1 hs)
        · exact hchanged s hs

/-! ## Walks -/

/-- **A text does not refer to an entry or a file**, in whatever way it spells them. -/
def Shuns (entry file : String) (text : String) : Prop :=
  ∀ ref ∈ Reference.ofText text, ∀ n ∈ ref.candidates, IsApart entry file n

section

variable {r r' : Resource} {a a' : Except Error (List Resource)} {c' d' : Chain} {known' : List String}

/-- A walk that fails at once does so through a paired chain, too. -/
theorem Walks.failed_paired (hw : World.Beside (home ++ [file]) v w)
    (hc : IsPaired entry file settings c c') (hshuns : Shuns entry file r.source)
    (hknown : ∀ n, IsApart entry file n → (n ∈ known ↔ n ∈ known')) (hsource : r'.source = r.source)
    {e : Error} (hf : follow v known (Reference.ofText r.source) c = (.error e, d))
    (h : Walks w known' (r' :: waiting) c' a' d') :
    a' = .error e ∧ IsPaired entry file settings d d' := by
  have hagree := hc.follow hw hshuns hknown
  cases h with
  | failed hf' =>
    rw [hf, ← hsource, hf'] at hagree
    exact ⟨hagree.answer, hagree.related⟩
  | onward hf' =>
    rw [hf, ← hsource, hf'] at hagree
    cases hagree.answer

/-- A walk that goes on goes on through a paired chain, too, with the same that was found. -/
theorem Walks.onward_paired (hw : World.Beside (home ++ [file]) v w)
    (hc : IsPaired entry file settings c c') (hshuns : Shuns entry file r.source)
    (hknown : ∀ n, IsApart entry file n → (n ∈ known ↔ n ∈ known')) (hsource : r'.source = r.source)
    {found : List Resource} (hf : follow v known (Reference.ofText r.source) c = (.ok found, d))
    (h : Walks w known' (r' :: waiting) c' a' d') :
    (∀ s ∈ found, s.IsApart entry file) ∧ ∃ k' rest, IsPaired entry file settings d k' ∧
      Walks w (found.map Resource.name ++ known') (waiting ++ found) k' rest d' ∧
      a' = rest.map (r' :: ·) := by
  have hagree := hc.follow hw hshuns hknown
  cases h with
  | failed hf' =>
    rw [hf, ← hsource, hf'] at hagree
    cases hagree.answer
  | onward hf' hwalk =>
    rw [hf, ← hsource, hf'] at hagree
    obtain rfl := Except.ok.inj hagree.answer
    exact ⟨hagree.fits _ rfl, _, _, hagree.related, hwalk, rfl⟩

end

/-- **A walk comes to the same through paired chains** if no text that it meets refers to the file or
the entry; all it brings is apart from them. -/
theorem Walks.agree (hw : World.Beside (home ++ [file]) v w) {a a' : Except Error (List Resource)}
    (h : Walks v known waiting c a d) : ∀ {A : Answers} {done : List Resource} {known' : List String}
    {c' d' : Chain}, Walks w known' waiting c' a' d' → IsPaired entry file settings c c' →
      (∀ n, IsApart entry file n → (n ∈ known ↔ n ∈ known')) →
      answer v c = A → Reaches A given start done waiting →
      (∀ n, n ∈ known ↔ n ∈ given ++ (done ++ waiting).map Resource.name) →
      (∀ done waiting, Reaches A given start done waiting → ∀ r ∈ done ++ waiting,
        Shuns entry file r.source) →
      Agree (fun members => ∀ r ∈ members, r ∈ waiting ∨ r.IsApart entry file)
        (IsPaired entry file settings) (a, d) (a', d') := by
  induction h generalizing a' with
  | nothing =>
    intro A done known' c' d' h' hc _ _ _ _ _
    cases h'
    exact .ok (by simp) hc
  | @failed known r waiting c d e hf =>
    intro A done known' c' d' h' hc hknown _ hreach _ hshuns
    obtain ⟨rfl, hd⟩ := h'.failed_paired hw hc (hshuns _ _ hreach r (by simp)) hknown rfl hf
    exact .error hd
  | @onward known r waiting found c d k a hf _ ih =>
    intro A done known' c' d' h' hc hknown hA hreach hgiven hshuns
    obtain ⟨hfound, k', rest, hk, hwalk', rfl⟩ :=
      h'.onward_paired hw hc (hshuns _ _ hreach r (by simp)) hknown rfl hf
    obtain ⟨hfst, hkeep⟩ := fst_follow (w := v) (Reference.ofText r.source) known c
    rw [hf] at hfst hkeep
    subst hA
    rw [follow_congr hgiven] at hfst
    have hrest := ih hwalk' hk (fun n hn => by simp [hknown n hn]) (hkeep _ rfl)
      (hreach.onward hfst.symm) (fun n => by
        simp only [List.mem_append, List.mem_map, List.mem_cons, hgiven n, List.map_append]
        grind) hshuns
    obtain ⟨e, s, s', hv, hw', hs⟩ | ⟨members, s, s', hv, hw', hmembers, hs⟩ := hrest.cases <;>
      obtain ⟨rfl, rfl⟩ := Prod.mk.inj hv <;> obtain ⟨rfl, rfl⟩ := Prod.mk.inj hw'
    · exact .error hs
    · refine .ok (List.forall_mem_cons.2 ⟨.inl List.mem_cons_self, fun s hs => ?_⟩) hs
      rcases hmembers s hs with hs | hs
      · rcases List.mem_append.1 hs with hs | hs
        · exact .inl (List.mem_cons_of_mem r hs)
        · exact .inr (hfound s hs)
      · exact .inr hs

/-- **What is collected for two roots with one text** differs in the roots alone. -/
theorem IsPaired.collect (hw : World.Beside (home ++ [file]) v w) (h : IsPaired entry file settings c c')
    {root root' : Resource} (hsource : root'.source = root.source) (hentry : root.name = entry)
    (hfile : root'.name = file) (hends : Path.EndsIn file file)
    (hshuns : ∀ done waiting, Reaches (answer v c) [] [root] done waiting → ∀ r ∈ done ++ waiting,
      Shuns entry file r.source) :
    (∃ e d d', c.collect v root = (.error e, d) ∧ c'.collect w root' = (.error e, d')) ∨
      ∃ rest d d', c.collect v root = (.ok (root :: rest), d) ∧
        c'.collect w root' = (.ok (root' :: rest), d') ∧ (∀ r ∈ rest, r.IsApart entry file) ∧
        IsPaired entry file settings d d' := by
  have hwalk : Walks v [root.name] [root] c (c.collect v root).1 (c.collect v root).2 :=
    walks_collectFrom h.sound v [root.name] [root]
  have hwalk' : Walks w [root'.name] [root'] c' (c'.collect w root').1 (c'.collect w root').2 :=
    walks_collectFrom h.sound' w [root'.name] [root']
  generalize c.collect v root = x at hwalk ⊢
  generalize c'.collect w root' = x' at hwalk' ⊢
  obtain ⟨a, d⟩ := x
  obtain ⟨a', d'⟩ := x'
  -- neither root has the name of anything that is apart
  have hknown : ∀ n, IsApart entry file n → (n ∈ [root.name] ↔ n ∈ [root'.name]) := by
    intro n hn
    simp [hentry, hfile, hn.other, hn.ne hends]
  have hroot := hshuns _ _ .start root (by simp)
  cases hwalk with
  | failed hf =>
    obtain ⟨rfl, -⟩ := hwalk'.failed_paired hw h hroot hknown hsource hf
    exact .inl ⟨_, _, _, rfl, rfl⟩
  | onward hf hrest =>
    obtain ⟨hfound, k', rest', hk, hrest', rfl⟩ := hwalk'.onward_paired hw h hroot hknown hsource hf
    obtain ⟨hfst, hkeep⟩ := fst_follow (w := v) (Reference.ofText root.source) [root.name] c
    rw [hf] at hfst hkeep
    have hwalks := hrest.agree hw hrest' hk (fun n hn => by simp [hknown n hn])
      (hkeep _ rfl) (Reaches.start.onward hfst.symm) (fun n => by simp [or_comm]) hshuns
    obtain ⟨e, s, s', hv, hw', -⟩ | ⟨rest, s, s', hv, hw', hapart, hs⟩ := hwalks.cases <;>
      obtain ⟨rfl, rfl⟩ := Prod.mk.inj hv <;> obtain ⟨rfl, rfl⟩ := Prod.mk.inj hw'
    · exact .inl ⟨e, _, _, rfl, rfl⟩
    · refine .inr ⟨rest, _, _, rfl, rfl, fun r hr => ?_, hs⟩
      exact (hapart r hr).elim (hfound r) id

/-- The later copies of resources, and all that is met when what they refer to is collected. -/
def Meets (v : World) (c : Chain) (rs : List Resource) (r : Resource) : Prop :=
  ∃ changed done waiting, (refreshAll v rs c).1 = .ok changed ∧
    Reaches (answer v (refreshAll v rs c).2) (rs.map Resource.name) changed done waiting ∧
    r ∈ done ++ waiting

/-- **What is met is what has changed**, if nothing fails. -/
theorem meets_iff (hc : c.IsSound) {rs members : List Resource}
    (h : (c.collectChanges w rs).1 = .ok members) : Meets w c rs r ↔ r ∈ members := by
  rw [collectChanges_eq] at h
  have hsound := hc.refreshAll w rs
  rcases hf : refreshAll w rs c with ⟨(e | changed), d⟩ <;> rw [hf] at h hsound
  · cases h
  · have hsub := (names_refreshAll hc (congrArg Prod.fst hf)).subset
    have hknown : ∀ n, n ∈ rs.map Resource.name ↔
        n ∈ rs.map Resource.name ++ changed.map Resource.name := fun n => by
      rw [List.mem_append]
      exact ⟨.inl, fun hn => hn.elim id fun hn => hsub hn⟩
    have hend := ends_collectFrom hsound w hknown
    rw [h] at hend
    constructor
    · rintro ⟨changed', done, waiting, heq, hreach, hr⟩
      rw [hf] at heq hreach
      obtain rfl := Except.ok.inj heq
      exact (hreach.prefix_of_finished hend.reaches).subset hr
    · exact fun hr =>
        ⟨changed, members, [], by rw [hf], by rw [hf]; exact hend.reaches, by simpa using hr⟩

theorem refreshAll_of_rests {root : Resource} {rs : List Resource}
    (h : Chain.refresh w root c = (.ok none, d)) : refreshAll w (root :: rs) c = refreshAll w rs d := by
  rw [refreshAll, h]
  dsimp only
  rcases refreshAll w rs d with ⟨(e | changed), k⟩ <;> rfl

/-- **Two bundles that differ in roots that stay as they are find the same changes.** -/
theorem IsPaired.collectChanges (hw : World.Beside (home ++ [file]) v w)
    (h : IsPaired entry file settings c c') {root root' : Resource} {rest : List Resource}
    (hrests : root.Rests settings) (hrests' : root'.Rests settings)
    (hentry : root.name = entry) (hfile : root'.name = file) (hends : Path.EndsIn file file)
    (hrest : ∀ r ∈ rest, r.IsApart entry file)
    (hshuns : ∀ r, Meets v c (root :: rest) r → Shuns entry file r.source) :
    Agree (∀ r ∈ ·, r.IsApart entry file) (IsPaired entry file settings)
      (c.collectChanges v (root :: rest)) (c'.collectChanges w (root' :: rest)) := by
  have hroot : ¬ IsApart entry file root.name := fun hn => hn.other hentry
  have hroot' : ¬ IsApart entry file root'.name := fun hn => hn.ne hends hfile
  obtain ⟨k, hk, h⟩ := h.refresh_left v hroot hrests
  obtain ⟨k', hk', h⟩ := h.refresh_right w hroot' hrests'
  have hlook := h.refreshAll hw hrest
  have hmeets : ∀ changed, (Chain.refreshAll v rest k).1 = .ok changed → ∀ done waiting,
      Reaches (answer v (Chain.refreshAll v rest k).2) ((root :: rest).map Resource.name) changed done
        waiting → ∀ r ∈ done ++ waiting, Shuns entry file r.source := by
    intro changed hchanged done waiting hreach r hr
    refine hshuns r ⟨changed, done, waiting, ?_, ?_, hr⟩ <;> rwa [refreshAll_of_rests hk]
  rw [collectChanges_eq, collectChanges_eq, refreshAll_of_rests hk, refreshAll_of_rests hk']
  obtain ⟨e, d, d', hv, hw', hd⟩ | ⟨changed, d, d', hv, hw', hchanged, hd⟩ := hlook.cases <;>
    rw [hv, hw']
  · exact .error hd
  · have hsub := (names_refreshAll h.sound (congrArg Prod.fst hv)).subset
    rw [hv] at hmeets
    have hknown : ∀ n, IsApart entry file n →
        (n ∈ (root :: rest).map Resource.name ↔ n ∈ (root' :: rest).map Resource.name) := by
      intro n hn
      simp [hentry, hfile, hn.other, hn.ne hends]
    have hagree := (walks_collectFrom hd.sound v _ changed).agree hw
      (walks_collectFrom hd.sound' w _ changed) hd hknown rfl .start (fun n => by
        rw [List.mem_append]
        refine ⟨.inl, fun hn => hn.elim id fun hn => List.mem_cons_of_mem _ (hsub ?_)⟩
        simpa using hn) (hmeets changed rfl)
    exact ⟨hagree.answer, fun members hm r hr => (hagree.fits members hm r hr).elim (hchanged r) id,
      hagree.related⟩

end Chain

end QueryPress
