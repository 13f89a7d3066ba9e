import QueryPress.Proofs.Template.Asking

/-!
# Proofs/Template/Using — a compiler, whatever its host does with it

A host compiles texts and stored templates, refreshes templates and removes their files, and asks the
loaders themselves: one of them or all, for names, for all that a text refers to, for later copies of
what they have handed out.  Files change in between as they like.  `Usage.Run` is any number of such
steps.

Whatever holds of the copies of a chain, and is kept when the chain is asked for a name and when it
forgets one, is kept by every compile (`Compiler.chain_compile`).  So two things are enough to know what
holds after any run: a regular property of resources holds of all that is handed out or brought into a
template, and every template goes on being closed, with its entry first (`Usage.IsKept.run`).
-/

namespace QueryPress

variable {w w' : World} {k k' : Compiler} {t : Template} {c c' : Chain} {n label : String}
  {root r : Resource}

/-! ## The chain that a compile leaves behind -/

namespace Compiler

/-- **A property of chains that questions and forgetting keep.** -/
structure IsSteady (P : Chain → Prop) : Prop where
  sound : ∀ {c}, P c → c.IsSound
  find : ∀ {c} (w : World) (n : String), P c → P (c.find w n).2
  evict : ∀ {c} (n : String), P c → P (c.evict n)

variable {P : Chain → Prop}

theorem IsSteady.asks (hP : IsSteady P) {ns : List String} (h : Chain.Asks w ns c c') (hc : P c) :
    P c' :=
  h.keeps (fun n _ _ hc => hP.find w n hc) hc

theorem IsSteady.collect (hP : IsSteady P) (hc : P c) (w : World) (root : Resource) :
    P (c.collect w root).2 := by
  obtain ⟨asked, hasks, -⟩ := Chain.asks_collectFrom (hP.sound hc) w [root.name] [root]
  exact hP.asks hasks hc

theorem IsSteady.ofRoot (hP : IsSteady P) (hc : P c) (w : World) (label : String) (root : Resource) :
    P (Bundle.ofRoot w label root c).2 := by
  rw [(Bundle.ofRoot_cases w label root c).1]
  exact hP.collect hc w root

theorem IsSteady.resolve (hP : IsSteady P) (hc : P c) (w : World) (n : String) :
    P (c.resolve w n).2 := by
  have hfind := hP.find w n hc
  rw [Chain.resolve]
  rcases hf : c.find w n with ⟨(e | _ | root), c'⟩ <;> rw [hf] at hfind <;> exact hfind

theorem IsSteady.compileNamed (hP : IsSteady P) (hc : P c) (w : World) (label n : String) :
    P (compileNamed w label n c).2 := by
  have hres := hP.resolve hc w n
  rw [Compiler.compileNamed]
  rcases hf : c.resolve w n with ⟨(e | root), c'⟩ <;> rw [hf] at hres
  · exact hres
  · exact hP.ofRoot hres w label root

theorem IsSteady.compileEphemeral (hP : IsSteady P) (hk : P k.chain) (w : World)
    (name : Option String) (body : String) (options : Table String) :
    P (k.compileEphemeral w name body options).2.chain := by
  simp only [Compiler.compileEphemeral]
  exact hP.ofRoot hk w _ _

theorem IsSteady.compileMaterialized (hP : IsSteady P) (hk : P k.chain) (w : World)
    (name : Option String) (body : String) (options : Table String) :
    P (k.compileMaterialized w name body options).2.1.chain := by
  obtain ⟨serial, hm | ⟨v, -, ⟨e, c, hnamed, hm⟩ | ⟨bundle, c, hnamed, hm⟩⟩⟩ :=
    k.compileMaterialized_ways w name body options
  · rwa [hm]
  all_goals
    have hchain := hP.compileNamed hk v (name.getD namelessLabel) (k.nextFile w)
    rw [hnamed] at hchain
    rw [hm]
  · exact hP.evict _ hchain
  · exact hchain

/-- **Every compile keeps what questions and forgetting keep**, also one that fails. -/
theorem chain_compile (hP : IsSteady P) (hk : P k.chain) (w : World) (name : Option String)
    (source : String) (options : Table String) :
    P (k.compile w name source options).2.1.chain := by
  obtain ⟨n, hway⟩ | ⟨asked, -, ⟨-, hway⟩ | ⟨-, hway⟩⟩ := k.compile_ways w name source options <;>
    rw [hway]
  · exact hk
  · dsimp only
    exact hP.compileEphemeral hk w name _ options
  · exact hP.compileMaterialized hk w name _ options

theorem chain_compileStored (hP : IsSteady P) (hk : P k.chain) (w : World) (name : String)
    (options : Table String) : P (k.compileStored w name options).2.chain :=
  hP.compileNamed hk w name name

theorem chain_remove (hP : IsSteady P) (hk : P k.chain) (w : World) (t : Template) :
    P (k.remove w t).1.chain := by
  rw [remove]
  split
  · exact hk
  · split
    · exact hP.evict _ hk
    · exact hk

theorem chain_removePaths (hP : IsSteady P) : ∀ (paths : List Path) {c : Chain} (w : World), P c →
    P (removePaths w c paths).1
  | [], _, _, hc => hc
  | path :: paths, c, w, hc => by
    rw [removePaths]
    refine chain_removePaths hP paths _ ?_
    cases path.fileName? with
    | none => exact hc
    | some name => exact hP.evict name hc

end Compiler

/-! ## The entry comes first -/

namespace Bundle

variable {b : Bundle} {rs ms : List Resource}

theorem head?_put (h : (rs.map Resource.name).head? = some n) :
    ((put r rs).map Resource.name).head? = some n := by
  cases rs with
  | nil => cases h
  | cons s rs =>
    rw [put]
    split
    · simpa [*] using h
    · exact h

theorem head?_foldl_put (h : (rs.map Resource.name).head? = some n) :
    ((ms.foldl (fun rs r => put r rs) rs).map Resource.name).head? = some n := by
  induction ms generalizing rs with
  | nil => exact h
  | cons r ms ih => exact ih (head?_put h)

/-- The entry is the first of the resources' names. -/
def IsFirst (b : Bundle) : Prop := (b.resources.map Resource.name).head? = some b.entry

theorem isFirst_of_ofRoot (hc : c.IsSound) (h : (ofRoot w label root c).1 = .ok b) : b.IsFirst := by
  have hhead := head?_of_ofRoot hc h
  obtain ⟨members, book, -, -, rfl⟩ := (ofRoot_cases w label root c).2 b h
  rw [IsFirst, List.head?_map, hhead]
  rfl

theorem IsFirst.refresh (h : b.IsFirst) (w : World) (c : Chain) : (b.refresh w c).1.IsFirst := by
  obtain ⟨-, ⟨-, hb⟩ | ⟨changed, book, -, -, -, hb⟩⟩ := refresh_cases w b c <;> rw [hb]
  · exact h
  · exact head?_foldl_put h

end Bundle

/-! ## What holds of loaders and templates in use -/

/-- A property holds of a resource, in view of the loader's settings that it comes from. -/
def Trait.Of (R : Trait) (settings : List LoaderSettings) (r : Resource) : Prop :=
  ∃ s ∈ settings, r.loader = s.name ∧ R s r

variable {R : Trait} {settings : List LoaderSettings}

/-- **A chain upholds a property** — its loaders have the settings, its tables are sound, and the
property holds of every copy. -/
structure Chain.Upholds (R : Trait) (settings : List LoaderSettings) (c : Chain) : Prop where
  settings_eq : c.map Loader.settings = settings
  sound : c.IsSound
  keeps : Chain.Keeps R c

namespace Chain.Upholds

/-- New loaders uphold any property: they keep nothing. -/
theorem start (R : Trait) (settings : List LoaderSettings) :
    Chain.Upholds R settings (settings.map fun settings => { settings }) where
  settings_eq := by
    rw [List.map_map]
    exact List.map_id _
  sound := (Chain.reachable_start settings).isSound
  keeps l hl n y hy := by
    obtain ⟨s, -, rfl⟩ := List.mem_map.1 hl
    cases hy

theorem of_iff (h : c.Upholds R settings) : R.Of settings r ↔ Chain.Has R c r := by
  rw [← h.settings_eq]
  exact Iff.rfl

theorem nodup (h : c.Upholds R settings) (hnames : (settings.map LoaderSettings.name).Nodup) :
    c.names.Nodup := by
  rwa [Chain.names_eq, h.settings_eq]

theorem find (hR : ∀ w, R.IsRegular w) (h : c.Upholds R settings) (w : World) (n : String) :
    (c.find w n).2.Upholds R settings where
  settings_eq := (Chain.settings_find w n c).trans h.settings_eq
  sound := h.sound.find w n
  keeps := h.keeps.find (hR w) n

theorem evict (h : c.Upholds R settings) (n : String) : (c.evict n).Upholds R settings where
  settings_eq := by
    rw [← h.settings_eq, Chain.evict, List.map_map]
    rfl
  sound _ hm := by
    obtain ⟨l, hl, rfl⟩ := List.mem_map.1 hm
    exact (h.sound l hl).evict n
  keeps _ hm := by
    obtain ⟨l, hl, rfl⟩ := List.mem_map.1 hm
    exact (h.keeps l hl).evict n

/-- **To look for what has changed keeps what is upheld**, and what is brought has the property. -/
theorem collectChanges (hR : ∀ w, R.IsRegular w) (hnames : (settings.map LoaderSettings.name).Nodup)
    (h : c.Upholds R settings) {rs : List Resource} (hrs : ∀ r ∈ rs, r.IsGiven ∨ R.Of settings r)
    (w : World) : (c.collectChanges w rs).2.Upholds R settings ∧
      ∀ members, (c.collectChanges w rs).1 = .ok members → ∀ r ∈ members, R.Of settings r := by
  obtain ⟨hkeeps, hhas⟩ := h.keeps.collectChanges (hR w) h.sound (h.nodup hnames)
    fun r hr => (hrs r hr).imp id h.of_iff.1
  exact ⟨⟨(Chain.settings_collectChanges h.sound w rs).trans h.settings_eq,
    h.sound.collectChanges w rs, hkeeps⟩, fun members hmembers r hr =>
      h.of_iff.2 (hhas members hmembers r hr)⟩

theorem isSteady (hR : ∀ w, R.IsRegular w) : Compiler.IsSteady (Chain.Upholds R settings) where
  sound h := h.sound
  find w n h := h.find hR w n
  evict n h := h.evict n

/-- One loader may be left in another state. -/
theorem replace {front back : Chain} {l l' : Loader} (h : (front ++ l :: back).Upholds R settings)
    (hl : l'.settings = l.settings) (hs : l'.IsSound) (hk : l'.Keeps R) :
    Chain.Upholds R settings (front ++ l' :: back) where
  settings_eq := by
    rw [← h.settings_eq, List.map_append, List.map_append, List.map_cons, List.map_cons, hl]
  sound m hm := by
    rcases List.mem_append.1 hm with hm | hm
    · exact h.sound m (List.mem_append_left _ hm)
    · rcases List.mem_cons.1 hm with rfl | hm
      · exact hs
      · exact h.sound m (List.mem_append_right _ (List.mem_cons_of_mem l hm))
  keeps m hm := by
    rcases List.mem_append.1 hm with hm | hm
    · exact h.keeps m (List.mem_append_left _ hm)
    · rcases List.mem_cons.1 hm with rfl | hm
      · exact hk
      · exact h.keeps m (List.mem_append_right _ (List.mem_cons_of_mem l hm))

end Chain.Upholds

/-- A resource is the text in memory that a template was made of. -/
def Template.IsInlineRoot (t : Template) (r : Resource) : Prop :=
  t.origin = .inline ∧ ∃ body, t.bundle.entry = traceId body ∧
    r = Compiler.inlineResource (traceId body) body

/-- **A template upholds a property** — its bundle is closed, with the entry first, and the property
holds of every resource but a text in memory that it was made of. -/
structure Template.Upholds (R : Trait) (settings : List LoaderSettings) (t : Template) : Prop where
  closed : t.bundle.IsClosed
  first : t.bundle.IsFirst
  members : ∀ r ∈ t.bundle.resources, t.IsInlineRoot r ∨ R.Of settings r

/-- **Every template that is made upholds what its loaders uphold.** -/
theorem Compiler.IsMade.upholds (hR : ∀ w, R.IsRegular w) (hk : k.chain.Upholds R settings)
    (h : IsMade w k t k' w') : t.Upholds R settings := by
  obtain ⟨label, root, c, hroots, hbundle⟩ := h.exists_roots
  have hok : (Bundle.ofRoot w' label root c).1 = .ok t.bundle := congrArg Prod.fst hbundle
  have hc : c.Upholds R settings ∧ (t.IsInlineRoot root ∨ R.Of settings root) := by
    cases hroots with
    | @inMemory body horigin =>
      obtain ⟨members, book, -, -, hb⟩ := (Bundle.ofRoot_cases w' label _ _).2 _ hok
      exact ⟨hk, .inl ⟨horigin, body, congrArg Bundle.entry hb, rfl⟩⟩
    | found hans =>
      exact ⟨hk.find hR w' _, .inr (hk.of_iff.2 (hk.keeps.has_of_answer (hR w') hk.sound hans))⟩
  obtain ⟨hc, hroot⟩ := hc
  refine ⟨h.isClosed hk.sound, Bundle.isFirst_of_ofRoot hc.sound hok, fun r hr => ?_⟩
  obtain ⟨-, hmembers⟩ := Bundle.has_of_ofRoot (hR w') hc.sound hc.keeps hok
  rcases hmembers r hr with rfl | hhas
  · exact hroot
  · exact .inr (hc.of_iff.2 (hhas.congr (Bundle.settings_ofRoot hc.sound w' label root).symm))

/-- **A refresh keeps what a template and its loaders uphold.** -/
theorem Template.Upholds.refresh (hR : ∀ w, R.IsRegular w)
    (hnames : (settings.map LoaderSettings.name).Nodup) (ht : t.Upholds R settings)
    (hk : k.chain.Upholds R settings) (w : World) :
    (k.refresh w t).1.Upholds R settings ∧ (k.refresh w t).2.chain.Upholds R settings := by
  have hin : ∀ r ∈ t.bundle.resources, r.IsGiven ∨ R.Of settings r := fun r hr =>
    (ht.members r hr).imp (fun ⟨_, _, _, hroot⟩ => hroot ▸ rfl) id
  obtain ⟨hk', -⟩ := hk.collectChanges hR hnames hin w
  rw [← (Bundle.refresh_cases w t.bundle k.chain).1] at hk'
  obtain ⟨-, hmembers⟩ := Bundle.has_refresh (b := t.bundle) (hR w) hk.sound (hk.nodup hnames)
    hk.keeps fun r hr => (hin r hr).imp id hk.of_iff.1
  refine ⟨⟨ht.closed.refresh hk.sound, ht.first.refresh w k.chain, fun r hr => ?_⟩, hk'⟩
  rcases hmembers r hr with hold | hnew
  · refine (ht.members r hold).imp ?_ id
    rintro ⟨horigin, body, hentry, hr⟩
    exact ⟨horigin, body, (Bundle.entry_refresh w t.bundle k.chain).trans hentry, hr⟩
  · exact .inr (hk'.of_iff.2 hnew)

/-! ## A compiler in use -/

/-- **What a host has in hand** — a compiler, the templates that it has made, as they are now, and
resources that its loaders have handed out. -/
structure Usage where
  compiler : Compiler
  templates : List Template := []
  handed : List Resource := []

namespace Usage

/-- The loaders. -/
abbrev chain (u : Usage) : Chain := u.compiler.chain

/-- The loaders have been asked something, and have handed out resources. -/
def asked (u : Usage) (c : Chain) (rs : List Resource) : Usage :=
  { u with compiler := { u.compiler with chain := c }, handed := rs ++ u.handed }

/-- The compiler has been asked for templates. -/
def made (u : Usage) (k : Compiler) (ts : List Template) : Usage :=
  { u with compiler := k, templates := ts ++ u.templates }

/-- **One step of a host**, in whatever world.  A single loader is asked for a name, for a later copy of
a resource of its own that was handed out, or to forget a name; all of them are asked for a name, for
all that a text refers to, for what has changed of resources that were handed out or given in memory, or
to forget a name; a text or a stored template is compiled; a template is refreshed; files are deleted. -/
inductive Step : Usage → Usage → Prop
  | load {u : Usage} {front back : Chain} {l : Loader} {rs : List Resource} (w : World) (n : String) :
      u.chain = front ++ l :: back → (∀ r ∈ rs, (l.load w n).1 = .ok (some r)) →
      Step u (u.asked (front ++ (l.load w n).2 :: back) rs)
  | reload {u : Usage} {front back : Chain} {l : Loader} {r : Resource} {rs : List Resource}
      (w : World) : u.chain = front ++ l :: back → r ∈ u.handed → r.loader = l.name →
      (∀ m ∈ rs, (l.refresh w r).1 = .ok (some m)) →
      Step u (u.asked (front ++ (l.refresh w r).2 :: back) rs)
  | forget {u : Usage} {front back : Chain} {l : Loader} (n : String) :
      u.chain = front ++ l :: back → Step u (u.asked (front ++ l.evict n :: back) [])
  | resolve {u : Usage} {rs : List Resource} (w : World) (n : String) :
      (∀ r ∈ rs, (u.chain.resolve w n).1 = .ok r) →
      Step u (u.asked (u.chain.resolve w n).2 rs)
  | collect {u : Usage} {rs : List Resource} (w : World) (root : Resource) :
      (∀ r ∈ rs, r ≠ root ∧ ∃ members, (u.chain.collect w root).1 = .ok members ∧ r ∈ members) →
      Step u (u.asked (u.chain.collect w root).2 rs)
  | collectChanges {u : Usage} {loaded rs : List Resource} (w : World) :
      (∀ r ∈ loaded, r.IsGiven ∨ r ∈ u.handed) →
      (∀ r ∈ rs, ∃ members, (u.chain.collectChanges w loaded).1 = .ok members ∧ r ∈ members) →
      Step u (u.asked (u.chain.collectChanges w loaded).2 rs)
  | evict {u : Usage} (n : String) : Step u (u.asked (u.chain.evict n) [])
  | compile {u : Usage} {ts : List Template} (w : World) (name : Option String) (source : String)
      (options : Table String) :
      (∀ t ∈ ts, (u.compiler.compile w name source options).1 = .ok t) →
      Step u (u.made (u.compiler.compile w name source options).2.1 ts)
  | compileStored {u : Usage} {ts : List Template} (w : World) (name : String)
      (options : Table String) : (∀ t ∈ ts, (u.compiler.compileStored w name options).1 = .ok t) →
      Step u (u.made (u.compiler.compileStored w name options).2 ts)
  | refresh {u : Usage} {front back : List Template} {t : Template} (w : World) :
      u.templates = front ++ t :: back →
      Step u { u with compiler := (u.compiler.refresh w t).2,
                      templates := front ++ (u.compiler.refresh w t).1 :: back }
  | remove {u : Usage} (w : World) (t : Template) :
      Step u { u with compiler := (u.compiler.remove w t).1 }
  | removeAll {u : Usage} (w : World) :
      Step u { u with compiler := (u.compiler.removeAll w).2.1 }

/-- Any number of steps. -/
inductive Run : Usage → Usage → Prop
  | start {u : Usage} : Run u u
  | step {u u' u'' : Usage} : Run u u' → Step u' u'' → Run u u''

/-- **What every step keeps** — the loaders uphold a property, it holds of all that was handed out, and
the templates uphold it. -/
structure IsKept (R : Trait) (settings : List LoaderSettings) (u : Usage) : Prop where
  chain : u.chain.Upholds R settings
  handed : ∀ r ∈ u.handed, R.Of settings r
  templates : ∀ t ∈ u.templates, t.Upholds R settings

variable {u u' : Usage}

/-- A host begins with nothing in hand but a compiler. -/
theorem isKept_start (hk : k.chain.Upholds R settings) : IsKept R settings { compiler := k } where
  chain := hk
  handed r hr := by cases hr
  templates t ht := by cases ht

theorem IsKept.asked {rs : List Resource} (h : u.IsKept R settings) (hc : c.Upholds R settings)
    (hrs : ∀ r ∈ rs, R.Of settings r) : (u.asked c rs).IsKept R settings where
  chain := hc
  handed r hr := (List.mem_append.1 hr).elim (hrs r) (h.handed r)
  templates := h.templates

theorem IsKept.made {ts : List Template} (h : u.IsKept R settings) (hk : k.chain.Upholds R settings)
    (hts : ∀ t ∈ ts, t.Upholds R settings) : (u.made k ts).IsKept R settings where
  chain := hk
  handed := h.handed
  templates t ht := (List.mem_append.1 ht).elim (hts t) (h.templates t)

/-- A regular property of copies that are upheld holds of what a loader of the chain has. -/
theorem IsKept.of_loader (h : u.IsKept R settings) {front back : Chain} {l : Loader}
    (hchain : u.chain = front ++ l :: back) (hname : r.loader = l.name) (hr : R l.settings r) :
    R.Of settings r := by
  refine h.chain.of_iff.2 ⟨l.settings, List.mem_map_of_mem ?_, hname, hr⟩
  rw [hchain]
  exact List.mem_append_right _ List.mem_cons_self

/-- **One loader was asked for a name.** -/
theorem IsKept.load (hR : ∀ w, R.IsRegular w) (h : u.IsKept R settings) {front back : Chain}
    {l : Loader} {rs : List Resource} (w : World) (n : String) (hchain : u.chain = front ++ l :: back)
    (hrs : ∀ r ∈ rs, (l.load w n).1 = .ok (some r)) :
    (u.asked (front ++ (l.load w n).2 :: back) rs).IsKept R settings := by
  have hc := hchain ▸ h.chain
  have hl : l ∈ front ++ l :: back := List.mem_append_right _ List.mem_cons_self
  obtain ⟨hkeeps, hfound⟩ := (hc.keeps l hl).load (hR w) (n := n)
  refine h.asked (hc.replace (l.settings_eq_of_load w n) ((hc.sound l hl).load w n) hkeeps)
    fun r hr => ?_
  exact h.of_loader hchain ((hc.sound l hl).eq_of_load (hrs r hr)).2 (hfound r (hrs r hr))

/-- **One loader was asked for a later copy** of a resource of its own. -/
theorem IsKept.reload (hR : ∀ w, R.IsRegular w) (hnames : (settings.map LoaderSettings.name).Nodup)
    (h : u.IsKept R settings) {front back : Chain} {l : Loader} {rs : List Resource} (w : World)
    (hchain : u.chain = front ++ l :: back) (hr : r ∈ u.handed) (hname : r.loader = l.name)
    (hrs : ∀ m ∈ rs, (l.refresh w r).1 = .ok (some m)) :
    (u.asked (front ++ (l.refresh w r).2 :: back) rs).IsKept R settings := by
  have hc := hchain ▸ h.chain
  have hl : l ∈ front ++ l :: back := List.mem_append_right _ List.mem_cons_self
  have hown : R l.settings r := (hc.of_iff.1 (h.handed r hr)).of_mem (hc.nodup hnames) hl hname
  obtain ⟨hkeeps, hfound⟩ := (hc.keeps l hl).refresh (hc.sound l hl) (hR w) (.inr hown)
  refine h.asked (hc.replace (l.settings_refresh w r) ((hc.sound l hl).refresh w r) hkeeps)
    fun m hm => ?_
  obtain ⟨hloader, hm⟩ := hfound m (hrs m hm)
  exact h.of_loader hchain hloader hm

/-- **A template was refreshed.** -/
theorem IsKept.refresh (hR : ∀ w, R.IsRegular w) (hnames : (settings.map LoaderSettings.name).Nodup)
    (h : u.IsKept R settings) {front back : List Template} (w : World)
    (htemplates : u.templates = front ++ t :: back) :
    IsKept R settings { u with compiler := (u.compiler.refresh w t).2,
                               templates := front ++ (u.compiler.refresh w t).1 :: back } := by
  have hin : ∀ {t'}, t' ∈ front ++ t :: back → t'.Upholds R settings := fun ht' =>
    h.templates _ (htemplates ▸ ht')
  obtain ⟨ht, hk⟩ := (hin (List.mem_append_right _ List.mem_cons_self)).refresh hR hnames h.chain w
  refine ⟨hk, h.handed, fun t' ht' => ?_⟩
  rcases List.mem_append.1 ht' with ht' | ht'
  · exact hin (List.mem_append_left _ ht')
  · rcases List.mem_cons.1 ht' with rfl | ht'
    · exact ht
    · exact hin (List.mem_append_right _ (List.mem_cons_of_mem t ht'))

/-- **Every step keeps all that is kept**, if the property is regular and the loaders have different
names. -/
theorem IsKept.step (hR : ∀ w, R.IsRegular w) (hnames : (settings.map LoaderSettings.name).Nodup)
    (h : u.IsKept R settings) (hstep : Step u u') : u'.IsKept R settings := by
  have hsteady : Compiler.IsSteady (Chain.Upholds R settings) := Chain.Upholds.isSteady hR
  have hsound := h.chain.sound
  cases hstep with
  | load w n hchain hrs => exact h.load hR w n hchain hrs
  | reload w hchain hr hname hrs => exact h.reload hR hnames w hchain hr hname hrs
  | @forget front back l n hchain =>
    have hc := hchain ▸ h.chain
    have hl : l ∈ front ++ l :: back := List.mem_append_right _ List.mem_cons_self
    exact h.asked (hc.replace rfl ((hc.sound l hl).evict n) ((hc.keeps l hl).evict n)) (by simp)
  | @resolve rs w n hrs =>
    refine h.asked (hsteady.resolve h.chain w n) fun r hr => h.chain.of_iff.2 ?_
    exact h.chain.keeps.has_of_answer (hR w) hsound
      (Chain.answer_of_resolve (Prod.ext (hrs r hr) rfl)).1
  | @collect rs w root hrs =>
    refine h.asked (hsteady.collect h.chain w root) fun r hr => h.chain.of_iff.2 ?_
    obtain ⟨hne, members, hmembers, hin⟩ := hrs r hr
    obtain ⟨-, hhas⟩ := h.chain.keeps.collectFrom (hR w) hsound [root.name] [root]
    exact (hhas members hmembers r hin).resolve_left (by simpa using hne)
  | @collectChanges loaded rs w hloaded hrs =>
    obtain ⟨hc, hbrought⟩ := h.chain.collectChanges hR hnames
      (fun r hr => (hloaded r hr).imp id (h.handed r)) w
    refine h.asked hc fun r hr => ?_
    obtain ⟨members, hmembers, hin⟩ := hrs r hr
    exact hbrought members hmembers r hin
  | evict n => exact h.asked (h.chain.evict n) (by simp)
  | compile w name source options hts =>
    refine h.made (Compiler.chain_compile hsteady h.chain w name source options) fun t ht => ?_
    exact Compiler.IsMade.upholds hR h.chain (.compiled (Prod.ext (hts t ht) rfl))
  | compileStored w name options hts =>
    refine h.made (Compiler.chain_compileStored hsteady h.chain w name options) fun t ht => ?_
    exact Compiler.IsMade.upholds hR h.chain (.stored (Prod.ext (hts t ht) rfl))
  | refresh w htemplates => exact h.refresh hR hnames w htemplates
  | remove w t => exact ⟨Compiler.chain_remove hsteady h.chain w t, h.handed, h.templates⟩
  | removeAll w =>
    exact ⟨Compiler.chain_removePaths hsteady _ w h.chain, h.handed, h.templates⟩

/-- **Every run keeps all that is kept.** -/
theorem IsKept.run (hR : ∀ w, R.IsRegular w) (hnames : (settings.map LoaderSettings.name).Nodup)
    (h : u.IsKept R settings) (hrun : Run u u') : u'.IsKept R settings := by
  induction hrun with
  | start => exact h
  | step _ hstep ih => exact ih.step hR hnames hstep

end Usage

end QueryPress
