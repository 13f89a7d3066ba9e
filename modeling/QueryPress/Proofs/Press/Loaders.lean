import Mathlib.Data.List.Forall2
import QueryPress.Proofs.Disk.Resolving
import QueryPress.Proofs.Press.Prompt

/-!
# Proofs/Press/Loaders — the chain of a press is what the settings declare

Settings are looked through twice: every declaration of a loader is filled in, up to the first with a fault
of its own (`resolve_eq_error`), and then the names are compared, those of the two loaders that every press
has included (`repeated?_eq_some`).  So what is wrong is told of the first declaration with a fault, and
only where there is none of the first name that occurs again (`Settings.chain_eq_error`).  Where nothing is
wrong, each declaration has its loader, which does what was asked for, and where nothing was asked for what
loaders do.
-/

namespace QueryPress

/-! ## Doing the same with each of a list -/

section

variable {ε α β : Type} {f : α → Except ε β} {e : ε}

/-- What has been made of a list, if nothing has failed, was made of its elements one by one. -/
theorem forall₂_of_mapM : ∀ {l : List α} {m : List β}, l.mapM f = .ok m →
    List.Forall₂ (fun a b => f a = .ok b) l m
  | [], m, h => by
    obtain rfl : [] = m := Except.ok.inj h
    exact .nil
  | a :: l, m, h => by
    rw [List.mapM_cons] at h
    obtain ⟨b, hb, h⟩ := bind_eq_ok.1 h
    obtain ⟨bs, hbs, h⟩ := bind_eq_ok.1 h
    obtain rfl : b :: bs = m := Except.ok.inj h
    exact .cons hb (forall₂_of_mapM hbs)

/-- **What fails on a list has failed on its first element that it fails on.** -/
theorem mapM_eq_error : ∀ {l : List α}, l.mapM f = .error e ↔
    ∃ before a after, l = before ++ a :: after ∧ (∀ a' ∈ before, ∃ b, f a' = .ok b) ∧ f a = .error e
  | [] => ⟨nofun, fun ⟨before, a, after, h, _⟩ => by simp at h⟩
  | a :: l => by
    rw [List.mapM_cons, bind_eq_error]
    constructor
    · rintro (ha | ⟨b, hb, hl⟩)
      · exact ⟨[], a, l, rfl, nofun, ha⟩
      · obtain hl | ⟨bs, -, hbs⟩ := bind_eq_error.1 hl
        · obtain ⟨before, a', after, rfl, hbefore, ha'⟩ := mapM_eq_error.1 hl
          exact ⟨a :: before, a', after, rfl, List.forall_mem_cons.2 ⟨⟨b, hb⟩, hbefore⟩, ha'⟩
        · cases hbs
    · rintro ⟨before, a', after, hsplit, hbefore, ha'⟩
      cases before with
      | nil =>
        obtain ⟨rfl, rfl⟩ := List.cons.inj hsplit
        exact .inl ha'
      | cons a₀ before =>
        obtain ⟨rfl, rfl⟩ := List.cons.inj hsplit
        obtain ⟨⟨b, hb⟩, hbefore⟩ := List.forall_mem_cons.1 hbefore
        refine .inr ⟨b, hb, bind_eq_error.2 (.inl ?_)⟩
        exact mapM_eq_error.2 ⟨before, a', after, rfl, hbefore, ha'⟩

end

/-! ## How often to look again -/

/-- **What a number of seconds asks for** — zero, never to look again; a number above zero, to look when so
many seconds have passed; and one below zero, to look every time. -/
inductive CheckInterval.IsAskedFor : Int → CheckInterval → Prop
  | never : IsAskedFor 0 .never
  | every {n : Nat} : 0 < n → IsAskedFor n (.every n)
  | always {n : Int} : n < 0 → IsAskedFor n .always

theorem CheckInterval.ofSeconds_eq_iff {n : Int} {i : CheckInterval} : ofSeconds n = i ↔ IsAskedFor n i := by
  constructor
  · rintro rfl
    rcases Int.lt_trichotomy n 0 with hn | rfl | hn
    · exact ofSeconds_of_neg hn ▸ .always hn
    · exact .never
    · obtain ⟨m, rfl⟩ := Int.eq_ofNat_of_zero_le (Int.le_of_lt hn)
      rw [ofSeconds, if_neg (by omega), if_pos hn, Int.toNat_natCast]
      exact .every (by omega)
  · intro h
    cases h with
    | never => rfl
    | every hn => rw [ofSeconds, if_neg (by omega), if_pos (by omega), Int.toNat_natCast]
    | always hn => exact ofSeconds_of_neg hn

/-! ## One declaration -/

namespace LoaderDeclaration

variable {home : Option Path} {base : Path} {n : Int} {d : LoaderDeclaration} {e : ConfigError}
  {s : LoaderSettings} {l : Loader}

/-- **A declaration is valid** — its name is not blank, and it asks for files or for no kind of loader. -/
structure IsValid (d : LoaderDeclaration) : Prop where
  named : ∃ c ∈ d.name.toList, Text.isSpace c = false
  kind : d.kind = none ∨ d.kind = some "file"

/-- **What is wrong with a declaration** — that its name is blank, and else that there are no loaders of its
kind. -/
inductive HasFault (d : LoaderDeclaration) : ConfigError → Prop
  | unnamed : (∀ c ∈ d.name.toList, Text.isSpace c = true) → HasFault d .unnamedLoader
  | unsupported {name kind : String} : Text.IsTrimmed d.name name → name ≠ "" → d.kind = some kind →
      kind ≠ "file" → HasFault d (.unsupportedKind name kind)

/-- **A loader does what was declared** — what the declaration says, and what loaders do where it says
nothing: look into the directory of their name, keep copies, and look again after the common interval. -/
structure IsCarriedOut (home : Option Path) (base : Path) (n : Int) (d : LoaderDeclaration)
    (s : LoaderSettings) : Prop where
  name : Text.IsTrimmed d.name s.name
  paths : d.paths ≠ [] → List.Forall₂ (Path.StandsFor home base) d.paths s.paths
  no_paths : d.paths = [] → ∃ path, s.paths = [path] ∧ base.SeenFrom s.name path
  cache : ∀ b, d.cache = some b → s.cache = b
  no_cache : d.cache = none → s.cache = true
  interval : ∀ m, d.checkInterval = some m → s.checkInterval.IsAskedFor m
  no_interval : d.checkInterval = none → s.checkInterval.IsAskedFor n

/-- A declaration is valid, or something is wrong with it. -/
theorem isValid_or_hasFault (d : LoaderDeclaration) : d.IsValid ∨ ∃ e, d.HasFault e := by
  by_cases hblank : ∀ c ∈ d.name.toList, Text.isSpace c = true
  · exact .inr ⟨_, .unnamed hblank⟩
  · have hnamed : ∃ c ∈ d.name.toList, Text.isSpace c = false := by simpa using hblank
    cases hkind : d.kind with
    | none => exact .inl ⟨hnamed, .inl hkind⟩
    | some kind =>
      by_cases hfile : kind = "file"
      · exact .inl ⟨hnamed, .inr (hfile ▸ hkind)⟩
      · have hname := Text.trimmed_ne_empty hnamed
        exact .inr ⟨_, .unsupported (Text.isTrimmed_trimmed d.name) hname hkind hfile⟩

/-- **A valid declaration is filled in.** -/
theorem IsValid.resolve (h : d.IsValid) (home : Option Path) (base : Path) (n : Int) :
    ∃ s, d.resolve home base n = .ok s ∧ d.IsCarriedOut home base n s := by
  have hkind : d.kind.getD fileKind = fileKind := by
    obtain hnone | hfile := h.kind
    · rw [hnone, Option.getD_none]
    · rw [hfile, Option.getD_some, fileKind]
  have hfilled : d.resolve home base n = .ok {
      name := Text.trimmed d.name
      paths := if d.paths.isEmpty then [base.join (Text.trimmed d.name)]
        else d.paths.map (Path.resolve home base)
      cache := d.cache.getD true
      checkInterval := .ofSeconds (d.checkInterval.getD n) } := by
    simp [LoaderDeclaration.resolve, Text.trimmed_ne_empty h.named, hkind]
  refine ⟨_, hfilled, ?_⟩
  exact {
    name := Text.isTrimmed_trimmed d.name
    paths := fun hpaths => by
      dsimp only
      rw [if_neg (by simpa using hpaths), List.forall₂_map_right_iff]
      exact List.forall₂_same.2 fun p _ => Path.resolve_eq_iff.1 rfl
    no_paths := fun hpaths => ⟨_, if_pos (by simpa using hpaths), Path.join_eq_iff.1 rfl⟩
    cache := fun b hb => by rw [hb, Option.getD_some]
    no_cache := fun hnone => by rw [hnone, Option.getD_none]
    interval := fun m hm => CheckInterval.ofSeconds_eq_iff.1 (by rw [hm, Option.getD_some])
    no_interval := fun hnone => CheckInterval.ofSeconds_eq_iff.1 (by rw [hnone, Option.getD_none]) }

theorem HasFault.resolve (h : d.HasFault e) (home : Option Path) (base : Path) (n : Int) :
    d.resolve home base n = .error e := by
  cases h with
  | unnamed hblank => simp [LoaderDeclaration.resolve, Text.trimmed_eq_empty_iff.2 hblank]
  | unsupported htrimmed hname hkind hfile =>
    obtain rfl := Text.trimmed_eq_iff.2 htrimmed
    simp [LoaderDeclaration.resolve, hname, hkind, fileKind, hfile]

theorem resolve_eq_ok (h : d.resolve home base n = .ok s) :
    d.IsValid ∧ d.IsCarriedOut home base n s := by
  obtain hvalid | ⟨e, he⟩ := d.isValid_or_hasFault
  · obtain ⟨s', hs, hcarried⟩ := hvalid.resolve home base n
    obtain rfl := Except.ok.inj (hs.symm.trans h)
    exact ⟨hvalid, hcarried⟩
  · cases (he.resolve home base n).symm.trans h

/-- **A declaration is not filled in** if and only if something is wrong with it, which is then told. -/
theorem resolve_eq_error : d.resolve home base n = .error e ↔ d.HasFault e := by
  refine ⟨fun h => ?_, fun h => h.resolve home base n⟩
  obtain hvalid | ⟨e', he⟩ := d.isValid_or_hasFault
  · obtain ⟨s, hs, -⟩ := hvalid.resolve home base n
    cases hs.symm.trans h
  · obtain rfl := Except.error.inj ((he.resolve home base n).symm.trans h)
    exact he

theorem exists_resolve_iff : (∃ s, d.resolve home base n = .ok s) ↔ d.IsValid :=
  ⟨fun ⟨_, h⟩ => (resolve_eq_ok h).1, fun h => (h.resolve home base n).imp fun _ => And.left⟩

end LoaderDeclaration

/-! ## Names that occur again -/

/-- **The first name that has occurred before** has those in front of it all different, and new. -/
theorem Chain.repeated?_eq_some {n : String} : ∀ {ns seen : List String}, repeated? seen ns = some n ↔
    ∃ before after, ns = before ++ n :: after ∧ before.Nodup ∧ (∀ m ∈ before, m ∉ seen) ∧
      (n ∈ before ∨ n ∈ seen)
  | [], _ => by
    refine iff_of_false (fun h => ?_) ?_
    · cases h
    · rintro ⟨before, after, h, -⟩
      simp at h
  | m :: ns, seen => by
    rw [repeated?]
    split
    · rename_i hm
      constructor
      · rintro h
        obtain rfl := Option.some.inj h
        exact ⟨[], ns, rfl, .nil, fun _ hin => absurd hin List.not_mem_nil, .inr hm⟩
      · rintro ⟨before, after, hsplit, -, hnew, -⟩
        cases before with
        | nil => rw [(List.cons.inj hsplit).1]
        | cons k before =>
          obtain ⟨rfl, rfl⟩ := List.cons.inj hsplit
          exact absurd hm (hnew m List.mem_cons_self)
    · rename_i hm
      rw [Chain.repeated?_eq_some]
      constructor
      · rintro ⟨before, after, rfl, hnodup, hnew, hn⟩
        refine ⟨m :: before, after, rfl, List.nodup_cons.2 ⟨fun hin => ?_, hnodup⟩,
          List.forall_mem_cons.2 ⟨hm, fun k hk hseen => hnew k hk (List.mem_cons_of_mem m hseen)⟩, ?_⟩
        · exact hnew m hin List.mem_cons_self
        · rcases hn with hn | hn
          · exact .inl (List.mem_cons_of_mem m hn)
          · rcases List.mem_cons.1 hn with rfl | hn
            · exact .inl List.mem_cons_self
            · exact .inr hn
      · rintro ⟨before, after, hsplit, hnodup, hnew, hn⟩
        cases before with
        | nil =>
          obtain ⟨rfl, rfl⟩ := List.cons.inj hsplit
          exact absurd (hn.resolve_left List.not_mem_nil) hm
        | cons k before =>
          obtain ⟨rfl, rfl⟩ := List.cons.inj hsplit
          obtain ⟨hout, hnodup⟩ := List.nodup_cons.1 hnodup
          refine ⟨before, after, rfl, hnodup, fun k hk hseen => ?_, ?_⟩
          · rcases List.mem_cons.1 hseen with rfl | hseen
            · exact hout hk
            · exact hnew k (List.mem_cons_of_mem m hk) hseen
          · rcases hn with hn | hn
            · rcases List.mem_cons.1 hn with rfl | hn
              · exact .inr List.mem_cons_self
              · exact .inl hn
            · exact .inr (List.mem_cons_of_mem m hn)

/-! ## The chain of a press -/

section

open LoaderDeclaration (IsCarriedOut)

variable {w : World} {home : Option Path} {s : Settings} {directory : Path} {p : Press} {e : ConfigError}
  {settings : List LoaderSettings}

/-- **The loaders that are declared are to have some names** — those of the declarations, without the white
space around them. -/
def Settings.Names (s : Settings) (names : List String) : Prop :=
  List.Forall₂ (fun d n => Text.IsTrimmed d.name n) s.loaders names

/-- The names that the loaders are to have, in the order in which they are asked. -/
def Settings.loaderNames (s : Settings) : List String :=
  "ephemeral" :: "scripts" :: s.loaders.map fun d => Text.trimmed d.name

/-- **What is wrong with the loaders that are declared** — the fault of the first declaration that has one,
and if none has, the first name that occurs again. -/
inductive Settings.HasFault (s : Settings) : ConfigError → Prop
  | declaration {before after : List LoaderDeclaration} {d : LoaderDeclaration} {e : ConfigError} :
      s.loaders = before ++ d :: after → (∀ d' ∈ before, d'.IsValid) → d.HasFault e → HasFault s e
  | repeated {names before after : List String} {n : String} :
      (∀ d ∈ s.loaders, d.IsValid) → s.Names names →
      "ephemeral" :: "scripts" :: names = before ++ n :: after → before.Nodup → n ∈ before →
      HasFault s (.duplicateLoader n)

/-- **The loader of stored templates does what the settings say** — it looks into the directory that they
name for them, and else into `scripts` beside the settings; it keeps copies, and looks again after the common
interval. -/
structure Settings.HasScripts (home : Option Path) (s : Settings) (l : LoaderSettings) : Prop where
  name : l.name = "scripts"
  path : ∀ p, s.scriptsDirectory = some p →
    ∃ path, l.paths = [path] ∧ Path.StandsFor home s.configDirectory p path
  no_path : s.scriptsDirectory = none → ∃ path, l.paths = [path] ∧ s.configDirectory.SeenFrom "scripts" path
  cache : l.cache = true
  interval : l.checkInterval.IsAskedFor s.checkInterval

/-- The chain that the settings ask for. -/
def Settings.chain (home : Option Path) (s : Settings) (directory : Path) : Except ConfigError Chain :=
  (s.chainSettings home directory).bind fun ls => Chain.ofLoaders (ls.map fun settings => { settings })

theorem Settings.chainSettings_eq_error : s.chainSettings home directory = .error e ↔
    ∃ before d after, s.loaders = before ++ d :: after ∧ (∀ d' ∈ before, d'.IsValid) ∧ d.HasFault e := by
  rw [chainSettings, bind_eq_error, mapM_eq_error]
  simp only [LoaderDeclaration.exists_resolve_iff, LoaderDeclaration.resolve_eq_error, pure, Except.pure,
    reduceCtorEq, and_false, exists_false, or_false]

/-- **Settings of which every declaration is valid are filled in** — for the two loaders that every press
has, and for each declaration in order. -/
theorem Settings.chainSettings_eq_ok (h : s.chainSettings home directory = .ok settings) :
    (∀ d ∈ s.loaders, d.IsValid) ∧ ∃ scripts declared,
      settings = { name := "ephemeral", paths := [directory], cache := true, checkInterval := .never }
        :: scripts :: declared ∧
      s.HasScripts home scripts ∧
      List.Forall₂ (IsCarriedOut home s.configDirectory s.checkInterval) s.loaders declared := by
  obtain ⟨declared, hdeclared, h⟩ := bind_eq_ok.1 h
  have hall := (forall₂_of_mapM hdeclared).imp fun _ _ => LoaderDeclaration.resolve_eq_ok
  obtain ⟨hvalid, hcarried⟩ := (List.forall₂_and_left _ _).1 hall
  refine ⟨hvalid, _, declared, (Except.ok.inj h).symm, ?_, hcarried⟩
  exact {
    name := rfl
    path := fun p hp => ⟨_, by rw [scriptsPath, hp], Path.resolve_eq_iff.1 rfl⟩
    no_path := fun hnone => ⟨_, by rw [scriptsPath, hnone], Path.join_eq_iff.1 rfl⟩
    cache := rfl
    interval := CheckInterval.ofSeconds_eq_iff.1 rfl }

theorem Settings.names_iff {names : List String} :
    s.Names names ↔ (s.loaders.map fun d => Text.trimmed d.name) = names := by
  rw [Settings.Names, ← List.forall₂_eq_eq_eq, List.forall₂_map_left_iff]
  simp only [Text.trimmed_eq_iff]

theorem names_of_isCarriedOut {ds : List LoaderDeclaration} {base : Path} {n : Int}
    (h : List.Forall₂ (IsCarriedOut home base n) ds settings) :
    settings.map LoaderSettings.name = ds.map fun d => Text.trimmed d.name := by
  induction h with
  | nil => rfl
  | cons hd _ ih => rw [List.map_cons, List.map_cons, Text.trimmed_eq_iff.2 hd.name, ih]

/-- The names of the loaders that are filled in are those that they are to have. -/
theorem Settings.names_of_chainSettings (h : s.chainSettings home directory = .ok settings) :
    Chain.names (settings.map fun settings => { settings }) = s.loaderNames := by
  obtain ⟨-, scripts, declared, rfl, hscripts, hcarried⟩ := chainSettings_eq_ok h
  rw [loaderNames, ← names_of_isCarriedOut hcarried, ← hscripts.name, Chain.names, List.map_map]
  rfl

theorem Settings.chain_eq_error : s.chain home directory = .error e ↔ s.HasFault e := by
  rw [chain]
  refine bind_eq_error.trans ⟨?_, fun h => ?_⟩
  · rintro (h | ⟨settings, h, hchain⟩)
    · obtain ⟨before, d, after, hsplit, hbefore, hd⟩ := chainSettings_eq_error.1 h
      exact .declaration hsplit hbefore hd
    · rw [Chain.ofLoaders, names_of_chainSettings h] at hchain
      split at hchain
      · rename_i n hn
        obtain rfl := Except.error.inj hchain
        obtain ⟨before, after, hsplit, hnodup, -, hin⟩ := Chain.repeated?_eq_some.1 hn
        exact .repeated (chainSettings_eq_ok h).1 (names_iff.2 rfl) hsplit hnodup
          (hin.resolve_right List.not_mem_nil)
      · cases hchain
  · cases h with
    | declaration hsplit hbefore hd =>
      exact .inl (chainSettings_eq_error.2 ⟨_, _, _, hsplit, hbefore, hd⟩)
    | repeated hvalid hnames hsplit hnodup hin =>
      obtain rfl := names_iff.1 hnames
      rw [← loaderNames] at hsplit
      cases h : s.chainSettings home directory with
      | error e =>
        obtain ⟨before, d, after, hds, -, hd⟩ := chainSettings_eq_error.1 h
        have hd' : d.IsValid := hvalid d (hds ▸ List.mem_append_right _ List.mem_cons_self)
        obtain ⟨_, hs, -⟩ := hd'.resolve home s.configDirectory s.checkInterval
        cases hs.symm.trans (hd.resolve home s.configDirectory s.checkInterval)
      | ok settings =>
        refine .inr ⟨settings, rfl, ?_⟩
        have hrepeated := Chain.repeated?_eq_some.2
          ⟨_, _, hsplit, hnodup, fun m _ => List.not_mem_nil, .inl hin⟩
        rw [Chain.ofLoaders, names_of_chainSettings h, hrepeated]

/-- Settings whose declarations are all valid, with names that all differ, have no fault. -/
theorem Settings.HasFault.not_nodup (h : s.HasFault e) (hvalid : ∀ d ∈ s.loaders, d.IsValid) :
    ¬ s.loaderNames.Nodup := by
  cases h with
  | @declaration before after d _ hds _ hd =>
    have hd' : d.IsValid := hvalid d (hds ▸ List.mem_append_right _ List.mem_cons_self)
    obtain ⟨_, hs, -⟩ := hd'.resolve none "" 0
    cases hs.symm.trans (hd.resolve none "" 0)
  | @repeated names before after n _ hnames hsplit _ hin =>
    obtain rfl := names_iff.1 hnames
    rw [← loaderNames] at hsplit
    intro hnodup
    obtain ⟨-, -, hdiffer⟩ := List.nodup_append.1 (hsplit ▸ hnodup)
    exact hdiffer n hin n List.mem_cons_self rfl

theorem Settings.nodup_loaderNames {names : List String} (h : s.Names names) : s.loaderNames.Nodup ↔
    (∀ n ∈ names, n ≠ "ephemeral" ∧ n ≠ "scripts") ∧ names.Nodup := by
  obtain rfl := names_iff.1 h
  have hdiffer : "ephemeral" ≠ "scripts" := by decide
  simp only [loaderNames, List.nodup_cons, List.mem_cons, hdiffer, false_or]
  grind

/-- **There is no press** if and only if something is wrong with the loaders, which is then told. -/
theorem Press.ofSettings_eq_error {cause : Error} : Press.ofSettings w s directory = .error cause ↔
    ∃ e, cause = .config e ∧ s.HasFault e := by
  have hfault : ∀ e, s.chain w.home directory = .error e ↔ s.HasFault e := fun e => Settings.chain_eq_error
  rw [Press.ofSettings]
  split
  · rename_i e he
    rw [← Settings.chain, hfault] at he
    constructor
    · rintro h
      exact ⟨e, (Except.error.inj h).symm, he⟩
    · rintro ⟨e', rfl, he'⟩
      rw [← hfault] at he he'
      rw [Except.error.inj (he.symm.trans he')]
  · rename_i c hc
    refine iff_of_false (fun h => ?_) ?_
    · cases h
    · rintro ⟨e, -, he⟩
      cases hc.symm.trans ((hfault e).2 he)

/-- **A press has the loaders that its settings declare.**

There is a press for some settings if and only if every loader that they declare has a name that is not
blank, and is of no kind or of the only kind that there is, and without the white space around them the
names all differ, from each other and from `ephemeral` and `scripts`.  Otherwise the settings are at fault:
what is told is the fault of the first declaration that has one, and if none has, the first name that one
of the loaders before has too.  The loaders of a press have these names, the two that every press has being
the first; nothing has been asked of them; and each does what its declaration says, and where that says
nothing what loaders do. -/
theorem loaders_as_declared (w : World) (s : Settings) (directory : Path) :
    ∃ names, s.Names names ∧
    ((∃ p, Press.ofSettings w s directory = .ok p) ↔
      (∀ d ∈ s.loaders, d.IsValid) ∧ (∀ n ∈ names, n ≠ "ephemeral" ∧ n ≠ "scripts") ∧ names.Nodup) ∧
    (∀ cause, Press.ofSettings w s directory = .error cause ↔ ∃ e, cause = .config e ∧ s.HasFault e) ∧
    ∀ p, Press.ofSettings w s directory = .ok p →
      p.compiler.chain.names = "ephemeral" :: "scripts" :: names ∧
      ∃ (scripts : LoaderSettings) (declared : List LoaderSettings),
        p.compiler.chain
          = ({ name := "ephemeral", paths := [directory], cache := true, checkInterval := .never }
            :: scripts :: declared).map (fun settings => { settings }) ∧
        s.HasScripts w.home scripts ∧
        List.Forall₂ (IsCarriedOut w.home s.configDirectory s.checkInterval) s.loaders declared := by
  have hnames : s.Names (s.loaders.map fun d => Text.trimmed d.name) := Settings.names_iff.2 rfl
  refine ⟨_, hnames, ?_, fun cause => Press.ofSettings_eq_error, fun p hp => ?_⟩
  · rw [← Settings.nodup_loaderNames hnames]
    constructor
    · rintro ⟨p, hp⟩
      obtain ⟨settings, hsettings, hchain, hnodup, -⟩ := Press.chain_of_ofSettings hp
      rw [hchain, Settings.names_of_chainSettings hsettings] at hnodup
      exact ⟨(Settings.chainSettings_eq_ok hsettings).1, hnodup⟩
    · rintro ⟨hvalid, hnodup⟩
      cases hp : Press.ofSettings w s directory with
      | ok p => exact ⟨p, rfl⟩
      | error cause =>
        obtain ⟨e, -, he⟩ := Press.ofSettings_eq_error.1 hp
        exact absurd hnodup (he.not_nodup hvalid)
  · obtain ⟨settings, hsettings, hchain, -⟩ := Press.chain_of_ofSettings hp
    obtain ⟨-, scripts, declared, rfl, hscripts, hcarried⟩ := Settings.chainSettings_eq_ok hsettings
    refine ⟨?_, scripts, declared, hchain, hscripts, hcarried⟩
    rw [hchain, Settings.names_of_chainSettings hsettings, Settings.loaderNames]

end

end QueryPress
