import QueryPress.Text.Reader

/-!
# Proofs/Text/Reading — what readers take, and what they keep

A reader that has taken something tells what the text began with (`word_eq_some`, `run_append`).  A
property of texts is *kept* by a reader if what it leaves has the property of what it was given; what
is made of readers that keep a property keeps it, too.
-/

namespace QueryPress.Reader

variable {α β : Type} {p q : Reader α} {f : α → Reader β} {s r l : List Char} {a : α} {b : β}
  {t : String} {x : Char → Bool} {c : Char}

/-! ## What a reader has taken -/

theorem bind_eq_some :
    (p >>= f) s = some (b, r) ↔ ∃ a s', p s = some (a, s') ∧ f a s' = some (b, r) := by
  change (p s).bind (fun x => f x.1 x.2) = some (b, r) ↔ _
  rw [Option.bind_eq_some_iff]
  exact ⟨fun ⟨⟨a, s'⟩, h⟩ => ⟨a, s', h⟩, fun ⟨a, s', h⟩ => ⟨(a, s'), h⟩⟩

theorem bind_of_some {s' : List Char} (h : p s = some (a, s')) : (p >>= f) s = f a s' := by
  change (p s).bind (fun x => f x.1 x.2) = _
  rw [h]
  rfl

theorem bind_of_none (h : p s = none) : (p >>= f) s = none := by
  change (p s).bind (fun x => f x.1 x.2) = _
  rw [h]
  rfl

theorem pure_eq_some {a' : α} : (pure a : Reader α) s = some (a', r) ↔ a = a' ∧ s = r := by
  change some (a, s) = some (a', r) ↔ _
  rw [Option.some.injEq, Prod.mk.injEq]

theorem whole?_eq_some : whole? p s = some a ↔ p s = some (a, []) := by
  unfold whole?
  split
  · rename_i h
    simp [h]
  · rename_i h
    simp only [reduceCtorEq, false_iff]
    exact h a

theorem orElse_eq : (p <|> q) s = (p s <|> q s) := rfl

theorem orElse_eq_some :
    (p <|> q) s = some (a, r) ↔ p s = some (a, r) ∨ (p s = none ∧ q s = some (a, r)) := by
  rw [orElse_eq]
  cases p s <;> simp

theorem orElse_eq_none : (p <|> q) s = none ↔ p s = none ∧ q s = none := by
  rw [orElse_eq]
  cases p s <;> simp

theorem word_eq_some {u : Unit} : word t s = some (u, r) ↔ s = t.toList ++ r := by
  rw [word]
  split
  · rename_i h
    obtain ⟨rest, rfl⟩ := List.isPrefixOf_iff_prefix.1 h
    simp
  · rename_i h
    simp only [reduceCtorEq, false_iff]
    rintro rfl
    exact h (List.isPrefixOf_iff_prefix.2 (List.prefix_append _ _))

theorem word_append (t : String) (r : List Char) : word t (t.toList ++ r) = some ((), r) :=
  word_eq_some.2 rfl

theorem word_eq_none (h : ¬ t.toList <+: s) : word t s = none := by
  rw [word, if_neg fun hp => h (List.isPrefixOf_iff_prefix.1 hp)]

theorem charWhere_eq_some : charWhere x s = some (c, r) ↔ x c = true ∧ s = c :: r := by
  cases s with
  | nil => simp [charWhere]
  | cons d s =>
    rw [charWhere]
    split
    · simp only [Option.some.injEq, Prod.mk.injEq, List.cons.injEq]
      exact ⟨fun ⟨hd, hs⟩ => ⟨hd ▸ ‹_›, hd, hs⟩, fun ⟨_, hd, hs⟩ => ⟨hd, hs⟩⟩
    · simp only [reduceCtorEq, List.cons.injEq, false_iff]
      rintro ⟨hc, rfl, -⟩
      exact absurd hc ‹_›

/-- A run ends where its characters do. -/
theorem run_append (hl : ∀ c ∈ l, x c = true) (hr : ∀ c, r.head? = some c → x c = false) :
    run x (l ++ r) = some (l, r) := by
  have htake : r.takeWhile x = [] := by
    cases r with
    | nil => rfl
    | cons c r => simp [hr c rfl]
  have hdrop : r.dropWhile x = r := by
    cases r with
    | nil => rfl
    | cons c r => simp [hr c rfl]
  rw [run, List.takeWhile_append_of_pos hl, List.dropWhile_append_of_pos hl, htake, hdrop,
    List.append_nil]

theorem run1_append (hne : l ≠ []) (hl : ∀ c ∈ l, x c = true)
    (hr : ∀ c, r.head? = some c → x c = false) : run1 x (l ++ r) = some (l, r) := by
  obtain ⟨htake, hdrop⟩ := Prod.mk.inj (Option.some.inj (run_append hl hr))
  rw [run1, htake, hdrop]
  simp [hne]

theorem run_eq_some : run x s = some (l, r) ↔
    s = l ++ r ∧ (∀ c ∈ l, x c = true) ∧ ∀ c, r.head? = some c → x c = false := by
  constructor
  · intro h
    obtain ⟨rfl, rfl⟩ := Prod.mk.inj (Option.some.inj h)
    refine ⟨List.takeWhile_append_dropWhile.symm,
      fun c hc => List.all_eq_true.1 List.all_takeWhile c hc, fun c hc => ?_⟩
    have hhead := List.head?_dropWhile_not x s
    rw [hc] at hhead
    exact hhead
  · rintro ⟨rfl, hl, hr⟩
    exact run_append hl hr

theorem run1_eq_some : run1 x s = some (l, r) ↔
    l ≠ [] ∧ s = l ++ r ∧ (∀ c ∈ l, x c = true) ∧ ∀ c, r.head? = some c → x c = false := by
  constructor
  · intro h
    have hrun : run x s = some (l, r) := by
      rw [run1] at h
      split at h
      · cases h
      · exact h
    refine ⟨?_, run_eq_some.1 hrun⟩
    rintro rfl
    rw [run1] at h
    split at h
    · cases h
    · obtain ⟨hnil, -⟩ := Prod.mk.inj (Option.some.inj h)
      simp_all
  · rintro ⟨hne, rfl, hl, hr⟩
    exact run1_append hne hl hr

theorem gap_eq_some {u : Unit} : gap s = some (u, r) ↔
    ∃ g, s = g ++ r ∧ (∀ c ∈ g, isGap c = true) ∧ ∀ c, r.head? = some c → isGap c = false := by
  constructor
  · intro h
    obtain ⟨-, rfl⟩ := Prod.mk.inj (Option.some.inj h)
    exact ⟨_, run_eq_some.1 rfl⟩
  · rintro ⟨g, hg⟩
    obtain ⟨-, hdrop⟩ := Prod.mk.inj (Option.some.inj (run_eq_some.2 hg))
    rw [gap, hdrop]

theorem gap1_eq_some {u : Unit} : gap1 s = some (u, r) ↔
    ∃ g, g ≠ [] ∧ s = g ++ r ∧ (∀ c ∈ g, isGap c = true) ∧
      ∀ c, r.head? = some c → isGap c = false := by
  rw [gap1, bind_eq_some]
  constructor
  · rintro ⟨g, s', hg, h⟩
    obtain ⟨-, rfl⟩ := pure_eq_some.1 h
    exact ⟨g, run1_eq_some.1 hg⟩
  · rintro ⟨g, hg⟩
    exact ⟨g, r, run1_eq_some.2 hg, rfl⟩

theorem token_eq_some : token p s = some (a, r) ↔
    ∃ s', p s = some (a, s') ∧ gap s' = some ((), r) := by
  rw [token, bind_eq_some]
  constructor
  · rintro ⟨a', s', hp, h⟩
    obtain ⟨u, s'', hgap, h⟩ := bind_eq_some.1 h
    obtain ⟨rfl, rfl⟩ := pure_eq_some.1 h
    exact ⟨s', hp, hgap⟩
  · rintro ⟨s', hp, hgap⟩
    exact ⟨a, s', hp, bind_eq_some.2 ⟨(), r, hgap, rfl⟩⟩

theorem given_eq_some {b : Bool} : given p s = some (b, r) ↔
    (b = true ∧ ∃ a, p s = some (a, r)) ∨ (b = false ∧ p s = none ∧ s = r) := by
  rw [given]
  rcases p s with - | ⟨a, r'⟩ <;> simp [eq_comm]

theorem maybe_eq_some {o : Option α} : maybe p s = some (o, r) ↔
    (∃ a, o = some a ∧ p s = some (a, r)) ∨ (o = none ∧ p s = none ∧ s = r) := by
  rw [maybe]
  rcases p s with - | ⟨a, r'⟩
  · simp [eq_comm]
  · simp only [Option.some.injEq, Prod.mk.injEq, reduceCtorEq, false_and, and_false, or_false]
    exact ⟨fun ⟨ha, hr⟩ => ⟨a, ha.symm, rfl, hr⟩, fun ⟨a', ha, ha', hr⟩ => ⟨by rw [ha, ha'], hr⟩⟩

theorem notAhead_eq_some {u : Unit} : notAhead p s = some (u, r) ↔ p s = none ∧ s = r := by
  rw [notAhead]
  rcases p s with - | ⟨a, r'⟩ <;> simp

/-! ## What a reader keeps -/

/-- A reader keeps a property: what it leaves has it if what it was given has it. -/
def Keeps (P : List Char → Prop) (p : Reader α) : Prop := ∀ s a r, p s = some (a, r) → P s → P r

variable {P : List Char → Prop}

theorem Keeps.pure (a : α) : Keeps P (pure a : Reader α) := by
  intro s a' r h hs
  obtain ⟨-, rfl⟩ := pure_eq_some.1 h
  exact hs

theorem Keeps.failure : Keeps P (failure : Reader α) := fun _ _ _ h => by cases h

theorem Keeps.bind (hp : Keeps P p) (hf : ∀ a, Keeps P (f a)) : Keeps P (p >>= f) := by
  intro s b r h hs
  obtain ⟨a, s', h, h'⟩ := bind_eq_some.1 h
  exact hf a s' b r h' (hp s a s' h hs)

theorem Keeps.map {g : α → β} (hp : Keeps P p) : Keeps P (do return g (← p)) :=
  hp.bind fun _ => .pure _

theorem Keeps.orElse (hp : Keeps P p) (hq : Keeps P q) : Keeps P (p <|> q) := by
  intro s a r h hs
  rcases orElse_eq_some.1 h with h | ⟨-, h⟩
  · exact hp s a r h hs
  · exact hq s a r h hs

theorem Keeps.ite {c : Prop} [Decidable c] (hp : Keeps P p) (hq : Keeps P q) :
    Keeps P (if c then p else q) := by
  split
  · exact hp
  · exact hq

theorem Keeps.given (hp : Keeps P p) : Keeps P (given p) := by
  intro s b r h hs
  rcases given_eq_some.1 h with ⟨-, a, h⟩ | ⟨-, -, rfl⟩
  · exact hp s a r h hs
  · exact hs

theorem Keeps.maybe (hp : Keeps P p) : Keeps P (maybe p) := by
  intro s o r h hs
  rcases maybe_eq_some.1 h with ⟨a, -, h⟩ | ⟨-, -, rfl⟩
  · exact hp s a r h hs
  · exact hs

/-- **A repetition is at its end, or goes on** behind one more. -/
theorem manyUpTo_succ_eq_some {n : Nat} {as : List α} : manyUpTo p (n + 1) s = some (as, r) ↔
    (as = [] ∧ p s = none ∧ s = r) ∨
      ∃ a s' as', as = a :: as' ∧ p s = some (a, s') ∧ manyUpTo p n s' = some (as', r) := by
  rw [manyUpTo]
  rcases p s with - | ⟨a, s'⟩
  · simp [eq_comm]
  · simp only [Option.map_eq_some_iff, Prod.mk.injEq, reduceCtorEq, false_and, and_false, false_or,
      Option.some.injEq]
    constructor
    · rintro ⟨⟨as', r'⟩, hrest, rfl, rfl⟩
      exact ⟨a, s', as', rfl, ⟨rfl, rfl⟩, hrest⟩
    · rintro ⟨_, _, as', rfl, ⟨rfl, rfl⟩, hrest⟩
      exact ⟨(as', r), hrest, rfl, rfl⟩

theorem Keeps.manyUpTo (hp : Keeps P p) : ∀ n : Nat, Keeps P (manyUpTo p n)
  | 0 => fun s as r h hs => by
    obtain ⟨-, rfl⟩ := Prod.mk.inj (Option.some.inj h)
    exact hs
  | n + 1 => fun s as r h hs => by
    obtain ⟨-, -, rfl⟩ | ⟨a, s', as', -, ha, hrest⟩ := manyUpTo_succ_eq_some.1 h
    · exact hs
    · exact Keeps.manyUpTo hp n s' as' r hrest (hp s a s' ha hs)

theorem Keeps.many (hp : Keeps P p) : Keeps P (many p) := fun s => hp.manyUpTo s.length s

theorem Keeps.many1 (hp : Keeps P p) : Keeps P (many1 p) := hp.bind fun _ => hp.many.map

theorem Keeps.sepBy1 {sep : Reader β} (hp : Keeps P p) (hsep : Keeps P sep) :
    Keeps P (sepBy1 p sep) := hp.bind fun _ => (hsep.bind fun _ => hp).many.map

theorem Keeps.lift (o : Option α) : Keeps P (StateT.lift o : Reader α) := by
  intro s a r h hs
  cases o with
  | none => cases h
  | some x =>
    obtain ⟨-, rfl⟩ := Prod.mk.inj (Option.some.inj h)
    exact hs

/-! ## As often as a reader succeeds -/

section

variable {Q : List Char → Prop} {l : List β} {text : β → List Char} {f : β → α}

theorem manyUpTo_flatMap {n : Nat} (hn : l.length ≤ n)
    (hp : ∀ b ∈ l, ∀ s, Q s → p (text b ++ s) = some (f b, s)) (hQ : ∀ b ∈ l, ∀ s, Q (text b ++ s))
    (hr : Q r) (hend : p r = none) : manyUpTo p n (l.flatMap text ++ r) = some (l.map f, r) := by
  induction l generalizing n with
  | nil =>
    rw [List.flatMap_nil, List.nil_append, List.map_nil]
    cases n with
    | zero => rfl
    | succ n => rw [manyUpTo, hend]
  | cons b l ih =>
    obtain ⟨hb, hl⟩ := List.forall_mem_cons.1 hp
    have hrest : Q (l.flatMap text ++ r) := by
      cases l with
      | nil => exact hr
      | cons b' l =>
        rw [List.flatMap_cons, List.append_assoc]
        exact hQ b' (by simp) _
    cases n with
    | zero => cases hn
    | succ n =>
      rw [List.flatMap_cons, List.append_assoc, manyUpTo, hb _ hrest]
      dsimp only
      rw [ih (Nat.le_of_succ_le_succ hn) hl (List.forall_mem_cons.1 hQ).2]
      rfl

/-- **Pieces that are read one by one are read in a row**, if each is read in front of a text of some kind,
the pieces begin texts of that kind, and what stands behind them is of that kind and no piece. -/
theorem many_flatMap (hp : ∀ b ∈ l, ∀ s, Q s → p (text b ++ s) = some (f b, s))
    (hQ : ∀ b ∈ l, ∀ s, Q (text b ++ s)) (hne : ∀ b ∈ l, text b ≠ []) (hr : Q r) (hend : p r = none) :
    many p (l.flatMap text ++ r) = some (l.map f, r) := by
  refine manyUpTo_flatMap ?_ hp hQ hr hend
  clear hp hQ
  induction l with
  | nil => exact Nat.zero_le _
  | cons b l ih =>
    obtain ⟨hb, hl⟩ := List.forall_mem_cons.1 hne
    have hpos : 0 < (text b).length := List.length_pos_iff.2 hb
    have hle := ih hl
    rw [List.flatMap_cons, List.append_assoc, List.length_append, List.length_cons]
    omega

end

/-! ## Along a text -/

theorem scanFrom_eq_drop (p : Reader α) : ∀ (k : Nat) (s : List Char),
    scanFrom p k s = scan p (s.drop k)
  | 0, s => by rw [List.drop_zero, scan]
  | k + 1, [] => rfl
  | k + 1, _ :: s => by rw [scanFrom, scanFrom_eq_drop p k s, List.drop_succ_cons]

theorem withoutFrom_eq_drop (p : Reader α) : ∀ (k : Nat) (s : List Char),
    withoutFrom p k s = without p (s.drop k)
  | 0, s => by rw [List.drop_zero, without]
  | k + 1, [] => rfl
  | k + 1, _ :: s => by rw [withoutFrom, withoutFrom_eq_drop p k s, List.drop_succ_cons]

theorem scan_cons (h : p (c :: s) = none) : scan p (c :: s) = scan p s := by
  rw [scan, scanFrom, h, scan]

theorem without_cons (h : p (c :: s) = none) : without p (c :: s) = c :: without p s := by
  rw [without, withoutFrom, h, without]

theorem drop_append_sub (l r : List Char) : (l ++ r).drop ((l ++ r).length - r.length) = r := by
  simp

/-- **A search goes on behind what was found.** -/
theorem scan_append_of_some (hl : l ≠ []) (h : p (l ++ r) = some (a, r)) :
    scan p (l ++ r) = a :: scan p r := by
  obtain ⟨c, l, rfl⟩ := List.exists_cons_of_ne_nil hl
  rw [List.cons_append] at h ⊢
  rw [scan, scanFrom, h]
  dsimp only
  rw [scanFrom_eq_drop, drop_append_sub]

theorem without_append_of_some (hl : l ≠ []) (h : p (l ++ r) = some (a, r)) :
    without p (l ++ r) = without p r := by
  obtain ⟨c, l, rfl⟩ := List.exists_cons_of_ne_nil hl
  rw [List.cons_append] at h ⊢
  rw [without, withoutFrom, h]
  dsimp only
  rw [withoutFrom_eq_drop, drop_append_sub]

/-- A search passes over what nothing is found in. -/
theorem scan_append_of_none (h : ∀ c ∈ l, ∀ s, p (c :: s) = none) : scan p (l ++ r) = scan p r := by
  induction l with
  | nil => rfl
  | cons c l ih =>
    obtain ⟨hc, hl⟩ := List.forall_mem_cons.1 h
    rw [List.cons_append, scan_cons (hc _), ih hl]

/-- **A reader passes over a text** that stands in front of another — it reads nothing from any place in
it. -/
def Passes (p : Reader α) (l r : List Char) : Prop := ∀ u v, l = u ++ v → v ≠ [] → p (v ++ r) = none

theorem passes_nil (p : Reader α) (r : List Char) : Passes p [] r := fun _ _ huv hv =>
  absurd (List.append_eq_nil_iff.1 huv.symm).2 hv

theorem passes_cons : Passes p (c :: l) r ↔ p (c :: (l ++ r)) = none ∧ Passes p l r := by
  constructor
  · exact fun h => ⟨h [] (c :: l) rfl (List.cons_ne_nil c l), fun u v huv =>
      h (c :: u) v (congrArg (c :: ·) huv)⟩
  · rintro ⟨hc, hl⟩ u v huv hv
    rcases List.cons_eq_append_iff.1 huv with ⟨rfl, rfl⟩ | ⟨u', rfl, huv'⟩
    · exact hc
    · exact hl u' v huv' hv

/-- What `before` passes over is what stands in front of the first place where it stops. -/
theorem before_eq_some {stop : Reader β} : ∀ {s l r : List Char}, before stop s = some (l, r) ↔
    s = l ++ r ∧ (∃ b, stop r = some b) ∧ Passes stop l r
  | [], l, r => by
    rw [before, Option.map_eq_some_iff]
    constructor
    · rintro ⟨b, hb, heq⟩
      obtain ⟨rfl, rfl⟩ := Prod.mk.inj heq
      exact ⟨rfl, ⟨b, hb⟩, passes_nil stop []⟩
    · rintro ⟨hnil, ⟨b, hb⟩, -⟩
      obtain ⟨rfl, rfl⟩ := List.append_eq_nil_iff.1 hnil.symm
      exact ⟨b, hb, rfl⟩
  | c :: s, l, r => by
    rw [before]
    cases hstop : stop (c :: s) with
    | some b =>
      constructor
      · intro h
        obtain ⟨rfl, rfl⟩ := Prod.mk.inj (Option.some.inj h)
        exact ⟨rfl, ⟨b, hstop⟩, passes_nil stop (c :: s)⟩
      · rintro ⟨heq, -, hpasses⟩
        cases l with
        | nil => rw [heq]; rfl
        | cons d l =>
          obtain ⟨rfl, rfl⟩ := List.cons.inj heq
          cases hstop.symm.trans (passes_cons.1 hpasses).1
    | none =>
      rw [Option.map_eq_some_iff]
      constructor
      · rintro ⟨⟨l', r'⟩, h, heq⟩
        obtain ⟨rfl, rfl⟩ := Prod.mk.inj heq
        obtain ⟨rfl, hb, hpasses⟩ := before_eq_some.1 h
        exact ⟨rfl, hb, passes_cons.2 ⟨hstop, hpasses⟩⟩
      · rintro ⟨heq, ⟨b, hb⟩, hpasses⟩
        cases l with
        | nil =>
          rw [List.nil_append] at heq
          rw [heq, hb] at hstop
          cases hstop
        | cons d l =>
          obtain ⟨rfl, rfl⟩ := List.cons.inj heq
          exact ⟨(l, r), before_eq_some.2 ⟨rfl, ⟨b, hb⟩, (passes_cons.1 hpasses).2⟩, rfl⟩

/-- Where nothing stops, `before` passes on. -/
theorem before_pass {stop : Reader β} {m : List Char} (hl : Passes stop l s)
    (hs : before stop s = some (m, r)) : before stop (l ++ s) = some (l ++ m, r) := by
  induction l with
  | nil => exact hs
  | cons c l ih =>
    obtain ⟨hnone, hl⟩ := passes_cons.1 hl
    have hrest := ih hl
    rw [List.cons_append, before, hnone]
    dsimp only
    rw [hrest]
    rfl

theorem before_isSome {stop : Reader β} (h : (stop r).isSome = true) :
    (before stop (l ++ r)).isSome = true := by
  induction l with
  | nil =>
    rw [List.nil_append]
    obtain ⟨b, hb⟩ := Option.isSome_iff_exists.1 h
    exact Option.isSome_iff_exists.2 ⟨_, before_eq_some.2 ⟨rfl, ⟨b, hb⟩, passes_nil stop r⟩⟩
  | cons c l ih =>
    rw [List.cons_append, before]
    split
    · rfl
    · rw [Option.isSome_map, ih]

theorem before_eq_none {stop : Reader β} (h : ∀ u v, s = u ++ v → stop v = none) :
    before stop s = none := by
  cases heq : before stop s with
  | none => rfl
  | some x =>
    obtain ⟨huv, ⟨b, hb⟩, -⟩ := before_eq_some.1 heq
    rw [h _ _ huv] at hb
    cases hb

/-- Characters up to a place where something is ahead, if not more than some number of them. -/
theorem of_manyUpTo_notAhead {stop : Reader β} : ∀ {n : Nat} {s l r : List Char},
    manyUpTo (do notAhead stop; charWhere fun _ => true) n s = some (l, r) →
      s = l ++ r ∧ Passes stop l r
  | 0, s, l, r, h => by
    obtain ⟨rfl, rfl⟩ := Prod.mk.inj (Option.some.inj h)
    exact ⟨rfl, passes_nil stop s⟩
  | n + 1, s, l, r, h => by
    obtain ⟨rfl, -, rfl⟩ | ⟨c, s', l', rfl, hc, hrest⟩ := manyUpTo_succ_eq_some.1 h
    · exact ⟨rfl, passes_nil stop s⟩
    · obtain ⟨u, s₁, hahead, hchar⟩ := bind_eq_some.1 hc
      obtain ⟨hnone, rfl⟩ := notAhead_eq_some.1 hahead
      obtain ⟨-, rfl⟩ := charWhere_eq_some.1 hchar
      obtain ⟨rfl, hpasses⟩ := of_manyUpTo_notAhead hrest
      exact ⟨rfl, passes_cons.2 ⟨hnone, hpasses⟩⟩

/-- Characters up to the first place where something is ahead. -/
theorem of_many1_notAhead {stop : Reader β}
    (h : many1 (do notAhead stop; charWhere fun _ => true) s = some (l, r)) :
    l ≠ [] ∧ s = l ++ r ∧ Passes stop l r := by
  obtain ⟨c, s₁, hc, h₁⟩ := bind_eq_some.1 h
  obtain ⟨l', s₂, hl, h₂⟩ := bind_eq_some.1 h₁
  obtain ⟨rfl, rfl⟩ := pure_eq_some.1 h₂
  exact ⟨List.cons_ne_nil c l',
    of_manyUpTo_notAhead (manyUpTo_succ_eq_some.2 (.inr ⟨c, s₁, l', rfl, hc, hl⟩))⟩

end QueryPress.Reader
