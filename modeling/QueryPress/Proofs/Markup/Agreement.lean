import QueryPress.Proofs.Markup.Naming
import QueryPress.Proofs.Markup.Written

/-!
# Proofs/Markup/Agreement — both readers of a tidy text agree

Whatever the grammar of pages reads in a tidy text, the reader of references finds there what is written
to ask for pages, and no more, as long as the names are plain (`Yields`).  A tag that was read yields
what it asks for (`yields_inclusion`, `yields_parentTag`, `yields_importTag`) or nothing (`yields_quiet`);
blocks, macros, walks and choices yield what their bodies do (`yields_piecesTo`).  So the references of a
tidy text are what is asked for in it (`Page.ofText_eq_asked`).
-/

namespace QueryPress

open Reader Reference

/-- A request whose names are plain; there is at least one. -/
def Reference.IsPlain (ref : Reference) : Prop :=
  ref.candidates ≠ [] ∧ ∀ n ∈ ref.candidates, IsPlainName n

/-- **A reader of pages yields these references**, behind those of `before` — so many are found in what
it takes of a tidy text, and it leaves a tidy one. -/
def Yields {α : Type} (before : List Reference) (p : Reader α) (f : α → List Reference) : Prop :=
  ∀ s a r, p s = some (a, r) → before ⊆ f a ∧
    (IsTidy s → (∀ ref ∈ f a, ref.IsPlain) → IsTidy r ∧ before ++ found s = f a ++ found r)

section

variable {α β : Type} {p q : Reader α} {k : α → Reader β} {f : α → List Reference}
  {h : β → List Reference} {refs : List Reference}

/-! ## Readers made of readers -/

theorem Yields.pure {a : α} (ha : f a = refs) : Yields refs (pure a) f := by
  intro s x r hx
  obtain ⟨rfl, rfl⟩ := pure_eq_some.1 hx
  rw [ha]
  exact ⟨fun _ hr => hr, fun hs _ => ⟨hs, rfl⟩⟩

theorem Yields.bind (hp : Yields refs p f) (hk : ∀ a, Yields (f a) (k a) h) :
    Yields refs (p >>= k) h := by
  intro s b r hx
  obtain ⟨a, s₁, ha, hb⟩ := bind_eq_some.1 hx
  obtain ⟨hsub, hfirst⟩ := hp s a s₁ ha
  obtain ⟨hsub', hsecond⟩ := hk a s₁ b r hb
  refine ⟨fun _ hr => hsub' (hsub hr), fun hs hplain => ?_⟩
  obtain ⟨hs₁, heq₁⟩ := hfirst hs fun ref href => hplain ref (hsub' href)
  obtain ⟨hr, heq₂⟩ := hsecond hs₁ hplain
  exact ⟨hr, heq₁.trans heq₂⟩

/-- What is yielded does not depend on what has been found before. -/
theorem Yields.after (hp : Yields [] p f) (refs : List Reference) :
    Yields refs p fun a => refs ++ f a := by
  intro s a r ha
  refine ⟨List.subset_append_left _ _, fun hs hplain => ?_⟩
  obtain ⟨hr, heq⟩ := (hp s a r ha).2 hs fun ref href => hplain ref (List.mem_append_right _ href)
  rw [List.append_assoc, ← heq]
  exact ⟨hr, rfl⟩

/-- Where nothing is found, what has been found before is all. -/
theorem Yields.silent (hp : Yields [] p fun _ => []) (refs : List Reference) :
    Yields refs p fun _ => refs := by
  have hafter := hp.after refs
  rwa [List.append_nil] at hafter

theorem Yields.congr {g : α → List Reference} (hp : Yields refs p f)
    (heq : ∀ s a r, p s = some (a, r) → g a = f a) : Yields refs p g := fun s a r ha => by
  rw [heq s a r ha]
  exact hp s a r ha

theorem Yields.orElse (hp : Yields refs p f) (hq : Yields refs q f) : Yields refs (p <|> q) f :=
  fun s a r ha => (orElse_eq_some.1 ha).elim (hp s a r) fun ha' => hq s a r ha'.2

theorem Yields.onlyIf {b : Bool} (hp : Yields refs p f) : Yields refs (Page.onlyIf b p) f := by
  intro s a r ha
  cases b with
  | true => exact hp s a r ha
  | false => cases ha

theorem Yields.maybe (hp : Yields [] p f) : Yields [] (Reader.maybe p) fun o => o.elim [] f := by
  intro s o r ho
  rcases maybe_eq_some.1 ho with ⟨a, rfl, ha⟩ | ⟨rfl, -, rfl⟩
  · exact hp s a r ha
  · exact ⟨fun _ hr => hr, fun hs _ => ⟨hs, rfl⟩⟩

theorem Yields.manyUpTo (hp : Yields [] p f) :
    ∀ n : Nat, Yields [] (Reader.manyUpTo p n) fun as => as.flatMap f
  | 0 => Yields.pure rfl
  | n + 1 => fun s as r h => by
    refine ⟨List.nil_subset _, fun hs hplain => ?_⟩
    obtain ⟨rfl, -, rfl⟩ | ⟨a, s₁, as', rfl, ha, hrest⟩ := manyUpTo_succ_eq_some.1 h
    · exact ⟨hs, rfl⟩
    · simp only [List.flatMap_cons] at hplain ⊢
      obtain ⟨hplain₁, hplain₂⟩ := List.forall_mem_append.1 hplain
      obtain ⟨hs₁, heq₁⟩ := (hp s a s₁ ha).2 hs hplain₁
      obtain ⟨hr, heq₂⟩ := (Yields.manyUpTo hp n s₁ as' r hrest).2 hs₁ hplain₂
      rw [List.nil_append] at heq₁ heq₂
      exact ⟨hr, by rw [List.nil_append, heq₁, heq₂, List.append_assoc]⟩

theorem Yields.many (hp : Yields [] p f) : Yields [] (Reader.many p) fun as => as.flatMap f :=
  fun s => hp.manyUpTo s.length s

/-- What is taken character by character, where nothing opens, yields nothing. -/
theorem Yields.of_taken (hp : ∀ s a r, p s = some (a, r) → ∃ l, s = l ++ r ∧
    ∀ c u v, l = u ++ c :: v → Page.anyOpening (c :: (v ++ r)) = none) :
    Yields [] p fun _ => [] := by
  intro s a r ha
  refine ⟨fun _ hr => hr, fun hs _ => ?_⟩
  obtain ⟨l, rfl, hl⟩ := hp s a r ha
  clear ha
  induction l with
  | nil => exact ⟨hs, rfl⟩
  | cons c l ih =>
    have hc : Page.anyOpening (c :: (l ++ r)) = none := hl c [] l rfl
    have htail := ih (fun d u v huv => hl d (c :: u) v (by rw [huv]; rfl)) (hs.of_cons hc)
    refine ⟨htail.1, ?_⟩
    rw [List.cons_append, found_cons hc]
    exact htail.2

end

/-! ## Texts, comments, raw stretches and values -/

section

variable {α : Type} {p : Reader α} {s r t rest : List Char} {a : α} {d : Dashes} {b : Bool}
  {keyword : String} {refs : List Reference} {g : List Char}

theorem yields_gap : Yields [] gap fun _ => [] := .of_taken fun s _ r h => by
  obtain ⟨g, rfl, hg, -⟩ := gap_eq_some.1 h
  refine ⟨g, rfl, fun c u v huv => anyOpening_eq_none.2 fun hc => ?_⟩
  have hgap := hg c (by rw [huv]; simp)
  rw [hc] at hgap
  exact absurd hgap (by decide)

theorem yields_text : Yields [] Page.text Piece.requestsOf := by
  have htaken : Yields [] (many1 (do notAhead Page.anyOpening; charWhere fun _ => true))
      fun _ => [] := .of_taken fun s l r h => by
    obtain ⟨-, rfl, hnone⟩ := of_many1_notAhead h
    exact ⟨l, rfl, fun c u v huv => hnone u (c :: v) huv (by simp)⟩
  exact htaken.bind fun l => .pure rfl

/-- A comment ends in the same place for both readers. -/
theorem comment_of_comment {piece : Piece} (h : Page.comment s = some (piece, r)) :
    ∃ l, s = '\x7b' :: '#' :: (l ++ r) ∧ Reference.comment s = some ((), r) ∧
      piece.requestsOf = [] := by
  obtain ⟨b, s₁, hopen, h₁⟩ := bind_eq_some.1 h
  obtain ⟨l, s₂, hl, h₂⟩ := bind_eq_some.1 h₁
  obtain ⟨b', s₃, hclose, h₃⟩ := bind_eq_some.1 h₂
  obtain ⟨rfl, rfl⟩ := pure_eq_some.1 h₃
  obtain ⟨_, t, hword, hdash⟩ := bind_eq_some.1 hopen
  obtain ⟨-, rfl, hnone⟩ := of_many1_notAhead hl
  obtain rfl := given_dash hdash
  obtain rfl : s₂ = dashOf b' ++ '#' :: '\x7d' :: s₃ := closing_eq_some (by decide) hclose
  have hdashes : ∀ (b : Bool) (t : List Char), Passes (word "#\x7d") (dashOf b) t
    | false, t => passes_nil _ t
    | true, t => passes_cons.2 ⟨rfl, passes_nil _ t⟩
  have hend : before (word "#\x7d") ('#' :: '\x7d' :: s₃) = some ([], '#' :: '\x7d' :: s₃) := rfl
  have hafter := before_pass (hdashes b' _) hend
  have hinner := before_pass (l := l) (fun u v huv hv => ?_) hafter
  · have hbefore := before_pass (hdashes b _) hinner
    refine ⟨dashOf b ++ (l ++ (dashOf b' ++ ['#', '\x7d'])), ?_, ?_, rfl⟩
    · rw [word_eq_some.1 hword]
      simp
    · rw [Reference.comment, bind_of_some hword, bind_of_some hbefore]
      exact word_append "#\x7d" s₃
  · obtain ⟨-, hclosing⟩ := orElse_eq_none.1 (hnone u v huv hv)
    cases hw : word "#\x7d" (v ++ (dashOf b' ++ '#' :: '\x7d' :: s₃)) with
    | none => rfl
    | some x =>
      rw [bind_of_some hw] at hclosing
      cases hclosing

theorem yields_comment : Yields [] Page.comment Piece.requestsOf := by
  intro s piece r h
  obtain ⟨l, rfl, hcomment, hnone⟩ := comment_of_comment h
  rw [hnone]
  refine ⟨fun _ hr => hr, fun hs _ => ⟨?_, found_comment hcomment⟩⟩
  refine IsTidy.behind (l := '\x7b' :: '#' :: l) (by simp) ?_ hs
  rw [List.cons_append, List.cons_append, pieceEnd?, hcomment]
  rfl

theorem yields_raw : Yields [] Page.raw Piece.requestsOf := by
  intro s piece r h
  have hpiece : piece.requestsOf = [] := by
    obtain ⟨first, s₁, -, h₁⟩ := bind_eq_some.1 h
    obtain ⟨m, s₂, -, h₂⟩ := bind_eq_some.1 h₁
    obtain ⟨last, s₃, -, h₃⟩ := bind_eq_some.1 h₂
    rw [← (pure_eq_some.1 h₃).1]
    rfl
  rw [hpiece]
  refine ⟨fun _ hr => hr, fun hs _ => ?_⟩
  obtain ⟨l, rfl, hopen, hstretch⟩ := rawStretch_of_raw h hs
  refine ⟨IsTidy.behind (l := '\x7b' :: '%' :: l) (by simp) ?_ hs,
    found_rawStretch (l := '\x7b' :: '%' :: l) (by simp) hstretch⟩
  rw [List.cons_append, List.cons_append, pieceEnd?, if_pos (Option.isSome_iff_ne_none.2 hopen),
    hstretch]
  rfl

/-- **A tidy text that begins with a value** is tidy behind it, and nothing is found in the value. -/
theorem IsTidy.value (hs : IsTidy ('\x7b' :: '\x7b' :: t))
    (hend : ∀ rest, InTag rest t → rest = '\x7d' :: r) :
    IsTidy r ∧ found ('\x7b' :: '\x7b' :: t) = found r := by
  obtain ⟨rest, hpiece⟩ := hs.exists_end
  rw [pieceEnd?] at hpiece
  split at hpiece
  · cases hpiece
  · rename_i hhead
    obtain ⟨htag, hcomment⟩ : t.head? ≠ some '%' ∧ t.head? ≠ some '#' := by simpa using hhead
    obtain rfl := hend rest hpiece
    obtain ⟨l, rfl, hl, hne⟩ := exists_of_tagEnd? hpiece
    have hfirst : (l ++ '\x7d' :: r).head? = l.head? := by
      cases l with
      | nil => exact absurd rfl hne
      | cons c l => rfl
    rw [hfirst] at htag hcomment
    have hclose : Page.anyOpening ('\x7d' :: r) = none :=
      anyOpening_eq_none.2 fun h => absurd h (by decide)
    have hbehind : IsTidy ('\x7d' :: r) := by
      refine IsTidy.behind (l := '\x7b' :: '\x7b' :: l) (by simp) ?_ hs
      rw [List.cons_append, List.cons_append, pieceEnd?, if_neg hhead, hpiece]
    refine ⟨hbehind.of_cons hclose, ?_⟩
    rw [found_value hl hne htag hcomment, found_cons hclose]

theorem openValue_eq_some (h : Page.openValue s = some (b, r)) :
    s = '\x7b' :: '\x7b' :: (dashOf b ++ r) := by
  obtain ⟨_, s₁, hword, hdash⟩ := bind_eq_some.1 h
  rw [word_eq_some.1 hword, given_dash hdash]
  rfl

theorem closeValue_eq_some (h : Page.closeValue s = some (b, r)) :
    s = dashOf b ++ '\x7d' :: '\x7d' :: r := closing_eq_some (by decide) h

theorem isOrdinary_dashOf (b : Bool) : (dashOf b).all isOrdinary = true := by
  cases b <;> decide

/-- **What is written between the delimiters of a value yields nothing**, if it keeps the end of the
value. -/
theorem yields_between {β : Type} {e : Reader α} {k : Bool → α → Bool → β} {f : β → List Reference}
    (he : ∀ rest, Keeps (InTag rest) e) (hf : ∀ b a b', f (k b a b') = []) :
    Yields [] (do
      let b ← Page.openValue
      gap
      let a ← e
      let b' ← Page.closeValue
      return k b a b') f := by
  intro s x r h
  obtain ⟨b, s₁, hopen, h₁⟩ := bind_eq_some.1 h
  obtain ⟨_, s₂, hgap, h₂⟩ := bind_eq_some.1 h₁
  obtain ⟨a, s₃, ha, h₃⟩ := bind_eq_some.1 h₂
  obtain ⟨b', s₄, hclose, h₄⟩ := bind_eq_some.1 h₃
  obtain ⟨rfl, rfl⟩ := pure_eq_some.1 h₄
  rw [hf]
  refine ⟨fun _ hr => hr, fun hs _ => ?_⟩
  rw [openValue_eq_some hopen] at hs ⊢
  refine hs.value fun rest hin => ?_
  rw [InTag, tagEnd?_ordinary (isOrdinary_dashOf b)] at hin
  have hin' := he rest _ _ _ ha (keeps_gap _ _ _ hgap hin)
  rw [closeValue_eq_some hclose, InTag, tagEnd?_ordinary (isOrdinary_dashOf b')] at hin'
  exact (Option.some.inj hin').symm

theorem yields_value : Yields [] Page.value Piece.requestsOf :=
  yields_between (fun _ => Grammar.keeps_expression) fun _ _ _ => rfl

theorem yields_inheritedPlace : Yields [] Page.inheritedPlace Piece.requestsOf :=
  yields_between (fun _ => keeps_symbol (by decide)) fun _ _ _ => rfl

/-! ## Tags -/

/-- **A tidy text that begins with a tag** is tidy behind it, and there is no opening brace in it. -/
theorem IsTidy.tag {u : List Char} (hs : IsTidy s)
    (hlaid : s = '\x7b' :: '%' :: (dashOf d.before ++ (g ++ (keyword.toList ++ u))))
    (hg : ∀ c ∈ g, isGap c = true) (hraw : rawTag "raw" s = none)
    (hk : keyword.toList.all isOrdinary = true)
    (hend : ∀ rest, InTag rest u → rest = r) :
    ∃ v, u = v ++ r ∧ '\x7b' ∉ v ∧ InTag r u ∧ IsTidy r := by
  subst hlaid
  obtain ⟨rest, hpiece⟩ := hs.exists_end
  have htag := hpiece
  rw [pieceEnd?, hraw] at htag
  simp only [Option.isSome_none, Bool.false_eq_true, if_false] at htag
  have hgap : g.all isOrdinary = true := List.all_eq_true.2 fun c hc =>
    isOrdinary_of_not (by decide) c (hg c hc)
  rw [tagEnd?_ordinary (isOrdinary_dashOf _), tagEnd?_ordinary hgap, tagEnd?_ordinary hk] at htag
  obtain rfl := hend rest htag
  obtain ⟨v, rfl, hv, -⟩ := exists_of_tagEnd? htag
  refine ⟨v, rfl, hv, htag, ?_⟩
  refine IsTidy.behind (l := '\x7b' :: '%' :: (dashOf d.before ++ (g ++ (keyword.toList ++ v))))
    (by simp) ?_ (by simpa using hs)
  simpa using hpiece

/-- Behind the close of a tag its end is. -/
theorem eq_of_closing (hg : ∀ c ∈ g, isGap c = true)
    (h : InTag rest (g ++ (dashOf b ++ '%' :: '\x7d' :: r))) : rest = r := by
  have hgap : g.all isOrdinary = true := List.all_eq_true.2 fun c hc =>
    isOrdinary_of_not (by decide) c (hg c hc)
  rw [InTag, tagEnd?_ordinary hgap, tagEnd?_ordinary (isOrdinary_dashOf b)] at h
  exact (Option.some.inj h).symm

theorem not_mem_dashOf {c : Char} (hc : c ≠ '-') (b : Bool) : c ∉ dashOf b := by
  cases b <;> simp [dashOf, hc]

theorem not_mem_gap {c : Char} (hg : ∀ c ∈ g, isGap c = true) (hc : isGap c = false) : c ∉ g :=
  fun hin => by simp [hg c hin] at hc

/-- There is no opening brace in what follows the opening of a tag, if its word is an ordinary one. -/
theorem not_mem_tag {v : List Char} (b : Bool) (hg : ∀ c ∈ g, isGap c = true)
    (hord : keyword.toList.all isOrdinary = true) (hv : '\x7b' ∉ v) :
    '\x7b' ∉ dashOf b ++ (g ++ (keyword.toList ++ v)) := by
  simp only [List.mem_append, not_or]
  exact ⟨not_mem_dashOf (by decide) _, not_mem_gap hg (by decide),
    fun hin => absurd (List.all_eq_true.1 hord _ hin) (by decide), hv⟩

/-- **A tag with another word yields nothing.** -/
theorem yields_quiet (hk : isQuiet keyword = true) (hord : keyword.toList.all isOrdinary = true)
    (hp : ∀ rest, Keeps (InTag rest) p) : Yields [] (Page.tagOf keyword p) fun _ => [] := by
  intro s a r h
  refine ⟨fun _ hr => hr, fun hs _ => ?_⟩
  obtain ⟨g, u, g', hlaid, hg, hread, hg'⟩ := tagOf_eq_some h
  have hraw : rawTag "raw" s = none := by
    rw [hlaid]
    exact rawTag_of_isQuiet hk hg
  obtain ⟨v, rfl, hv, -, hr⟩ := hs.tag hlaid hg hraw hord fun rest hin =>
    eq_of_closing hg' (hp rest _ _ _ hread hin)
  refine ⟨hr, ?_⟩
  have hfound := found_quiet (r := r) (not_mem_tag a.1.before hg hord hv) (by simpa [hlaid] using hraw) fun w => by
    have hnone := reader_of_isQuiet (s := v ++ w) (b := a.1.before) hk hg
    simpa using hnone
  rw [hlaid]
  simpa using hfound

/-- The words of tags that ask for pages are ordinary, and none begins like that of a raw text. -/
theorem of_asking (hk : keyword ∈ ["include", "import", "extends"]) :
    keyword.toList.all isOrdinary = true ∧ isWord keyword = true ∧
      ∀ t, word "raw" (keyword.toList ++ t) = none := by
  simp only [List.mem_cons, List.not_mem_nil, or_false] at hk
  rcases hk with rfl | rfl | rfl <;> exact ⟨by decide, by decide, fun t => rfl⟩

/-- **A tag that asks for a page yields what it asks for**, if what it says is laid out as names and
whatever makes the request optional. -/
theorem yields_asking {f : α → Reference} (hk : keyword ∈ ["include", "import", "extends"])
    (hp : ∀ rest, Keeps (InTag rest) p)
    (hread : ∀ s a r rest, p s = some (a, r) → InTag rest s → everywhere isSpacedOnce s = true →
      (f a).IsPlain → ∃ g l m, s = g ++ (l ++ (m ++ r)) ∧ g ≠ [] ∧ (∀ c ∈ g, isGap c = true) ∧
        Names l (f a).candidates ∧ '%' ∉ m ∧ ∀ w, (∀ c ∈ w, isGap c = true ∨ c = '-') →
          (before (word optionalWords) (m ++ w)).isSome = (f a).optional) :
    Yields [] (Page.tagOf keyword p) fun x => [f x.2] := by
  intro s x r h
  obtain ⟨d, a⟩ := x
  refine ⟨List.nil_subset _, fun hs hplain => ?_⟩
  obtain ⟨g, u, g', hlaid, hg, hpu, hg'⟩ := tagOf_eq_some h
  obtain ⟨hord, hword, hnotraw⟩ := of_asking hk
  have hraw : rawTag "raw" s = none := by
    rw [hlaid, Reference.rawTag, behind_opening hword (isSpace_of_gap hg)]
    exact bind_of_none (hnotraw _)
  obtain ⟨v, rfl, hv, hin, hr⟩ := hs.tag hlaid hg hraw hord fun rest hin =>
    eq_of_closing hg' (hp rest _ _ _ hpu hin)
  have hspaced : everywhere isSpacedOnce (v ++ r) = true := by
    refine everywhere_append (l := '\x7b' :: '%' :: (dashOf d.before ++ (g ++ keyword.toList))) ?_
    simpa [hlaid] using hs.words
  obtain ⟨g₁, l, m, hlist, hne, hg₁, hnames, hm, hoptional⟩ :=
    hread _ _ _ _ hpu hin hspaced (hplain _ (by simp))
  have hends : ∀ c ∈ g' ++ dashOf d.after, isGap c = true ∨ c = '-' := by
    intro c hc
    rcases List.mem_append.1 hc with hc | hc
    · exact .inl (hg' c hc)
    · refine .inr (Classical.byContradiction fun hne => not_mem_dashOf hne _ hc)
  have hpercent : '%' ∉ m ++ (g' ++ dashOf d.after) := by
    simp only [List.mem_append, not_or]
    exact ⟨hm, not_mem_gap hg' (by decide), not_mem_dashOf (by decide) _⟩
  obtain rfl : v = g₁ ++ (l ++ (m ++ (g' ++ (dashOf d.after ++ ['%', '\x7d'])))) := by
    refine (List.append_left_inj r).1 ?_
    rw [hlist]
    simp
  have hfound := fun w => reader_named (b := d.before) (v := w) hk (isSpace_of_gap hg) hne (isSpace_of_gap hg₁)
    hnames hpercent
  rw [hoptional _ hends] at hfound
  refine ⟨hr, ?_⟩
  have hone := found_asking (not_mem_tag d.before hg hord hv) (by simpa [hlaid] using hraw) (fun w => by simpa using hfound w)
    (hplain (f a) (by simp)).1
  rw [hlaid]
  simpa using hone

/-! ## Tags that ask for a page -/

theorem not_optional {w m : List Char} (hm : 'i' ∉ m) (hw : ∀ c ∈ w, isGap c = true ∨ c = '-') :
    (before (word optionalWords) (m ++ w)).isSome = false := by
  rw [optionalWords_of_not_mem]
  · rfl
  · rw [List.mem_append]
    rintro (hin | hin)
    · exact hm hin
    · rcases hw _ hin with h | h <;> exact absurd h (by decide)

/-- The words that make an inclusion optional, if they are there. -/
theorem optional_of_given {b : Bool} (hs : everywhere isSpacedOnce s = true)
    (h : given (do symbol "ignore"; symbol "missing") s = some (b, r)) :
    ∃ m, s = m ++ r ∧ '%' ∉ m ∧ ∀ g w, (∀ c ∈ g, isGap c = true) → (∀ c ∈ w, isGap c = true ∨ c = '-') →
      (before (word optionalWords) (g ++ (m ++ w))).isSome = b := by
  rcases given_eq_some.1 h with ⟨rfl, a, h⟩ | ⟨rfl, -, rfl⟩
  · obtain ⟨_, s₁, hignore, hmissing⟩ := bind_eq_some.1 h
    obtain ⟨t₁, hword₁, hgap₁⟩ := token_eq_some.1 hignore
    obtain ⟨t₂, hword₂, hgap₂⟩ := token_eq_some.1 hmissing
    obtain ⟨g₁, rfl, hg₁, hend⟩ := gap_eq_some.1 hgap₁
    obtain ⟨g₂, rfl, hg₂, -⟩ := gap_eq_some.1 hgap₂
    obtain rfl := word_eq_some.1 hword₂
    obtain rfl := word_eq_some.1 hword₁
    -- a tidy text has one blank between the words
    have hone : g₁ = [' '] := by
      have hcheck : isSpacedOnce ("ignore".toList ++ (g₁ ++ ("missing".toList ++ (g₂ ++ r)))) = true :=
        check_of_everywhere hs
      have hloose : looseWords ("ignore".toList ++ (g₁ ++ ("missing".toList ++ (g₂ ++ r)))) =
          some (g₁, g₂ ++ r) := by
        rw [looseWords, bind_of_some (word_append _ _), bind_of_some (run_append hg₁ hend),
          bind_of_some (word_append _ _)]
        rfl
      rw [isSpacedOnce, hloose] at hcheck
      simpa using hcheck
    subst hone
    refine ⟨"ignore".toList ++ (' ' :: ("missing".toList ++ g₂)), by simp, ?_, fun g w _ _ => ?_⟩
    · have hpercent := not_mem_gap (c := '%') hg₂ (by decide)
      simpa using hpercent
    · exact isSome_optionalWords (u := g) (w := g₂ ++ w) (by simp [optionalWords])
  · refine ⟨[], rfl, by simp, fun g w hg hw => ?_⟩
    rw [List.nil_append]
    exact not_optional (not_mem_gap hg (by decide)) hw

theorem keeps_pages : ∀ rest, Keeps (InTag rest) Page.pages := fun _ =>
  Grammar.keeps_quoted.map.orElse ((keeps_symbol (by decide)).bind fun _ =>
    (Grammar.keeps_separated (keeps_token Grammar.keeps_quoted)).bind fun _ =>
      (keeps_word (by decide)).bind fun _ => .pure _)

/-- **An inclusion yields what it names.** -/
theorem yields_inclusion : Yields [] Page.inclusion Piece.requestsOf := by
  have htag := yields_asking (f := fun x : List String × Bool => { candidates := x.1, optional := x.2 })
    (p := do
      gap1
      let ps ← Page.pages
      gap
      let optional ← given (do symbol "ignore"; symbol "missing")
      return (ps, optional)) (show "include" ∈ _ by simp)
    (fun rest => keeps_gap1.bind fun _ => (keeps_pages rest).bind fun _ => keeps_gap.bind fun _ =>
      (Keeps.given ((keeps_symbol (by decide)).bind fun _ => keeps_symbol (by decide))).bind
        fun _ => .pure _) ?_
  · exact htag.bind fun x => .pure rfl
  · intro s x r rest h hs hspaced hplain
    obtain ⟨_, s₁, hgap, h₁⟩ := bind_eq_some.1 h
    obtain ⟨ps, s₂, hpages, h₂⟩ := bind_eq_some.1 h₁
    obtain ⟨_, s₃, hgap', h₃⟩ := bind_eq_some.1 h₂
    obtain ⟨b, s₄, hgiven, h₄⟩ := bind_eq_some.1 h₃
    obtain ⟨rfl, rfl⟩ := pure_eq_some.1 h₄
    obtain ⟨l, rfl, hnames⟩ := names_of_pages hpages (keeps_gap1 _ _ _ hgap hs) hplain.2
    obtain ⟨g₁, hne, rfl, hg₁, -⟩ := gap1_eq_some.1 hgap
    obtain ⟨g₂, rfl, hg₂, -⟩ := gap_eq_some.1 hgap'
    have hspaced' : everywhere isSpacedOnce s₃ = true := by
      refine everywhere_append (l := g₁ ++ (l ++ g₂)) ?_
      simpa using hspaced
    obtain ⟨m, rfl, hm, hoptional⟩ := optional_of_given hspaced' hgiven
    refine ⟨g₁, l, g₂ ++ m, by simp, hne, hg₁, hnames, ?_, fun w hw => ?_⟩
    · simp only [List.mem_append, not_or]
      exact ⟨not_mem_gap hg₂ (by decide), hm⟩
    · rw [List.append_assoc]
      exact hoptional g₂ w hg₂ hw

/-- **The naming of the parent yields the parent.** -/
theorem yields_parentTag : Yields [] Page.parentTag fun t => [needing t.2] := by
  have htag := yields_asking (f := needing) (p := do gap1; Grammar.quoted)
    (show "extends" ∈ _ by simp)
    (fun rest => keeps_gap1.bind fun _ => Grammar.keeps_quoted) ?_
  · exact yields_gap.bind fun _ => htag.bind fun x => (yields_gap.silent _).bind fun _ => .pure rfl
  · intro s n r rest h hs _ hplain
    obtain ⟨_, s₁, hgap, hquoted⟩ := bind_eq_some.1 h
    obtain ⟨l, rfl, hnames⟩ := names_of_quoted hquoted (keeps_gap1 _ _ _ hgap hs)
      (hplain.2 n (by simp [needing]))
    obtain ⟨g₁, hne, rfl, hg₁, -⟩ := gap1_eq_some.1 hgap
    exact ⟨g₁, l, [], by simp, hne, hg₁, hnames, by simp, fun w hw => not_optional (by simp) hw⟩

/-- A name is a row of characters of names. -/
theorem chars_of_name {n : String} (h : Grammar.name s = some (n, r)) :
    ∃ l, s = l ++ r ∧ ∀ c ∈ l, Grammar.isNameChar c = true := by
  obtain ⟨c, s₁, hfirst, h₁⟩ := bind_eq_some.1 h
  obtain ⟨cs, s₂, hrun, h₂⟩ := bind_eq_some.1 h₁
  obtain ⟨rfl, rfl⟩ := pure_eq_some.1 h₂
  obtain ⟨hc, rfl⟩ := charWhere_eq_some.1 hfirst
  obtain ⟨rfl, hcs, -⟩ := run_eq_some.1 hrun
  refine ⟨c :: cs, rfl, List.forall_mem_cons.2 ⟨?_, hcs⟩⟩
  simp only [Grammar.isNameStart, Bool.or_eq_true, Grammar.isNameChar, Char.isAlphanum] at hc ⊢
  exact hc.imp Or.inl id

/-- What ends a tag is in no name. -/
theorem not_isNameChar {c : Char} (h : isGap c = true ∨ c = '-') : Grammar.isNameChar c = false := by
  rcases h with hgap | rfl
  · simp only [isGap, Bool.or_eq_true, beq_iff_eq] at hgap
    rcases hgap with ((rfl | rfl) | rfl) | rfl <;> decide
  · decide

/-- **An import yields the page that it names.** -/
theorem yields_importTag : Yields [] Page.importTag fun i => [needing i.2.1] := by
  have htag := yields_asking (f := fun x : String × String => needing x.1)
    (p := do
      gap1
      let page ← Grammar.quoted
      gap1
      word "as"
      gap1
      let n ← Grammar.name
      return (page, n)) (show "import" ∈ _ by simp)
    (fun rest => keeps_gap1.bind fun _ => Grammar.keeps_quoted.bind fun _ => keeps_gap1.bind fun _ =>
      (keeps_word (by decide)).bind fun _ => keeps_gap1.bind fun _ => Grammar.keeps_name.bind
        fun _ => .pure _) ?_
  · exact yields_gap.bind fun _ => htag.bind fun x => (yields_gap.silent _).bind fun _ => .pure rfl
  · intro s x r rest h hs _ hplain
    obtain ⟨_, s₁, hgap, h₁⟩ := bind_eq_some.1 h
    obtain ⟨page, s₂, hquoted, h₂⟩ := bind_eq_some.1 h₁
    obtain ⟨_, s₃, hgap₂, h₃⟩ := bind_eq_some.1 h₂
    obtain ⟨_, s₄, hword, h₄⟩ := bind_eq_some.1 h₃
    obtain ⟨_, s₅, hgap₃, h₅⟩ := bind_eq_some.1 h₄
    obtain ⟨n, s₆, hname, h₆⟩ := bind_eq_some.1 h₅
    obtain ⟨rfl, rfl⟩ := pure_eq_some.1 h₆
    obtain ⟨l, rfl, hnames⟩ := names_of_quoted hquoted (keeps_gap1 _ _ _ hgap hs)
      (hplain.2 page (by simp [needing]))
    obtain ⟨g₁, hne, rfl, hg₁, -⟩ := gap1_eq_some.1 hgap
    obtain ⟨g₂, -, rfl, hg₂, -⟩ := gap1_eq_some.1 hgap₂
    obtain rfl := word_eq_some.1 hword
    obtain ⟨g₃, -, rfl, hg₃, -⟩ := gap1_eq_some.1 hgap₃
    obtain ⟨cs, rfl, hchars⟩ := chars_of_name hname
    refine ⟨g₁, l, g₂ ++ ("as".toList ++ g₃) ++ cs, by simp, hne, hg₁, hnames, ?_, fun w hw => ?_⟩
    · simp only [List.mem_append, not_or]
      exact ⟨⟨not_mem_gap hg₂ (by decide), by decide, not_mem_gap hg₃ (by decide)⟩,
        fun hin => absurd (hchars _ hin) (by decide)⟩
    · rw [List.append_assoc, optionalWords_of_name hchars fun d hd => not_isNameChar (hw d hd)]
      · rfl
      · simp only [List.mem_append, not_or]
        exact ⟨not_mem_gap hg₂ (by decide), by decide, not_mem_gap hg₃ (by decide)⟩

/-! ## Tags with a body -/

theorem requestsIn_eq : ∀ pss : List (List Piece),
    Piece.requestsIn pss = pss.flatMap Piece.requests
  | [] => rfl
  | ps :: pss => by rw [Piece.requestsIn, requestsIn_eq pss, List.flatMap_cons]

theorem requests_eq : ∀ ps : List Piece, Piece.requests ps = ps.flatMap Piece.requestsOf
  | [] => rfl
  | p :: ps => by rw [Piece.requests, requests_eq ps, List.flatMap_cons]

theorem requests_foldr (final : Alternative) : ∀ further : List (Dashes × Expr × List Piece),
    (further.foldr (fun (d, e, ps) rest => Alternative.condition d e ps rest) final).requests
      = further.flatMap (fun x => Piece.requests x.2.2) ++ final.requests
  | [] => rfl
  | (d, e, ps) :: further => by
    rw [List.foldr_cons, Alternative.requests, requests_foldr final further, List.flatMap_cons,
      List.append_assoc]

theorem yields_bareTag (hk : isQuiet keyword = true)
    (hord : keyword.toList.all isOrdinary = true) (refs : List Reference) :
    Yields refs (Page.bareTag keyword) fun _ => refs :=
  .silent ((yields_quiet hk hord fun _ => .pure _).bind fun _ => .pure rfl) refs

theorem yields_namedEnd (hk : isQuiet keyword = true)
    (hord : keyword.toList.all isOrdinary = true) (refs : List Reference) :
    Yields refs (Page.namedEnd keyword) fun _ => refs := by
  have hkeeps : ∀ rest, Keeps (InTag rest) (do gap; let _ ← Reader.maybe Grammar.name) := fun _ =>
    keeps_gap.bind fun _ => (Keeps.maybe Grammar.keeps_name).bind fun _ => .pure _
  exact .silent ((yields_quiet hk hord hkeeps).bind fun _ => .pure rfl) refs

theorem yields_assignment : Yields [] Page.assignment Piece.requestsOf := by
  refine (yields_quiet (by decide) (by decide) fun rest => ?_).bind fun _ => .pure rfl
  exact keeps_gap1.bind fun _ => (keeps_token Grammar.keeps_name).bind fun _ =>
    (keeps_symbol (by decide)).bind fun _ => Grammar.keeps_expression.bind fun _ => .pure _

section

variable {body : Reader (List Piece)} (hbody : Yields [] body Piece.requests)

include hbody

theorem yields_block : Yields [] (Page.block body) Piece.requestsOf := by
  refine (yields_quiet (by decide) (by decide) fun rest => ?_).bind fun _ => hbody.bind fun ps =>
    (yields_namedEnd (by decide) (by decide) _).bind fun _ => .pure rfl
  exact keeps_gap1.bind fun _ => Grammar.keeps_name

theorem yields_definition : Yields [] (Page.definition body) Piece.requestsOf := by
  refine (yields_quiet (by decide) (by decide) fun rest => ?_).bind fun _ => hbody.bind fun ps =>
    (yields_namedEnd (by decide) (by decide) _).bind fun _ => .pure rfl
  have hparameter : Keeps (InTag rest) Page.parameter :=
    Grammar.keeps_name.bind fun _ => (Keeps.maybe ((keeps_word (by decide)).bind fun _ =>
      Grammar.keeps_literal)).bind fun _ => .pure _
  exact keeps_gap1.bind fun _ => (keeps_token Grammar.keeps_name).bind fun _ =>
    (keeps_symbol (by decide)).bind fun _ =>
      (Keeps.maybe ((keeps_token hparameter).sepBy1 (keeps_symbol (by decide)))).bind fun _ =>
        (keeps_symbol (by decide)).bind fun _ => .pure _

theorem yields_loop : Yields [] (Page.loop body) Piece.requestsOf := by
  have hempties : Yields [] (Reader.many (do let _ ← Page.bareTag "else"; body)) fun pss =>
      pss.flatMap Piece.requests :=
    ((yields_bareTag (by decide) (by decide) []).bind fun _ => hbody).many
  refine (yields_quiet (by decide) (by decide) fun rest => ?_).bind fun x => hbody.bind fun ps =>
    (hempties.after _).bind fun empties => (yields_bareTag (by decide) (by decide) _).bind fun _ => ?_
  · exact keeps_gap1.bind fun _ => Grammar.keeps_name.bind fun _ =>
      (Keeps.maybe ((keeps_symbol (by decide)).bind fun _ => Grammar.keeps_name)).bind fun _ =>
        keeps_gap1.bind fun _ => (keeps_word (by decide)).bind fun _ => keeps_gap1.bind fun _ =>
          Grammar.keeps_container.bind fun _ => .pure _
  · obtain ⟨d, first, second, e⟩ := x
    cases second <;> exact .pure (by rw [Piece.requestsOf, requestsIn_eq])

theorem yields_arm {condition : Reader Expr} (hk : isQuiet keyword = true)
    (hord : keyword.toList.all isOrdinary = true)
    (hcondition : ∀ rest, Keeps (InTag rest) condition) :
    Yields [] (Page.arm keyword condition body) fun x => Piece.requests x.2.2 := by
  refine (yields_quiet hk hord fun rest => ?_).bind fun _ => hbody.bind fun ps => .pure rfl
  exact keeps_gap1.bind fun _ => hcondition rest

theorem yields_choice : Yields [] (Page.choice body) Piece.requestsOf := by
  have hotherwise : Yields [] (do
      let d ← Page.bareTag "else"
      let ps ← body
      return (d, ps)) fun x => Piece.requests x.2 :=
    (yields_bareTag (by decide) (by decide) []).bind fun _ => hbody.bind fun ps => .pure rfl
  have hfirst : Yields [] (Page.arm "if" Grammar.expression body) fun x => Piece.requests x.2.2 :=
    yields_arm hbody (by decide) (by decide) fun _ => Grammar.keeps_expression
  have hfurther : Yields [] (Page.arm "elif" Grammar.condition body) fun x =>
      Piece.requests x.2.2 :=
    yields_arm hbody (by decide) (by decide) fun _ => Grammar.keeps_condition
  refine hfirst.bind fun x => (hfurther.many.after _).bind fun further =>
    (hotherwise.maybe.after _).bind fun otherwise =>
      (yields_bareTag (by decide) (by decide) _).bind fun last => .pure ?_
  rw [Piece.requestsOf, requests_foldr, List.append_assoc]
  cases otherwise <;> rfl

end

/-! ## Pieces, one after the other -/

/-- **Pieces yield what they ask for**, however deep they stand inside each other. -/
theorem yields_piecesTo : ∀ (n : Nat) (setting : Page.Setting),
    Yields [] (Page.piecesTo n setting) Piece.requests
  | 0, _ => fun s ps r h => by
    obtain ⟨rfl, rfl⟩ := Prod.mk.inj (Option.some.inj h)
    exact ⟨fun _ hr => hr, fun hs _ => ⟨hs, rfl⟩⟩
  | n + 1, setting => fun s ps r h => by
    rw [requests_eq]
    exact (yields_inclusion.orElse <| yields_inheritedPlace.onlyIf.orElse <|
      yields_value.orElse <| yields_comment.orElse <| yields_assignment.orElse <|
      (yields_definition (yields_piecesTo n _)).onlyIf.orElse <|
      (yields_block (yields_piecesTo n _)).onlyIf.orElse <|
      (yields_choice (yields_piecesTo n _)).orElse <|
      (yields_loop (yields_piecesTo n _)).orElse <|
      yields_raw.orElse yields_text).many s ps r h

/-- **A page yields what is written in it to ask for pages.** -/
theorem yields_writtenPage : Yields [] Page.writtenPage fun x =>
    (x.1.toList.map fun t => needing t.2) ++ (x.2.1.map fun i => needing i.2.1) ++
      Piece.requests x.2.2 := by
  have hcomments : Yields [] (Reader.many Page.comment) fun _ => [] := by
    have hcomment : Yields [] Page.comment fun _ => [] :=
      yields_comment.congr fun s piece r h => by
        obtain ⟨l, -, -, hnone⟩ := comment_of_comment h
        exact hnone.symm
    exact hcomment.many.congr fun s ps r _ => by simp
  have hpieces : Yields [] (fun s => Page.piecesTo (s.length + 1) .page s) Piece.requests :=
    fun s => yields_piecesTo (s.length + 1) .page s
  refine hcomments.bind fun _ => yields_parentTag.maybe.bind fun parent =>
    (yields_importTag.many.after _).bind fun imports => (hpieces.after _).bind fun pieces =>
      .pure ?_
  cases parent <;> simp [List.map_eq_flatMap]

end

namespace Page

/-- **The references of a tidy text are what is asked for in it**, if it is written like a page and the
names are plain. -/
theorem ofText_eq_asked {text : String} (hs : IsTidy text.toList)
    (hwritten : (whole? writtenPage text.toList).isSome = true)
    (hplain : ∀ q ∈ asked text, q.IsPlain) : Reference.ofText text = asked text := by
  obtain ⟨x, hx⟩ := Option.isSome_iff_exists.1 hwritten
  have hread := whole?_eq_some.1 hx
  have hasked : asked text = (x.1.toList.map fun t => needing t.2) ++
      (x.2.1.map fun i => needing i.2.1) ++ Piece.requests x.2.2 := by
    rw [asked, hx]
  rw [hasked] at hplain ⊢
  obtain ⟨-, hyields⟩ := yields_writtenPage _ _ _ hread
  obtain ⟨-, hfound⟩ := hyields hs hplain
  rw [ofText_eq, ← List.nil_append (found text.toList), hfound, found_nil, List.append_nil]

end Page

end QueryPress
