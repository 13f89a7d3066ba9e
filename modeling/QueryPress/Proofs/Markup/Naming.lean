import QueryPress.Proofs.Markup.Found

/-!
# Proofs/Markup/Naming — both readers take the same names from a tag

Names between double or single quotes are read alike, alone and in a list, as long as none of them is
empty or has a closing bracket in it (`names_of_pages`).  With white space and one blank between the
words that make an inclusion optional, that settles what a tag asks for: `reader_named` reads it off how
the tag is laid out, whatever stands behind it.
-/

namespace QueryPress

open Reader

/-- A name that a reader of references can take from between its quotes, in a list, too. -/
def IsPlainName (n : String) : Prop := n ≠ "" ∧ ']' ∉ n.toList

namespace Reference

variable {α β γ : Type} {p : Reader α} {f : α → List String} {s r l m rest : List Char} {a : α}
  {n : String} {ns : List String} {q : Char}

/-! ## Names in quotes -/

/-- What a page names in quotes stands between double or single ones, if it stands in a tag. -/
theorem exists_of_quoted (h : Grammar.quoted s = some (n, r)) (hs : InTag rest s) :
    ∃ q, (q = '"' ∨ q = '\'') ∧ s = q :: (n.toList ++ q :: r) ∧ q ∉ n.toList := by
  rcases orElse_eq_some.1 h with h | ⟨-, h⟩
  · exact ⟨_, .inl rfl, Grammar.quotedBy_eq_some.1 h⟩
  · rcases orElse_eq_some.1 h with h | ⟨-, h⟩
    · exact ⟨_, .inr rfl, Grammar.quotedBy_eq_some.1 h⟩
    · rw [(Grammar.quotedBy_eq_some.1 h).1] at hs
      simp [InTag, tagEnd?] at hs

theorem quotedBy_append (hn : n ≠ "") (hq : q ∉ n.toList) :
    quotedBy q (q :: (n.toList ++ q :: r)) = some (n, r) := by
  have hopen : ∀ t : List Char, charWhere (· == q) (q :: t) = some (q, t) := fun t =>
    charWhere_eq_some.2 ⟨beq_self_eq_true q, rfl⟩
  have hrun : run1 (· != q) (n.toList ++ q :: r) = some (n.toList, q :: r) :=
    run1_append (by simpa using hn) (fun c hc => by simpa using fun heq : c = q => hq (heq ▸ hc))
      (by simp)
  rw [quotedBy, bind_of_some (hopen _), bind_of_some hrun, bind_of_some (hopen _),
    String.ofList_toList]
  rfl

theorem quotedBy_eq_none {c : Char} (hc : c ≠ q) : quotedBy q (c :: s) = none :=
  bind_of_none (by simp [charWhere, hc])

theorem quoted_append (hq : q = '"' ∨ q = '\'') (hn : n ≠ "") (hout : q ∉ n.toList) :
    quoted (q :: (n.toList ++ q :: r)) = some (n, r) := by
  rcases hq with rfl | rfl
  · exact orElse_eq_some.2 (.inl (quotedBy_append hn hout))
  · exact orElse_eq_some.2 (.inr ⟨quotedBy_eq_none (by decide), quotedBy_append hn hout⟩)

theorem quoted_eq_none {c : Char} (hdouble : c ≠ '"') (hsingle : c ≠ '\'') :
    quoted (c :: s) = none :=
  orElse_eq_none.2 ⟨quotedBy_eq_none hdouble, quotedBy_eq_none hsingle⟩

/-! ## Names in a list -/

/-- What a reader of pages takes in a list holds these names for the reader of references. -/
def Lists (p : Reader α) (f : α → List String) : Prop :=
  ∀ s a r rest, p s = some (a, r) → InTag rest s → (∀ n ∈ f a, IsPlainName n) →
    ∃ l, s = l ++ r ∧ ']' ∉ l ∧ ∀ v, scan quoted (l ++ v) = f a ++ scan quoted v

theorem Lists.of_silent (h : ∀ s a r, p s = some (a, r) →
    ∃ l, s = l ++ r ∧ ∀ c ∈ l, c ≠ '"' ∧ c ≠ '\'' ∧ c ≠ ']') : Lists p fun _ => [] := by
  intro s a r rest hp _ _
  obtain ⟨l, rfl, hl⟩ := h s a r hp
  refine ⟨l, rfl, fun hin => (hl _ hin).2.2 rfl, fun v => ?_⟩
  exact scan_append_of_none fun c hc s => quoted_eq_none (hl c hc).1 (hl c hc).2.1

theorem lists_gap : Lists gap fun _ => [] := .of_silent fun s _ r h => by
  obtain ⟨g, rfl, hg, -⟩ := gap_eq_some.1 h
  refine ⟨g, rfl, fun c hc => ?_⟩
  have hgap := hg c hc
  refine ⟨?_, ?_, ?_⟩ <;> rintro rfl <;> exact absurd hgap (by decide)

theorem lists_word (t : String) (ht : ∀ c ∈ t.toList, c ≠ '"' ∧ c ≠ '\'' ∧ c ≠ ']') :
    Lists (word t) fun _ => [] :=
  .of_silent fun _ _ _ h => ⟨_, word_eq_some.1 h, ht⟩

theorem lists_quoted : Lists Grammar.quoted fun n => [n] := by
  intro s n r rest h hs hplain
  obtain ⟨q, hq, rfl, hout⟩ := exists_of_quoted h hs
  obtain ⟨hne, hbracket⟩ := hplain n (by simp)
  refine ⟨q :: (n.toList ++ [q]), by simp, ?_, fun v => ?_⟩
  · rcases hq with rfl | rfl <;> simpa using hbracket
  · have hread := quoted_append (r := v) hq hne hout
    have hscan := scan_append_of_some (p := quoted) (l := q :: (n.toList ++ [q])) (r := v) (a := n)
      (by simp) (by simpa using hread)
    exact hscan

theorem Lists.andThen {q : Reader β} {g : β → List String} {h : α → β → γ} {k : γ → List String}
    (hp : Lists p f) (hkeeps : ∀ rest, Keeps (InTag rest) p) (hq : Lists q g)
    (hk : ∀ a b, k (h a b) = f a ++ g b) : Lists (do let a ← p; let b ← q; return h a b) k := by
  intro s x r rest hx hs hplain
  obtain ⟨a, s₁, ha, h₁⟩ := bind_eq_some.1 hx
  obtain ⟨b, s₂, hb, h₂⟩ := bind_eq_some.1 h₁
  obtain ⟨rfl, rfl⟩ := pure_eq_some.1 h₂
  rw [hk] at hplain ⊢
  obtain ⟨hplain₁, hplain₂⟩ := List.forall_mem_append.1 hplain
  obtain ⟨l₁, rfl, hl₁, hscan₁⟩ := hp _ _ _ _ ha hs hplain₁
  obtain ⟨l₂, rfl, hl₂, hscan₂⟩ := hq _ _ _ _ hb (hkeeps rest _ _ _ ha hs) hplain₂
  refine ⟨l₁ ++ l₂, by simp, by simp [hl₁, hl₂], fun v => ?_⟩
  rw [List.append_assoc, hscan₁, hscan₂, List.append_assoc]

theorem Lists.behind {q : Reader β} (hp : Lists p fun _ => []) (hkeeps : ∀ rest, Keeps (InTag rest) p)
    {g : β → List String} (hq : Lists q g) : Lists (do let _ ← p; q) g := by
  intro s b r rest h hs hplain
  obtain ⟨a, s₁, ha, hb⟩ := bind_eq_some.1 h
  obtain ⟨l₁, rfl, hl₁, hscan₁⟩ := hp _ _ _ _ ha hs (by simp)
  obtain ⟨l₂, rfl, hl₂, hscan₂⟩ := hq _ _ _ _ hb (hkeeps rest _ _ _ ha hs) hplain
  refine ⟨l₁ ++ l₂, by simp, by simp [hl₁, hl₂], fun v => ?_⟩
  rw [List.append_assoc, hscan₁, hscan₂, List.nil_append]

theorem Lists.map {h : α → β} {k : β → List String} (hp : Lists p f) (hk : ∀ a, k (h a) = f a) :
    Lists (do return h (← p)) k := by
  intro s b r rest hx hs hplain
  obtain ⟨a, s₁, ha, h₁⟩ := bind_eq_some.1 hx
  obtain ⟨rfl, rfl⟩ := pure_eq_some.1 h₁
  rw [hk] at hplain ⊢
  exact hp _ _ _ _ ha hs hplain

/-- Where a reader refuses, nothing is listed. -/
theorem lists_here (hs : s = r) : ∃ l, s = l ++ r ∧ ']' ∉ l ∧
    ∀ v, scan quoted (l ++ v) = [] ++ scan quoted v := ⟨[], hs, by simp, fun _ => rfl⟩

theorem Lists.given (hp : Lists p fun _ => []) : Lists (Reader.given p) fun _ => [] := by
  intro s b r rest h hs hplain
  rcases given_eq_some.1 h with ⟨-, a, h⟩ | ⟨-, -, heq⟩
  · exact hp _ _ _ _ h hs hplain
  · exact lists_here heq

theorem Lists.maybe (hp : Lists p f) : Lists (Reader.maybe p) fun o => o.elim [] f := by
  intro s o r rest h hs hplain
  rcases maybe_eq_some.1 h with ⟨a, rfl, ha⟩ | ⟨rfl, -, heq⟩
  · exact hp _ _ _ _ ha hs hplain
  · exact lists_here heq

theorem Lists.manyUpTo (hp : Lists p f) (hkeeps : ∀ rest, Keeps (InTag rest) p) :
    ∀ k : Nat, Lists (Reader.manyUpTo p k) fun as => as.flatMap f
  | 0 => fun s as r rest h hs hplain => by
    obtain ⟨rfl, heq⟩ := Prod.mk.inj (Option.some.inj h)
    exact lists_here heq
  | k + 1 => fun s as r rest h hs hplain => by
    obtain ⟨rfl, -, heq⟩ | ⟨a, s₁, as', rfl, ha, hrest⟩ := manyUpTo_succ_eq_some.1 h
    · exact lists_here heq
    · simp only [List.flatMap_cons] at hplain ⊢
      obtain ⟨hplain₁, hplain₂⟩ := List.forall_mem_append.1 hplain
      obtain ⟨l₁, rfl, hl₁, hscan₁⟩ := hp _ _ _ _ ha hs hplain₁
      obtain ⟨l₂, rfl, hl₂, hscan₂⟩ :=
        Lists.manyUpTo hp hkeeps k _ _ _ _ hrest (hkeeps rest _ _ _ ha hs) hplain₂
      refine ⟨l₁ ++ l₂, by simp, by simp [hl₁, hl₂], fun v => ?_⟩
      rw [List.append_assoc, hscan₁, hscan₂, List.append_assoc]

theorem Lists.many (hp : Lists p f) (hkeeps : ∀ rest, Keeps (InTag rest) p) :
    Lists (Reader.many p) fun as => as.flatMap f := fun s => hp.manyUpTo hkeeps s.length s

theorem lists_token (hp : Lists p f) (hkeeps : ∀ rest, Keeps (InTag rest) p) :
    Lists (token p) f :=
  Lists.andThen (h := fun a _ => a) hp hkeeps lists_gap fun _ _ => (List.append_nil _).symm

theorem lists_comma : Lists (symbol ",") fun _ => [] :=
  lists_token (lists_word "," (by simp)) fun _ => keeps_word (by decide)

/-- Names in quotes with commas in between are listed. -/
theorem lists_separated : Lists (Grammar.separated (token Grammar.quoted)) fun ns => ns := by
  have hkeeps : ∀ rest, Keeps (InTag rest) (token Grammar.quoted) := fun _ =>
    keeps_token Grammar.keeps_quoted
  have hcomma : ∀ rest, Keeps (InTag rest) (symbol ",") := fun _ => keeps_symbol (by decide)
  have hitem : Lists (token Grammar.quoted) fun n => [n] :=
    lists_token lists_quoted fun _ => Grammar.keeps_quoted
  have hmore : Lists (Reader.many (do let _ ← symbol ","; token Grammar.quoted)) fun ns =>
      ns.flatMap fun n => [n] :=
    (lists_comma.behind hcomma hitem).many fun rest => (hcomma rest).bind fun _ => hkeeps rest
  have hall : Lists (sepBy1 (token Grammar.quoted) (symbol ",")) fun ns => ns :=
    hitem.andThen hkeeps hmore fun _ _ => by simp
  have hclosed := Lists.andThen (h := fun ns _ => ns) (k := fun ns => ns) hall
    (fun rest => (hkeeps rest).sepBy1 (hcomma rest)) lists_comma.given fun _ _ => by simp
  exact hclosed.maybe.map fun o => by cases o <;> rfl

/-! ## The names of a tag -/

/-- **A text stands for these names** in a tag, whatever stands behind it. -/
structure Names (l : List Char) (ns : List String) : Prop where
  read : ∀ v, ((do return [← quoted]) <|> bracketed : Reader (List String)) (l ++ v) = some (ns, v)
  tight : ∀ v c, (l ++ v).head? = some c → Text.isSpace c = false

/-- A name in quotes is read from between them. -/
theorem names_quoted (hq : q = '"' ∨ q = '\'') (hn : n ≠ "") (hout : q ∉ n.toList) :
    Names (q :: (n.toList ++ [q])) [n] where
  read v := by
    refine orElse_eq_some.2 (.inl ?_)
    rw [List.cons_append, List.append_assoc]
    exact bind_of_some (quoted_append (r := v) hq hn hout)
  tight v c hc := by
    obtain rfl := Option.some.inj hc
    rcases hq with rfl | rfl <;> rfl

theorem names_of_quoted (h : Grammar.quoted s = some (n, r)) (hs : InTag rest s)
    (hn : IsPlainName n) : ∃ l, s = l ++ r ∧ Names l [n] := by
  obtain ⟨q, hq, rfl, hout⟩ := exists_of_quoted h hs
  exact ⟨q :: (n.toList ++ [q]), by simp, names_quoted hq hn.1 hout⟩

/-- Candidates in brackets are read from what stands between these. -/
theorem names_bracketed (hscan : scan quoted l = ns) (hl : ']' ∉ l) : Names ('[' :: (l ++ [']'])) ns where
  read v := by
    have hnone : (do return [← quoted] : Reader (List String)) ('[' :: (l ++ [']']) ++ v) = none :=
      bind_of_none (quoted_eq_none (by decide) (by decide))
    have hword : word "[" ('[' :: (l ++ [']']) ++ v) = some ((), l ++ ']' :: v) :=
      word_eq_some.2 (by simp)
    have hrun : run (· != ']') (l ++ ']' :: v) = some (l, ']' :: v) :=
      run_append (fun c hc => by simpa using fun heq : c = ']' => hl (heq ▸ hc)) (by simp)
    have hword' : word "]" (']' :: v) = some ((), v) := word_append "]" v
    refine orElse_eq_some.2 (.inr ⟨hnone, ?_⟩)
    rw [bracketed, bind_of_some hword, bind_of_some hrun, bind_of_some hword', hscan]
    rfl
  tight v c hc := by
    obtain rfl := Option.some.inj hc
    rfl

/-- **A page and a list of pages** are named alike for both readers. -/
theorem names_of_pages (h : Page.pages s = some (ns, r)) (hs : InTag rest s)
    (hplain : ∀ n ∈ ns, IsPlainName n) : ∃ l, s = l ++ r ∧ Names l ns := by
  rcases orElse_eq_some.1 h with h | ⟨-, h⟩
  · obtain ⟨n, s₁, hn, h₁⟩ := bind_eq_some.1 h
    obtain ⟨rfl, rfl⟩ := pure_eq_some.1 h₁
    exact names_of_quoted hn hs (hplain n (by simp))
  · obtain ⟨_, s₁, hopen, h₁⟩ := bind_eq_some.1 h
    obtain ⟨all, s₂, hall, h₂⟩ := bind_eq_some.1 h₁
    obtain ⟨_, s₃, hclose, h₃⟩ := bind_eq_some.1 h₂
    obtain ⟨rfl, rfl⟩ := pure_eq_some.1 h₃
    obtain ⟨t, hbracket, hgap⟩ := token_eq_some.1 hopen
    have hs' : InTag rest t := keeps_word (by decide) _ _ _ hbracket hs
    obtain ⟨g, rfl, hg, hscan⟩ := lists_gap _ _ _ _ hgap hs' (by simp)
    obtain ⟨l, rfl, hl, hscan'⟩ := lists_separated _ _ _ _ hall (keeps_gap _ _ _ hgap hs') hplain
    rw [word_eq_some.1 hbracket, word_eq_some.1 hclose]
    have hinner : scan quoted (g ++ l) = all := by
      have heq := hscan (l ++ [])
      rw [hscan', List.append_nil, show scan quoted [] = [] from rfl] at heq
      simpa using heq
    have hout : ']' ∉ g ++ l := fun hin => (List.mem_append.1 hin).elim hg hl
    exact ⟨'[' :: (g ++ l ++ [']']), by simp, names_bracketed hinner hout⟩

/-- **What a tag asks for is read off how it is laid out.** -/
theorem reader_named {keyword : String} {b : Bool} {g g₁ v : List Char}
    (hk : keyword ∈ ["include", "import", "extends"]) (hg : ∀ c ∈ g, Text.isSpace c = true)
    (hne : g₁ ≠ []) (hg₁ : ∀ c ∈ g₁, Text.isSpace c = true) (hl : Names l ns) (hm : '%' ∉ m) :
    reader ('\x7b' :: '%' :: (dashOf b ++ (g ++ (keyword.toList ++ (g₁ ++ (l ++
      (m ++ '%' :: '\x7d' :: v))))))) =
        some ({ candidates := ns, optional := (before (word optionalWords) m).isSome }, v) := by
  have hword : isWord keyword = true ∧ ∀ t, askingWord (keyword.toList ++ t) = some ((), t) := by
    simp only [List.mem_cons, List.not_mem_nil, or_false] at hk
    rcases hk with rfl | rfl | rfl <;> exact ⟨by decide, fun t => rfl⟩
  have hrun : run (· != '%') (m ++ '%' :: '\x7d' :: v) = some (m, '%' :: '\x7d' :: v) :=
    run_append (fun c hc => by simpa using fun heq : c = '%' => hm (heq ▸ hc)) (by simp)
  have hclose : word "%\x7d" ('%' :: '\x7d' :: v) = some ((), v) := word_append "%\x7d" v
  rw [reader, behind_opening hword.1 hg, bind_of_some (hword.2 _),
    bind_of_some (spaces1_append hne hg₁ (hl.tight _)), bind_of_some (hl.read _), bind_of_some hrun,
    bind_of_some hclose]
  rfl

/-! ## The words by which an inclusion is optional -/

theorem isSome_optionalWords {u w : List Char} (h : m = u ++ (optionalWords.toList ++ w)) :
    (before (word optionalWords) m).isSome = true := by
  rw [h]
  exact before_isSome (by rw [word_append]; rfl)

/-- They are not where nothing begins like them. -/
theorem optionalWords_eq_none (h : ∀ u w, m ≠ u ++ (optionalWords.toList ++ w)) :
    before (word optionalWords) m = none :=
  before_eq_none fun u v huv => word_eq_none fun ⟨w, hw⟩ => h u w (by rw [huv, hw])

theorem optionalWords_of_not_mem (h : 'i' ∉ m) : before (word optionalWords) m = none := by
  refine optionalWords_eq_none fun u w heq => h ?_
  rw [heq]
  exact List.mem_append_right _ List.mem_cons_self

/-- Behind a blank that follows on a name there is no more of the name. -/
theorem isNameChar_behind {w z : List Char} (hw : ∀ c ∈ w, Grammar.isNameChar c = false) :
    ∀ {y u : List Char}, (∀ c ∈ y, Grammar.isNameChar c = true) → y ++ w = u ++ ' ' :: z →
      ∀ c ∈ z, Grammar.isNameChar c = false
  | [], u, _, heq => fun c hc => hw c (by
    rw [List.nil_append] at heq
    exact heq ▸ List.mem_append_right _ (List.mem_cons_of_mem _ hc))
  | d :: y, [], hy, heq => by
    obtain ⟨rfl, -⟩ := List.cons.inj heq
    exact absurd (hy _ List.mem_cons_self) (by decide)
  | d :: y, _ :: u, hy, heq =>
    isNameChar_behind hw (fun c hc => hy c (List.mem_cons_of_mem _ hc)) (List.cons.inj heq).2

/-- They are not in a name, nor across its end. -/
theorem optionalWords_of_name {y w : List Char} (hy : ∀ c ∈ y, Grammar.isNameChar c = true)
    (hw : ∀ c ∈ w, Grammar.isNameChar c = false) : ∀ {x : List Char}, 'i' ∉ x →
      before (word optionalWords) (x ++ (y ++ w)) = none := by
  have hnot : ∀ {x : List Char}, 'i' ∉ x → ∀ u z, x ++ (y ++ w) ≠ u ++ (optionalWords.toList ++ z) := by
    intro x hx u z heq
    induction x generalizing u with
    | nil =>
      have hblank : y ++ w = (u ++ "ignore".toList) ++ ' ' :: ("missing".toList ++ z) := by
        rw [List.nil_append] at heq
        rw [heq, List.append_assoc]
        rfl
      exact absurd (isNameChar_behind hw hy hblank 'm' List.mem_cons_self) (by decide)
    | cons d x ih =>
      obtain ⟨hd, hx⟩ : 'i' ≠ d ∧ 'i' ∉ x := by simpa using hx
      cases u with
      | nil => exact hd (List.cons.inj heq).1.symm
      | cons e u => exact ih hx u (List.cons.inj heq).2
  intro x hx
  exact optionalWords_eq_none (hnot hx)

end Reference

end QueryPress
