import QueryPress.Merge.Filter
import QueryPress.Proofs.Json.Escaping
import QueryPress.Proofs.Json.WholeNumbers
import QueryPress.Proofs.Table

/-!
# Proofs/Json/RoundTrip — a value that was written is read back

A JSON text begins with a character that tells what kind of value it is, and no reader of another kind takes
it.  So a value that was written is read back as what it was, by induction on the value
(`IsWhole.value_write`): the elements of an array and the members of an object stand in a row with commas in
between, and each is read up to what ends it (`maybe_sepBy1_row`).
-/

namespace QueryPress.Json

open Reader

variable {α β : Type} {p q : Reader α} {a : α} {c : Char} {s r : List Char} {depth : Nat} {v : Json}

/-- **A value of whole numbers** — every number in it is an integer that fits a 64-bit word, and the members
of its objects are in order. -/
inductive IsWhole : Json → Prop
  | null : IsWhole .null
  | bool (b : Bool) : IsWhole (.bool b)
  | number {n : Int} (h : (Number.isSigned n || Number.isUnsigned n) = true) :
      IsWhole (.number (.whole n))
  | string (s : String) : IsWhole (.string s)
  | array {items : List Json} (h : ∀ v ∈ items, IsWhole v) : IsWhole (.array items)
  | object {members : List (String × Json)} (hnames : Table.InOrder members)
      (h : ∀ p ∈ members, IsWhole p.2) : IsWhole (.object members)

/-! ## Tokens -/

/-- A text that does not begin with white space. -/
def Solid (s : List Char) : Prop := ∀ c, s.head? = some c → isGap c = false

theorem solid_cons (h : isGap c = false) (s : List Char) : Solid (c :: s) :=
  fun _ hd => Option.some.inj hd ▸ h

theorem Ends.solid (h : Ends r) : Solid r := h.head rfl

theorem gap_of_solid (h : Solid s) : gap s = some ((), s) := gap_eq_some.2 ⟨[], rfl, nofun, h⟩

theorem token_of_solid (h : p s = some (a, r)) (hr : Solid r) : token p s = some (a, r) :=
  token_eq_some.2 ⟨r, h, gap_of_solid hr⟩

theorem symbol_of_solid (t : String) (h : Solid s) : symbol t (t.toList ++ s) = some ((), s) :=
  token_of_solid (word_append t s) h

theorem orElse_of_some (h : p s = some (a, r)) : (p <|> q) s = some (a, r) :=
  orElse_eq_some.2 (.inl h)

theorem orElse_of_none (h : p s = none) : (p <|> q) s = q s := by
  rw [orElse_eq, h]
  rfl

/-! ## Rows -/

/-- Texts with commas in between, and a bracket behind them. -/
def row (text : α → List Char) (close : Char) : List α → List Char
  | [] => [close]
  | a :: l => text a ++ (l.flatMap (fun b => ',' :: text b) ++ [close])

theorem writeItems_eq : ∀ items : List Json, writeItems items = row write ']' items
  | [] => rfl
  | [v] => rfl
  | v :: w :: vs => by
    rw [writeItems, writeItems_eq (w :: vs), row, row, List.flatMap_cons, List.cons_append,
      List.cons_append, List.append_assoc]

/-- The text of a member of an object. -/
def writeMember (m : String × Json) : List Char := quote m.1 ++ ':' :: write m.2

theorem writeMembers_eq : ∀ members : List (String × Json),
    writeMembers members = row writeMember '\x7d' members
  | [] => rfl
  | [(k, v)] => by
    rw [writeMembers, row, writeMember, List.flatMap_nil, List.nil_append, List.append_assoc]
  | (k, v) :: m :: ms => by
    rw [writeMembers, writeMembers_eq (m :: ms)]
    simp [row, writeMember]

theorem length_lt_length_row (text : α → List Char) (close : Char) : ∀ {l : List α}, a ∈ l →
    (text a).length < (row text close l).length
  | b :: l, h => by
    rw [row]
    rcases List.mem_cons.1 h with rfl | h
    · simp
    · obtain ⟨front, back, rfl⟩ := List.append_of_mem h
      simp
      omega

section

variable (text : β → List Char) {close : Char} {f : β → α} {l : List β}

theorem solid_row (hclose : close ∈ [']', '\x7d']) (hsolid : ∀ b ∈ l, ∀ s, Solid (text b ++ s))
    (r : List Char) : Solid (row text close l ++ r) := by
  cases l with
  | nil => exact (ends_cons (List.mem_cons_of_mem _ hclose) r).solid
  | cons b l =>
    rw [row, List.append_assoc]
    exact hsolid b List.mem_cons_self _

/-- **A row is read** up to the bracket behind it, if the reader takes each of its texts up to what ends it. -/
theorem maybe_sepBy1_row (hclose : close ∈ [']', '\x7d'])
    (hp : ∀ b ∈ l, ∀ s, Ends s → p (text b ++ s) = some (f b, s))
    (hsolid : ∀ b ∈ l, ∀ s, Solid (text b ++ s)) (hnone : ∀ s, p (close :: s) = none) (r : List Char) :
    ∃ o, maybe (sepBy1 p (symbol ",")) (row text close l ++ r) = some (o, close :: r) ∧
      o.getD [] = l.map f := by
  cases l with
  | nil => exact ⟨none, maybe_of_none (bind_of_none (hnone r)), rfl⟩
  | cons b l =>
    have hends : Ends (close :: r) := ends_cons (List.mem_cons_of_mem _ hclose) r
    obtain ⟨hb, hl⟩ := List.forall_mem_cons.1 hp
    have hrest : Ends (l.flatMap (fun b => ',' :: text b) ++ close :: r) := by
      cases l with
      | nil => exact hends
      | cons d l => exact ends_cons (by decide) _
    have hmany : many (do let _ ← symbol ","; p) (l.flatMap (fun b => ',' :: text b) ++ close :: r)
        = some (l.map f, close :: r) := by
      refine many_flatMap (fun d hd s hs => ?_) (fun d _ s => ends_cons (by decide) _)
        (fun _ _ => List.cons_ne_nil _ _) hends (bind_of_none (bind_of_none (word_eq_none ?_)))
      · have hsymbol : symbol "," (',' :: (text d ++ s)) = some ((), text d ++ s) :=
          symbol_of_solid "," (hsolid d (List.mem_cons_of_mem b hd) s)
        exact (bind_of_some hsymbol).trans (hl d hd s hs)
      · rintro ⟨rest, hrest⟩
        obtain rfl : ',' = close := (List.cons.inj hrest).1
        exact absurd hclose (by decide)
    have hread : sepBy1 p (symbol ",") (row text close (b :: l) ++ r)
        = some ((b :: l).map f, close :: r) := by
      rw [row, List.append_assoc, List.append_assoc, List.singleton_append, sepBy1,
        bind_of_some (hb _ hrest), bind_of_some hmany]
      rfl
    exact ⟨_, maybe_eq_some.2 (.inl ⟨_, rfl, hread⟩), rfl⟩

end

/-! ## Values -/

/-- A word that is a value. -/
def keyword (t : String) (v : Json) : Reader Json := do
  word t
  return v

/-- A string as a value. -/
def stringReader : Reader Json := do return .string (← stringLiteral)

/-- A number as a value. -/
def numberReader : Reader Json := do return .number (← numberLiteral)

/-- An array of values of at most the given depth. -/
def arrayReader (depth : Nat) : Reader Json := do
  symbol "["
  let items ← maybe (sepBy1 (value depth) (symbol ","))
  word "]"
  return .array (items.getD [])

/-- A member of an object. -/
def memberReader (depth : Nat) : Reader (String × Json) := do
  let k ← token stringLiteral
  symbol ":"
  let v ← value depth
  return (k, v)

/-- An object with values of at most the given depth. -/
def objectReader (depth : Nat) : Reader Json := do
  symbol "\x7b"
  let members ← maybe (sepBy1 (memberReader depth) (symbol ","))
  word "\x7d"
  return .object (Table.ofList (members.getD []))

theorem value_succ (depth : Nat) : value (depth + 1) = token (keyword "null" .null
    <|> keyword "true" (.bool true) <|> keyword "false" (.bool false) <|> stringReader <|> numberReader
    <|> arrayReader depth <|> objectReader depth) := rfl

/-- What closes an array begins no value. -/
theorem value_close : ∀ depth r, value depth (']' :: r) = none
  | 0, _ => rfl
  | _ + 1, _ => rfl

theorem isGap_of_isDigit (h : c.isDigit = true) : isGap c = false := by
  cases hgap : isGap c with
  | false => rfl
  | true =>
    simp only [isGap, Bool.or_eq_true, beq_iff_eq] at hgap
    rcases hgap with ((rfl | rfl) | rfl) | rfl <;> cases h

/-- The text of a whole number begins with a sign or a digit. -/
theorem exists_literal_eq_cons (n : Int) :
    ∃ c l, (Number.whole n).literal.toList = c :: l ∧ (c = '-' ∨ c.isDigit = true) := by
  rw [toList_literal]
  split
  · exact ⟨_, _, rfl, .inl rfl⟩
  · obtain ⟨d, ds, hds, hd⟩ := Text.exists_toDigits_eq_cons n.natAbs
    exact ⟨d, ds, hds, .inr hd⟩

/-- **A value of whole numbers begins with a character that is no white space.** -/
theorem IsWhole.solid (h : v.IsWhole) (r : List Char) : Solid (write v ++ r) := by
  cases h with
  | null => exact solid_cons rfl _
  | bool b => cases b <;> exact solid_cons rfl _
  | @number n h =>
    obtain ⟨c, l, hl, hc⟩ := exists_literal_eq_cons n
    rw [write, hl]
    refine solid_cons ?_ _
    rcases hc with rfl | hc
    · rfl
    · exact isGap_of_isDigit hc
  | string s => exact solid_cons rfl _
  | array h => exact solid_cons rfl _
  | object hnames h => exact solid_cons rfl _

/-! ### One kind after the other -/

theorem word_cons_eq_none {t : String} {d : Char} {ds : List Char} (ht : t.toList = d :: ds) (h : d ≠ c)
    (s : List Char) : word t (c :: s) = none := by
  refine word_eq_none ?_
  rintro ⟨rest, hrest⟩
  rw [ht] at hrest
  exact h (List.cons.inj hrest).1

theorem keyword_cons_eq_none {t : String} {d : Char} {ds : List Char} (ht : t.toList = d :: ds)
    (h : d ≠ c) (v : Json) (s : List Char) : keyword t v (c :: s) = none :=
  bind_of_none (word_cons_eq_none ht h s)

theorem stringReader_cons_eq_none (h : '"' ≠ c) (s : List Char) : stringReader (c :: s) = none :=
  bind_of_none (bind_of_none (word_cons_eq_none rfl h s))

theorem value_number {n : Int} (h : (Number.isSigned n || Number.isUnsigned n) = true) (hr : Ends r)
    (depth : Nat) :
    value (depth + 1) ((Number.whole n).literal.toList ++ r) = some (.number (.whole n), r) := by
  have hread : numberReader ((Number.whole n).literal.toList ++ r) = some (.number (.whole n), r) :=
    bind_of_some (numberLiteral_whole h hr)
  obtain ⟨c, l, hl, hc⟩ := exists_literal_eq_cons n
  have hother : ∀ d, d ≠ '-' → d.isDigit = false → d ≠ c := by
    rintro d hsign hdigit rfl
    rcases hc with hc | hc
    · exact hsign hc
    · rw [hdigit] at hc
      cases hc
  rw [hl, List.cons_append] at hread ⊢
  rw [value_succ]
  refine token_of_solid ?_ hr.solid
  rw [orElse_of_none (keyword_cons_eq_none rfl (hother 'n' (by decide) rfl) _ _),
    orElse_of_none (keyword_cons_eq_none rfl (hother 't' (by decide) rfl) _ _),
    orElse_of_none (keyword_cons_eq_none rfl (hother 'f' (by decide) rfl) _ _),
    orElse_of_none (stringReader_cons_eq_none (hother '"' (by decide) rfl) _)]
  exact orElse_of_some hread

theorem quote_append (t : String) (r : List Char) :
    quote t ++ r = '"' :: (escape t.toList ++ '"' :: r) := by
  rw [quote, List.cons_append, List.cons_append, List.append_assoc, List.singleton_append]

theorem stringLiteral_quote (t : String) (r : List Char) :
    stringLiteral (quote t ++ r) = some (t, r) := by
  rw [quote_append, stringLiteral_escape, String.ofList_toList]

theorem value_string (t : String) (hr : Ends r) (depth : Nat) :
    value (depth + 1) (quote t ++ r) = some (.string t, r) := by
  have hread : stringReader (quote t ++ r) = some (.string t, r) :=
    bind_of_some (stringLiteral_quote t r)
  rw [quote_append] at hread ⊢
  rw [value_succ]
  refine token_of_solid ?_ hr.solid
  rw [orElse_of_none rfl, orElse_of_none rfl, orElse_of_none rfl]
  exact orElse_of_some hread

theorem value_array {items : List Json} (hsolid : ∀ v ∈ items, ∀ s, Solid (write v ++ s))
    (h : ∀ v ∈ items, ∀ s, Ends s → value depth (write v ++ s) = some (v, s)) (hr : Ends r) :
    value (depth + 1) (write (.array items) ++ r) = some (.array items, r) := by
  obtain ⟨o, hrow, ho⟩ := maybe_sepBy1_row write (f := id) (by decide : ']' ∈ _) h hsolid
    (value_close depth) r
  have hopen := symbol_of_solid "[" (solid_row write (by decide : ']' ∈ _) hsolid r)
  have hread : arrayReader depth ('[' :: (row write ']' items ++ r)) = some (.array items, r) := by
    refine (bind_of_some hopen).trans ?_
    rw [bind_of_some hrow, ho, List.map_id]
    exact bind_of_some (word_append "]" r)
  rw [write, List.cons_append, writeItems_eq, value_succ]
  refine token_of_solid ?_ hr.solid
  rw [orElse_of_none rfl, orElse_of_none rfl, orElse_of_none rfl, orElse_of_none rfl, orElse_of_none rfl]
  exact orElse_of_some hread

theorem memberReader_writeMember {m : String × Json} (hsolid : ∀ s, Solid (write m.2 ++ s))
    (h : ∀ s, Ends s → value depth (write m.2 ++ s) = some (m.2, s)) (hr : Ends r) :
    memberReader depth (writeMember m ++ r) = some (m, r) := by
  have hname : token stringLiteral (quote m.1 ++ (':' :: (write m.2 ++ r)))
      = some (m.1, ':' :: (write m.2 ++ r)) :=
    token_of_solid (stringLiteral_quote m.1 _) (solid_cons rfl _)
  have hcolon := symbol_of_solid ":" (hsolid r)
  rw [writeMember, List.append_assoc, List.cons_append]
  refine (bind_of_some hname).trans ((bind_of_some hcolon).trans ?_)
  exact (bind_of_some (h r hr)).trans rfl

theorem value_object {members : List (String × Json)} (hnames : Table.InOrder members)
    (hsolid : ∀ m ∈ members, ∀ s, Solid (write m.2 ++ s))
    (h : ∀ m ∈ members, ∀ s, Ends s → value depth (write m.2 ++ s) = some (m.2, s)) (hr : Ends r) :
    value (depth + 1) (write (.object members) ++ r) = some (.object members, r) := by
  have hmember : ∀ m ∈ members, ∀ s, Solid (writeMember m ++ s) := by
    intro m _ s
    rw [writeMember, List.append_assoc, quote_append]
    exact solid_cons rfl _
  obtain ⟨o, hrow, ho⟩ := maybe_sepBy1_row writeMember (p := memberReader depth) (f := id)
    (by decide : '\x7d' ∈ _) (fun m hm _ => memberReader_writeMember (hsolid m hm) (h m hm)) hmember
    (fun _ => rfl) r
  have hopen := symbol_of_solid "\x7b" (solid_row writeMember (by decide : '\x7d' ∈ _) hmember r)
  have hread : objectReader depth ('\x7b' :: (row writeMember '\x7d' members ++ r))
      = some (.object members, r) := by
    refine (bind_of_some hopen).trans ?_
    rw [bind_of_some hrow, ho, List.map_id, Table.ofList_eq_self hnames]
    exact bind_of_some (word_append "\x7d" r)
  rw [write, List.cons_append, writeMembers_eq, value_succ]
  refine token_of_solid ?_ hr.solid
  rw [orElse_of_none rfl, orElse_of_none rfl, orElse_of_none rfl, orElse_of_none rfl, orElse_of_none rfl,
    orElse_of_none rfl]
  exact hread

/-! ### Every value -/

/-- **A value of whole numbers is read back**, whatever ends it, with room for as many values inside each
other as its text is long. -/
theorem IsWhole.value_write (h : v.IsWhole) :
    ∀ {depth r}, (write v).length ≤ depth → Ends r → value (depth + 1) (write v ++ r) = some (v, r) := by
  induction h with
  | null => exact fun _ hr => token_of_solid (orElse_of_some rfl) hr.solid
  | bool b =>
    cases b with
    | false =>
      exact fun _ hr => token_of_solid
        ((orElse_of_none rfl).trans ((orElse_of_none rfl).trans (orElse_of_some rfl))) hr.solid
    | true => exact fun _ hr => token_of_solid ((orElse_of_none rfl).trans (orElse_of_some rfl)) hr.solid
  | number h => exact fun _ hr => value_number h hr _
  | string s => exact fun _ hr => value_string s hr _
  | @array items hitems ih =>
    intro depth r hdepth hr
    refine value_array (fun v hv => (hitems v hv).solid) (fun v hv s hs => ?_) hr
    rw [write, List.length_cons, writeItems_eq] at hdepth
    have hlt := length_lt_length_row write ']' hv
    cases depth with
    | zero => cases hdepth
    | succ depth => exact ih v hv (by omega) hs
  | @object members hnames hmembers ih =>
    intro depth r hdepth hr
    refine value_object hnames (fun m hm => (hmembers m hm).solid) (fun m hm s hs => ?_) hr
    rw [write, List.length_cons, writeMembers_eq] at hdepth
    have hlt := length_lt_length_row writeMember '\x7d' hm
    have hle : (write m.2).length ≤ (writeMember m).length := by
      rw [writeMember, List.length_append, List.length_cons]
      omega
    cases depth with
    | zero => cases hdepth
    | succ depth => exact ih m hm (by omega) hs

/-- **A value of whole numbers is read back from its text.** -/
theorem IsWhole.read?_literal (h : v.IsWhole) : read? v.literal = some v := by
  have hread := h.value_write (Nat.le_refl _) ends_nil
  have hgap := gap_of_solid (h.solid [])
  rw [List.append_nil] at hread hgap
  rw [read?, literal, String.toList_ofList]
  exact whole?_eq_some.2 ((bind_of_some hgap).trans hread)

end QueryPress.Json
