import QueryPress.Markup.Page.Reader
import QueryPress.Proofs.Text.Reading

/-!
# Proofs/Markup/Beginning — no expression begins like a tag or a comment

Behind two opening braces a percent sign or a hash does not begin an expression (`Grammar.expression_eq_none`),
so no value does (`Page.value_eq_none`).  What a page has between double braces is therefore never taken for
a tag or a comment behind its second brace.

A reader that takes something first refuses a text by its first character (`Refuses`); so the grammar need
not be followed into what stands in parentheses.
-/

namespace QueryPress

open Reader

variable {α β : Type} {p q : Reader α} {c : Char} {s : List Char}

/-- A reader refuses every text that begins with this character. -/
def Refuses (c : Char) (p : Reader α) : Prop := ∀ s, p (c :: s) = none

theorem Refuses.bind {f : α → Reader β} (h : Refuses c p) : Refuses c (p >>= f) := fun s =>
  bind_of_none (h s)

theorem Refuses.orElse (h : Refuses c p) (h' : Refuses c q) : Refuses c (p <|> q) := fun s =>
  orElse_eq_none.2 ⟨h s, h' s⟩

/-- What need not be there is passed over. -/
theorem Refuses.given {f : Bool → Reader β} (h : Refuses c p) (hf : Refuses c (f false)) :
    Refuses c (given p >>= f) := fun s =>
  (bind_of_some (given_eq_some.2 (.inr ⟨rfl, h s, rfl⟩))).trans (hf s)

theorem refuses_charWhere {x : Char → Bool} (h : x c = false) : Refuses c (charWhere x) := fun s => by
  simp [charWhere, h]

theorem refuses_word {t : String} {d : Char} {l : List Char} (ht : t.toList = d :: l) (h : c ≠ d) :
    Refuses c (word t) := fun s => word_eq_none fun hp => by
  rw [ht] at hp
  exact h (List.cons_prefix_cons.1 hp).1.symm

namespace Grammar

/-- A character that opens a tag or a comment behind a brace. -/
def isSign (c : Char) : Bool := c == '%' || c == '#'

theorem ne_of_isSign (hc : isSign c = true) {d : Char} (hd : isSign d = false) : c ≠ d := by
  rintro rfl
  exact absurd (hc.symm.trans hd) (by decide)

variable (hc : isSign c = true)

include hc

theorem eq_false_of_isSign {x : Char → Bool} (hx : x '%' = false ∧ x '#' = false) : x c = false := by
  simp only [isSign, Bool.or_eq_true, beq_iff_eq] at hc
  rcases hc with rfl | rfl
  · exact hx.1
  · exact hx.2

theorem refuses_name : Refuses c name :=
  (refuses_charWhere (eq_false_of_isSign hc (by decide))).bind

theorem refuses_dottedName : Refuses c dottedName := (refuses_name hc).bind

theorem refuses_quoted : Refuses c quoted :=
  (refuses_charWhere (eq_false_of_isSign hc (by decide))).bind.orElse
    ((refuses_charWhere (eq_false_of_isSign hc (by decide))).bind.orElse
      (refuses_charWhere (eq_false_of_isSign hc (by decide))).bind)

theorem refuses_wholeDigits : Refuses c wholeDigits :=
  (refuses_word rfl (ne_of_isSign hc (by decide))).bind.orElse
    (refuses_charWhere (eq_false_of_isSign hc (by decide))).bind

theorem refuses_number : Refuses c number := by
  have hdash : Refuses c (word "-") := refuses_word rfl (ne_of_isSign hc (by decide))
  exact ((hdash.given (refuses_wholeDigits hc).bind).orElse
    (hdash.given (refuses_wholeDigits hc).bind)).bind

theorem refuses_boolean : Refuses c boolean := by
  have hword : ∀ {t : String} {d : Char} {l : List Char}, t.toList = d :: l → isSign d = false →
      Refuses c (word t) := fun ht hd => refuses_word ht (ne_of_isSign hc hd)
  exact (((hword rfl (by decide)).orElse (hword rfl (by decide))).bind.orElse
    ((hword rfl (by decide)).orElse (hword rfl (by decide))).bind).bind

theorem refuses_functionCall (argument : Reader Expr) : Refuses c (functionCall argument) :=
  (refuses_name hc).bind.bind

theorem refuses_macroCall (argument : Reader Expr) : Refuses c (macroCall argument) :=
  (refuses_name hc).bind.bind

theorem refuses_operand (basic argument : Reader Expr) : Refuses c (operand basic argument) :=
  (refuses_word rfl (ne_of_isSign hc (by decide))).bind.bind.orElse
    ((refuses_boolean hc).bind.bind.orElse ((refuses_macroCall hc argument).orElse
      ((refuses_functionCall hc argument).orElse ((refuses_dottedName hc).bind.orElse
        (refuses_number hc).bind.bind))))

theorem refuses_textPart (argument : Reader Expr) : Refuses c (textPart argument) :=
  (refuses_functionCall hc argument).orElse ((refuses_number hc).bind.bind.orElse
    ((refuses_quoted hc).bind.bind.bind.orElse (refuses_dottedName hc).bind))

theorem refuses_side (basic argument : Reader Expr) : Refuses c (side basic argument) :=
  ((refuses_textPart hc argument).bind.orElse (refuses_quoted hc).bind.bind.bind).bind.orElse
    (refuses_operand hc basic argument).bind.bind.bind

theorem refuses_judgement (basic argument logic : Reader Expr) :
    Refuses c (judgement basic argument logic) := by
  have hnot : Refuses c (connective "not") :=
    (refuses_word rfl (ne_of_isSign hc (by decide))).bind.bind
  exact (hnot.given (refuses_side hc basic argument).bind.bind).orElse
    (refuses_word rfl (ne_of_isSign hc (by decide))).bind.bind

/-- **No expression begins with a sign** that opens a tag or a comment. -/
theorem expression_eq_none (s : List Char) : expression (c :: s) = none :=
  orElse_eq_none.2 ⟨(refuses_judgement hc _ _ _).bind s,
    (refuses_word rfl (ne_of_isSign hc (by decide))).bind.bind s⟩

end Grammar

/-- **No value begins with a sign** that opens a tag or a comment. -/
theorem Page.value_eq_none (hc : Grammar.isSign c = true) (s : List Char) :
    Page.value ('\x7b' :: '\x7b' :: c :: s) = none := by
  have hdash : word "-" (c :: s) = none := refuses_word rfl (Grammar.ne_of_isSign hc (by decide)) s
  have hopen : Page.openValue ('\x7b' :: '\x7b' :: c :: s) = some (false, c :: s) :=
    (bind_of_some (word_append "\x7b\x7b" (c :: s))).trans (given_eq_some.2 (.inr ⟨rfl, hdash, rfl⟩))
  have hgap : gap (c :: s) = some ((), c :: s) :=
    gap_eq_some.2 ⟨[], rfl, by simp, fun d hd => by
      obtain rfl := Option.some.inj hd
      exact Grammar.eq_false_of_isSign hc (by decide)⟩
  rw [Page.value, bind_of_some hopen, bind_of_some hgap]
  exact bind_of_none (Grammar.expression_eq_none hc s)

end QueryPress
