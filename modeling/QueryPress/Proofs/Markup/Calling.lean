import QueryPress.Proofs.Markup.Requests

/-!
# Proofs/Markup/Calling — the functions that a page calls

A page calls a function where an expression names it, be it an argument of another call, the condition of a
branch or what a loop walks through.  All that is ever written of a book is the body, a block or a macro of
one of its pages, and none of them calls more than the book does.
-/

namespace QueryPress

/-! ## What is called where -/

mutual

/-- The functions that an expression calls, by name. -/
def Expr.calls : Expr → List String
  | .literal _ | .path _ _ => []
  | .call function arguments => function :: Expr.callsOfArguments arguments
  | .expand _ _ arguments => Expr.callsOfArguments arguments
  | .array es | .concat es => Expr.callsOfAll es
  | .math _ l r | .compare _ l r | .both l r | .either l r => Expr.calls l ++ Expr.calls r
  | .negated e => Expr.calls e
  | .apply e _ arguments => Expr.calls e ++ Expr.callsOfArguments arguments

/-- The functions that some expressions call, in order. -/
def Expr.callsOfAll : List Expr → List String
  | [] => []
  | e :: es => Expr.calls e ++ Expr.callsOfAll es

/-- The functions that arguments call, in order. -/
def Expr.callsOfArguments : List (String × Expr) → List String
  | [] => []
  | (_, e) :: arguments => Expr.calls e ++ Expr.callsOfArguments arguments

end

mutual

/-- The functions that a node calls. -/
def Node.callsOf : Node → List String
  | .value e | .assign _ e => e.calls
  | .branch condition yes no => condition.calls ++ (Node.calls yes ++ Node.calls no)
  | .loop _ _ container body empty => container.calls ++ (Node.calls body ++ Node.calls empty)
  | .block _ body => Node.calls body
  | .text _ | .inclusion _ _ | .inherited => []

/-- The functions that some nodes call, in order. -/
def Node.calls : List Node → List String
  | [] => []
  | n :: ns => Node.callsOf n ++ Node.calls ns

end

/-- **The functions that a page calls** — in its body, in a block or in a macro. -/
def Page.calls (p : Page) : List String :=
  Node.calls p.body ++ (p.blocks.flatMap fun b => Node.calls b.2) ++
    p.macros.flatMap fun m => Node.calls m.2.body

/-- **The functions that the pages of a book call.** -/
def Book.calls (b : Book) : List String := b.flatMap fun p => p.2.calls

/-! ## What is written calls no more -/

namespace Book

variable {b : Book} {p : Page} {n name space owner caller : String} {ns : List Node} {m : Macro}

theorem calls_page (h : Table.get? b n = some p) : p.calls ⊆ b.calls :=
  fun _ hf => List.mem_flatMap.2 ⟨(n, p), Table.mem_of_get? h, hf⟩

theorem calls_body (h : Table.get? b n = some p) : Node.calls p.body ⊆ b.calls :=
  fun _ hf => calls_page h (List.mem_append_left _ (List.mem_append_left _ hf))

theorem calls_block (h : Table.get? b n = some p) (hns : Table.get? p.blocks name = some ns) :
    Node.calls ns ⊆ b.calls := fun _ hf =>
  calls_page h (List.mem_append_left _ (List.mem_append_right _
    (List.mem_flatMap.2 ⟨(name, ns), Table.mem_of_get? hns, hf⟩)))

theorem calls_macroBody (h : b.macro? caller space name = some (owner, m)) :
    Node.calls m.body ⊆ b.calls := by
  obtain ⟨p, hp, hm⟩ := eq_of_macro? h
  exact fun _ hf => calls_page hp
    (List.mem_append_right _ (List.mem_flatMap.2 ⟨(name, m), Table.mem_of_get? hm, hf⟩))

end Book

end QueryPress
