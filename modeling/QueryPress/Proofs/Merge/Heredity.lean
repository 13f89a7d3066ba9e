import QueryPress.Merge.Writing
import QueryPress.Proofs.Markup.Calling

/-!
# Proofs/Merge/Heredity — what every step has, a merge has

A merge is made of a few kinds of steps.  What each of them has, and what is passed on where steps are
made of steps (`IsCarried`), every expression has (`Expr.inherited_value`), every node
(`Node.inherited_write`), and so a whole merge (`IsCarried.body`).  For most properties it is enough to
look at single steps, which read or change the draft or read the scene (`IsInherited`).  What counts as
settled of the references that are written and of the functions that are called is left open: the one is
needed where an inclusion has none of its pages, the other where a function looks outside.
-/

namespace QueryPress

namespace Merge

theorem bind_run {α β : Type} (m : Merge α) (f : α → Merge β) (s : Scene) (d : Draft) :
    (m >>= f) s d = match m s d with
      | (.ok a, d') => f a s d'
      | (.error e, d') => (.error e, d') := by
  change (ExceptT.bindCont (m := StateM Draft) (fun a => f a s) (m s d).1) (m s d).2 = _
  rcases m s d with ⟨(e | a), d'⟩ <;> rfl

/-! ## Steps made of steps -/

/-- **A property is passed on** from steps to what is made of them, whatever they read or change. -/
structure IsComposed (P : {α : Type} → Merge α → Prop) : Prop where
  pure : ∀ {α : Type} (a : α), P (pure a : Merge α)
  throw : ∀ {α : Type} (e : MergeError), (∀ pages, e ≠ .missingPages pages) → P (throw e : Merge α)
  bind : ∀ {α β : Type} {m : Merge α} {f : α → Merge β}, P m → (∀ a, P (f a)) → P (m >>= f)

variable {α β : Type} {s : Scene} {Settled : List Reference → List String → Prop}
  {P : {α : Type} → Merge α → Prop} {m : Merge α} {f : α → Merge β} {descend : Descend}

namespace IsComposed

theorem map (h : IsComposed P) {g : α → β} (hm : P m) : P (do return g (← m)) :=
  h.bind hm fun a => h.pure (g a)

theorem ite (_ : IsComposed P) {c : Prop} [Decidable c] {m' : Merge α} (hm : P m) (hm' : P m') :
    P (if c then m else m') := by
  split
  · exact hm
  · exact hm'

theorem lift (h : IsComposed P) {r : Except MergeError α}
    (hr : ∀ pages, r ≠ .error (.missingPages pages)) : P (lift r) := by
  cases r with
  | error e => exact h.throw e fun pages heq => hr pages (congrArg _ heq)
  | ok a => exact h.pure a

theorem numberOf (h : IsComposed P) : ∀ v : Json, P (numberOf v)
  | .number _ => h.pure _
  | .null | .bool _ | .string _ | .array _ | .object _ => h.throw _ (by simp)

theorem combine (h : IsComposed P) (op : Operation) : ∀ a b : Option Number, P (combine op a b)
  | some a, some b => by
    rw [Merge.combine]
    split
    · exact h.pure _
    · exact h.throw _ (by simp)
  | some _, none | none, _ => h.pure _

theorem joinable (h : IsComposed P) : ∀ v : Json, P (joinable v)
  | .string _ | .number _ => h.pure _
  | .null | .bool _ | .array _ | .object _ => h.throw _ (by simp)

theorem compared (h : IsComposed P) {op : Comparison} {leftValue rightValue : Merge Json}
    {leftNumber rightNumber : Merge (Option Number)} (hlv : P leftValue) (hrv : P rightValue)
    (hln : P leftNumber) (hrn : P rightNumber) :
    P (compared op leftValue rightValue leftNumber rightNumber) := by
  refine h.ite (h.bind hlv fun a => h.bind hrv fun b => h.pure _)
    (h.bind hln fun a => h.bind hrn fun b => ?_)
  split
  · exact h.pure _
  · exact h.throw _ (by simp)

theorem bound (h : IsComposed P) {macroName : String} {argument : String → Option (Merge Json)}
    (hargs : ∀ n m, argument n = some m → P m) : ∀ parameters, P (bound macroName argument parameters)
  | [] => h.pure _
  | (name, standIn) :: rest => by
    have hrest : P (Merge.bound macroName argument rest) := h.bound hargs rest
    simp only [Merge.bound]
    split
    · exact h.bind (hargs _ _ ‹_›) fun _ => h.map hrest
    · exact h.bind (h.pure _) fun _ => h.map hrest
    · exact h.bind (h.throw _ (by simp)) fun _ => h.map hrest

end IsComposed

theorem run_filter_ne {filter : Filter} {v : Json} {arguments : Table Json} {pages : List String} :
    filter.run v arguments ≠ .error (.missingPages pages) := by
  cases filter <;> cases v <;> simp [Filter.run]
  rw [Filter.separatorOf]
  split <;> simp [Bind.bind, Except.bind]

/-! ## What a merge is made of -/

/-- What is written elsewhere has the property if what it refers to and calls is settled. -/
def DescentHas (Settled : List Reference → List String → Prop) (P : {α : Type} → Merge α → Prop)
    (descend : Descend) : Prop := ∀ ns, Settled (Node.requests ns) (Node.calls ns) → P (descend ns)

/-- The macros of the book, which are all that an expression leads to, have the property. -/
def MacrosHave (s : Scene) (P : {α : Type} → Merge α → Prop) (descend : Descend) : Prop :=
  ∀ caller space name owner m, s.book.macro? caller space name = some (owner, m) → P (descend m.body)

/-- **A property is carried through a merge** in a scene — it is passed on, the steps of expressions have
it, functions that look outside if they are settled, and a macro, a block, an inclusion and a loop if their
parts do.  What is settled is settled part by part, and so is what stands on a page that is there. -/
structure IsCarried (s : Scene) (Settled : List Reference → List String → Prop)
    (P : {α : Type} → Merge α → Prop) : Prop extends IsComposed P where
  emit : ∀ piece : String, P (emit piece)
  find? : ∀ (root : String) (members : List String), P (find? root members)
  assign : ∀ (name : String) (v : Json), P (assign name v)
  orFalse : ∀ {m : Merge Bool}, P m → P (orFalse m)
  operationValue : ∀ {m : Merge (Option Number)}, P m → P (operationValue m)
  lookUp : ∀ (lookup : Lookup) (arguments : Table Json), P (lookUp lookup arguments)
  ask : ∀ {f : Standard} (arguments : Table Json), Settled [] [f.name] → P (ask f arguments)
  expanded : ∀ {descend : Descend} {space name : String} {argument : String → Option (Merge Json)},
    MacrosHave s P descend → (∀ n m, argument n = some m → P m) →
      P (expanded descend space name argument)
  writeBlock : ∀ {descend : Descend} {name : String} {body : Merge Unit},
    DescentHas Settled P descend → P body → P (writeBlock descend name body)
  writeInherited : ∀ {descend : Descend}, DescentHas Settled P descend → P (writeInherited descend)
  writeInclusion : ∀ {descend : Descend} {pages : List String} {optional : Bool},
    DescentHas Settled P descend → Settled [{ candidates := pages, optional }] [] →
      P (writeInclusion descend pages optional)
  writeLoop : ∀ {key : Option String} {item : String} {isContainer : Bool} {container : Merge Json}
    {body empty : Merge Unit}, P container → P body → P empty →
      P (writeLoop key item isContainer container body empty)
  append : ∀ {refs refs' : List Reference} {calls calls' : List String},
    Settled (refs ++ refs') (calls ++ calls') → Settled refs calls ∧ Settled refs' calls'
  page : ∀ {n : String} {p : Page}, Table.get? s.book n = some p →
    Settled (Node.requests p.body) (Node.calls p.body)
  macroBody : ∀ {caller space name owner : String} {m : Macro},
    s.book.macro? caller space name = some (owner, m) →
      Settled (Node.requests m.body) (Node.calls m.body)

theorem DescentHas.macros (h : IsCarried s Settled P) (hd : DescentHas Settled P descend) :
    MacrosHave s P descend := fun _ _ _ _ _ hm => hd _ (h.macroBody hm)

namespace IsCarried

/-- The functions that are called first are settled apart from the rest. -/
theorem calls_first (h : IsCarried s Settled P) {refs : List Reference} {calls calls' : List String}
    (hs : Settled refs (calls ++ calls')) : Settled [] calls ∧ Settled refs calls' :=
  h.append (show Settled ([] ++ refs) (calls ++ calls') from hs)

theorem calls_append (h : IsCarried s Settled P) {calls calls' : List String}
    (hs : Settled [] (calls ++ calls')) : Settled [] calls ∧ Settled [] calls' := h.calls_first hs

theorem calls_cons (h : IsCarried s Settled P) {function : String} {calls : List String}
    (hs : Settled [] (function :: calls)) : Settled [] [function] ∧ Settled [] calls :=
  h.calls_first (show Settled [] ([function] ++ calls) from hs)

theorem emitAll (h : IsCarried s Settled P) : ∀ pieces : List String, P (emitAll pieces)
  | [] => h.pure ()
  | p :: ps => h.bind (h.emit p) fun _ => h.emitAll ps

theorem find (h : IsCarried s Settled P) (root : String) (members : List String) :
    P (find root members) := by
  refine h.bind (h.find? root members) fun v => ?_
  split
  · exact h.pure _
  · exact h.throw _ (by simp)

theorem called (h : IsCarried s Settled P) {function : String} {arguments : Merge (Table Json)}
    (hs : Settled [] [function]) (hargs : P arguments) : P (called function arguments) := by
  rw [Merge.called]
  split
  · exact h.bind hargs fun _ => h.lookUp _ _
  · rename_i hstandard
    rw [← Standard.name_of_ofName? hstandard] at hs
    exact h.bind hargs fun _ => h.ask _ hs
  · exact h.throw _ (by simp)

theorem applied (h : IsCarried s Settled P) {filter : String}
    {path? : Option (String × List String)} {value : Merge Json}
    {argument : String → Option (Merge Json)} {arguments : Merge (Table Json)} (hvalue : P value)
    (hargs : ∀ n m, argument n = some m → P m) (harguments : P arguments) :
    P (applied filter path? value argument arguments) := by
  refine h.ite ?_ (h.bind hvalue fun v => ?_)
  · split
    · exact hvalue
    · refine h.bind (h.find? _ _) fun found => ?_
      split
      · split
        · exact hargs _ _ ‹_›
        · exact h.throw _ (by simp)
      · split
        · exact hargs _ _ ‹_›
        · exact h.throw _ (by simp)
      · exact h.pure _
  · split
    · exact h.throw _ (by simp)
    · exact h.bind harguments fun _ => h.lift fun _ => run_filter_ne

theorem denied (h : IsCarried s Settled P) {needed? : Option (String × List String)}
    {value : Merge Json} (hvalue : P value) : P (denied needed? value) := by
  unfold Merge.denied
  split
  · exact h.bind (h.pure _) fun _ => h.ite (h.pure _) (h.map hvalue)
  · exact h.bind (h.find? _ _) fun _ => h.bind (h.pure _) fun _ => h.ite (h.pure _) (h.map hvalue)

end IsCarried

end Merge

/-! ## Expressions -/

namespace Expr

open Merge

variable {s : Scene} {Settled : List Reference → List String → Prop} {P : {α : Type} → Merge α → Prop}
  {descend : Descend}

mutual

/-- **The value of an expression inherits what single steps have**, if the macros of the book do and what
it calls is settled. -/
theorem inherited_value (h : IsCarried s Settled P) (hd : MacrosHave s P descend) :
    ∀ e : Expr, Settled [] e.calls → P (e.value descend)
  | literal v, _ => h.pure v
  | path root members, _ => h.find root members
  | call f args, hs => by
    obtain ⟨hf, hargs⟩ := h.calls_cons hs
    exact h.called hf (inherited_argumentValues h hd args hargs)
  | expand space name args, hs => by
    rw [value]
    exact h.map (h.expanded hd (inherited_argumentNamed? h hd args hs))
  | array items, hs => by
    rw [value]
    exact h.map (inherited_values h hd items hs)
  | concat parts, hs => by
    rw [value]
    exact h.map (inherited_texts h hd parts hs)
  | math op l r, hs => by
    obtain ⟨hl, hr⟩ := h.calls_append hs
    rw [value]
    exact h.operationValue (h.bind (inherited_number h hd l hl) fun a =>
      h.bind (inherited_number h hd r hr) fun b => h.combine op a b)
  | compare op l r, hs => by
    obtain ⟨hl, hr⟩ := h.calls_append hs
    rw [value]
    exact h.map (h.compared (inherited_value h hd l hl) (inherited_value h hd r hr)
      (inherited_number h hd l hl) (inherited_number h hd r hr))
  | both l r, hs => by
    obtain ⟨hl, hr⟩ := h.calls_append hs
    rw [value]
    exact h.bind (inherited_judge h hd l hl) fun _ =>
      h.ite (h.map (inherited_judge h hd r hr)) (h.pure _)
  | either l r, hs => by
    obtain ⟨hl, hr⟩ := h.calls_append hs
    rw [value]
    exact h.bind (inherited_judge h hd l hl) fun _ =>
      h.ite (h.pure _) (h.map (inherited_judge h hd r hr))
  | negated e, hs => by
    rw [value]
    exact h.ite (h.map (inherited_judge h hd e hs)) (h.map (h.denied (inherited_value h hd e hs)))
  | apply e f args, hs => by
    obtain ⟨he, hargs⟩ := h.calls_append hs
    rw [value]
    exact h.applied (inherited_value h hd e he) (inherited_argumentNamed? h hd args hargs)
      (inherited_argumentValues h hd args hargs)

theorem inherited_judge (h : IsCarried s Settled P) (hd : MacrosHave s P descend) :
    ∀ e : Expr, Settled [] e.calls → P (e.judge descend)
  | literal v, _ => h.pure _
  | path root members, _ => by
    rw [judge]
    exact h.map (h.orFalse (h.map (h.find root members)))
  | call f args, hs => by
    obtain ⟨hf, hargs⟩ := h.calls_cons hs
    rw [judge]
    refine h.bind (h.called hf (inherited_argumentValues h hd args hargs)) fun v => ?_
    split
    · exact h.pure _
    · exact h.throw _ (by simp)
  | expand space name args, hs => by
    rw [judge]
    exact h.map (h.expanded hd (inherited_argumentNamed? h hd args hs))
  | array items, hs => by
    rw [judge]
    exact h.map (inherited_values h hd items hs)
  | concat parts, hs => by
    rw [judge]
    exact h.map (inherited_texts h hd parts hs)
  | math op l r, hs => by
    obtain ⟨hl, hr⟩ := h.calls_append hs
    rw [judge]
    exact h.bind (inherited_number h hd l hl) fun a => h.bind (inherited_number h hd r hr) fun b =>
      h.map (h.combine op a b)
  | compare op l r, hs => by
    obtain ⟨hl, hr⟩ := h.calls_append hs
    rw [judge]
    exact h.compared (inherited_value h hd l hl) (inherited_value h hd r hr)
      (inherited_number h hd l hl) (inherited_number h hd r hr)
  | both l r, hs => by
    obtain ⟨hl, hr⟩ := h.calls_append hs
    rw [judge]
    exact h.bind (inherited_judge h hd l hl) fun _ =>
      h.ite (h.map (inherited_judge h hd r hr)) (h.pure _)
  | either l r, hs => by
    obtain ⟨hl, hr⟩ := h.calls_append hs
    rw [judge]
    exact h.bind (inherited_judge h hd l hl) fun _ =>
      h.ite (h.pure _) (h.map (inherited_judge h hd r hr))
  | negated e, hs => by
    rw [judge]
    exact h.ite (h.map (h.orFalse (h.denied (inherited_value h hd e hs))))
      (h.map (inherited_judge h hd e hs))
  | apply e f args, hs => by
    obtain ⟨he, hargs⟩ := h.calls_append hs
    rw [judge]
    refine h.ite (h.map (h.orFalse (h.map ?_))) (inherited_judge h hd e he)
    exact h.applied (inherited_value h hd e he) (inherited_argumentNamed? h hd args hargs)
      (inherited_argumentValues h hd args hargs)

theorem inherited_number (h : IsCarried s Settled P) (hd : MacrosHave s P descend) :
    ∀ e : Expr, Settled [] e.calls → P (e.number descend)
  | literal v, _ => h.numberOf v
  | path root members, _ => by
    rw [number]
    exact h.bind (h.find root members) fun v => h.numberOf v
  | call f args, hs => by
    obtain ⟨hf, hargs⟩ := h.calls_cons hs
    rw [number]
    exact h.bind (h.called hf (inherited_argumentValues h hd args hargs)) fun v => h.numberOf v
  | math op l r, hs => by
    obtain ⟨hl, hr⟩ := h.calls_append hs
    rw [number]
    exact h.bind (inherited_number h hd l hl) fun a => h.bind (inherited_number h hd r hr) fun b =>
      h.combine op a b
  | apply e f args, hs => by
    obtain ⟨he, hargs⟩ := h.calls_append hs
    rw [number]
    exact h.bind (h.applied (inherited_value h hd e he) (inherited_argumentNamed? h hd args hargs)
      (inherited_argumentValues h hd args hargs)) fun v => h.numberOf v
  | expand _ _ _, _ | array _, _ | concat _, _ | compare _ _ _, _ | both _ _, _ | either _ _, _
  | negated _, _ => h.throw _ (by simp)

theorem inherited_values (h : IsCarried s Settled P) (hd : MacrosHave s P descend) :
    ∀ es : List Expr, Settled [] (callsOfAll es) → P (values descend es)
  | [], _ => h.pure _
  | e :: es, hs => by
    obtain ⟨he, hes⟩ := h.calls_append hs
    rw [values]
    exact h.bind (inherited_value h hd e he) fun v => h.map (inherited_values h hd es hes)

theorem inherited_texts (h : IsCarried s Settled P) (hd : MacrosHave s P descend) :
    ∀ es : List Expr, Settled [] (callsOfAll es) → P (texts descend es)
  | [], _ => h.pure _
  | e :: es, hs => by
    obtain ⟨he, hes⟩ := h.calls_append hs
    have he := inherited_value h hd e he
    have hes := inherited_texts h hd es hes
    unfold texts
    split
    · exact h.bind (h.pure _) fun t => h.map hes
    · exact h.bind he fun v => h.bind (h.joinable v) fun t => h.map hes

theorem inherited_argumentNamed? (h : IsCarried s Settled P) (hd : MacrosHave s P descend) :
    ∀ args : List (String × Expr), Settled [] (callsOfArguments args) →
      ∀ (n : String) (m : Merge Json), argumentNamed? descend args n = some m → P m
  | [], _, _, _, hm => by simp [argumentNamed?] at hm
  | (name, e) :: rest, hs, n, m, hm => by
    obtain ⟨he, hrest⟩ := h.calls_append hs
    have he := inherited_value h hd e he
    rw [argumentNamed?] at hm
    split at hm
    · obtain rfl := Option.some.inj hm
      exact he
    · exact inherited_argumentNamed? h hd rest hrest n m hm

theorem inherited_argumentValues (h : IsCarried s Settled P) (hd : MacrosHave s P descend) :
    ∀ args : List (String × Expr), Settled [] (callsOfArguments args) →
      P (argumentValues descend args)
  | [], _ => h.pure _
  | (name, e) :: rest, hs => by
    obtain ⟨he, hrest⟩ := h.calls_append hs
    rw [argumentValues]
    exact h.bind (inherited_value h hd e he) fun v =>
      h.map (inherited_argumentValues h hd rest hrest)

end

theorem inherited_holds (h : IsCarried s Settled P) (hd : MacrosHave s P descend) (e : Expr)
    (hs : Settled [] e.calls) : P (e.holds descend) := h.map (inherited_judge h hd e hs)

end Expr

/-! ## Nodes -/

namespace Node

open Merge

variable {s : Scene} {Settled : List Reference → List String → Prop} {P : {α : Type} → Merge α → Prop}
  {descend : Descend}

mutual

/-- **A node inherits what single steps have** if what it asks for and calls is settled. -/
theorem inherited_write (h : IsCarried s Settled P) (hd : DescentHas Settled P descend) :
    ∀ n : Node, Settled n.requestsOf n.callsOf → P (n.write descend)
  | text t, _ => h.emit t
  | value e, hs => h.bind (Expr.inherited_value h (hd.macros h) e hs) fun v => h.emitAll v.pieces
  | assign name e, hs => h.bind (Expr.inherited_value h (hd.macros h) e hs) fun v => h.assign name v
  | inclusion pages optional, hs => by
    rw [write]
    exact h.writeInclusion hd hs
  | branch condition yes no, hs => by
    obtain ⟨hcondition, hs⟩ := h.calls_first hs
    obtain ⟨hyes, hno⟩ := h.append hs
    rw [write]
    exact h.bind (Expr.inherited_holds h (hd.macros h) condition hcondition) fun b =>
      h.ite (inherited_writeAll h hd yes hyes) (inherited_writeAll h hd no hno)
  | loop key item container body empty, hs => by
    obtain ⟨hcontainer, hs⟩ := h.calls_first hs
    obtain ⟨hbody, hempty⟩ := h.append hs
    rw [write]
    exact h.writeLoop (Expr.inherited_value h (hd.macros h) container hcontainer)
      (inherited_writeAll h hd body hbody) (inherited_writeAll h hd empty hempty)
  | block name body, hs => by
    rw [write]
    exact h.writeBlock hd (inherited_writeAll h hd body hs)
  | inherited, _ => h.writeInherited hd

theorem inherited_writeAll (h : IsCarried s Settled P) (hd : DescentHas Settled P descend) :
    ∀ ns : List Node, Settled (requests ns) (calls ns) → P (writeAll descend ns)
  | [], _ => h.pure ()
  | n :: ns, hs => by
    obtain ⟨hn, hns⟩ := h.append hs
    rw [writeAll]
    exact h.bind (inherited_write h hd n hn) fun _ => inherited_writeAll h hd ns hns

end

/-- **All that is written inherits what single steps have**, however deep bodies stand inside each
other. -/
theorem inherited_writeTo (h : IsCarried s Settled P) : ∀ n : Nat, DescentHas Settled P (writeTo n)
  | 0 => fun _ _ => h.throw _ (by simp)
  | n + 1 => fun ns hs => inherited_writeAll h (inherited_writeTo h n) ns hs

end Node

/-- **A merge has what is carried through it.** -/
theorem Merge.IsCarried.body {s : Scene} {Settled : List Reference → List String → Prop}
    {P : {α : Type} → Merge α → Prop} (h : IsCarried s Settled P) (hnothing : Settled [] []) :
    P (Node.writeTo Scene.depth s.body) := by
  refine Node.inherited_writeTo h Scene.depth s.body ?_
  rw [Scene.body]
  cases hp : Table.get? s.book s.root with
  | none => exact hnothing
  | some p => exact h.page hp

/-! ## Single steps -/

namespace Merge

/-- **A property is inherited in a scene** — single steps have it, and steps pass it on to what is made
of them.  A step that reads the scene must not look at its world, and one that reads or changes the draft
must leave the registry out: that is for functions alone.  What is settled is settled part by part, what
stands on a page that is there is, and an inclusion whose pages are settled may fail for want of them only
with a step that has the property. -/
structure IsInherited (s : Scene) (Settled : List Reference → List String → Prop)
    (P : {α : Type} → Merge α → Prop) : Prop extends IsComposed P where
  missing : ∀ {pages : List String}, Settled [{ candidates := pages, optional := false }] [] →
    (∀ n ∈ pages, Table.get? s.book n = none) →
      P (MonadExcept.throw (MergeError.missingPages pages) : Merge Unit)
  read : ∀ {α : Type} {f : Scene → Merge α}, (∀ world, f { s with world } = f s) → P (f s) →
    P (read >>= f)
  get : ∀ {α : Type} {f : Draft → Merge α}, (∀ d registry, f { d with registry } = f d) →
    (∀ d, P (f d)) → P (get >>= f)
  modify : ∀ g : Draft → Draft, (∀ d registry, g { d with registry } = { g d with registry }) →
    P (modify g : Merge Unit)
  captured : ∀ {m : Merge Unit}, P m → P (captured m)
  orFalse : ∀ {m : Merge Bool}, P m → P (orFalse m)
  operationValue : ∀ {m : Merge (Option Number)}, P m → P (operationValue m)
  lookUp : ∀ (lookup : Lookup) (arguments : Table Json), P (lookUp lookup arguments)
  ask : ∀ {f : Standard} (arguments : Table Json), Settled [] [f.name] → P (ask f arguments)
  append : ∀ {refs refs' : List Reference} {calls calls' : List String},
    Settled (refs ++ refs') (calls ++ calls') → Settled refs calls ∧ Settled refs' calls'
  page : ∀ {n : String} {p : Page}, Table.get? s.book n = some p →
    Settled (Node.requests p.body) (Node.calls p.body)
  block : ∀ {n name : String} {p : Page} {ns : List Node}, Table.get? s.book n = some p →
    Table.get? p.blocks name = some ns → Settled (Node.requests ns) (Node.calls ns)
  macroBody : ∀ {caller space name owner : String} {m : Macro},
    s.book.macro? caller space name = some (owner, m) →
      Settled (Node.requests m.body) (Node.calls m.body)

variable {α : Type} {s : Scene} {Settled : List Reference → List String → Prop}
  {P : {α : Type} → Merge α → Prop} {m : Merge α} {descend : Descend} {ns : List Node}

/-- The definition of a block that is found is a block of a page of the book. -/
theorem eq_of_definition? {b : Book} {name : String} {entered : Entered} :
    ∀ {pages : List String} {level : Nat}, definition? b name level pages = some (entered, ns) →
      ∃ n p, Table.get? b n = some p ∧ Table.get? p.blocks name = some ns
  | [], _, h => by simp [definition?] at h
  | page :: pages, level, h => by
    rw [definition?] at h
    split at h
    · rename_i body hbody
      obtain ⟨p, hp, hblock⟩ := Option.bind_eq_some_iff.1 hbody
      obtain ⟨-, rfl⟩ := Prod.mk.inj (Option.some.inj h)
      exact ⟨page, p, hp, hblock⟩
    · exact eq_of_definition? h

namespace IsInherited

theorem emit (h : IsInherited s Settled P) (piece : String) : P (emit piece) :=
  h.modify _ fun _ _ => rfl

theorem within (h : IsInherited s Settled P) (frame : Frame) (hm : P m) : P (within frame m) :=
  h.bind (h.modify _ fun _ _ => rfl) fun _ => h.bind hm fun a =>
    h.bind (h.modify _ fun _ _ => rfl) fun _ => h.pure a

theorem moveOn (h : IsInherited s Settled P) : P moveOn := by
  refine h.get (fun _ _ => rfl) fun d => ?_
  split
  · split
    · exact h.modify _ fun _ _ => rfl
    · exact h.throw _ (by simp)
  · exact h.throw _ (by simp)

theorem currentPage (h : IsInherited s Settled P) : P Merge.page := by
  refine h.get (fun _ _ => rfl) fun d => ?_
  split
  · exact h.pure _
  · exact h.read (fun _ => rfl) (h.pure _)

theorem find? (h : IsInherited s Settled P) (root : String) (members : List String) :
    P (find? root members) :=
  h.read (fun _ => rfl) (h.get (fun _ _ => rfl) fun _ => h.pure _)

theorem assign (h : IsInherited s Settled P) (name : String) (v : Json) : P (assign name v) := by
  refine h.modify _ fun d _ => ?_
  obtain ⟨registry, frames, entered, written, asked⟩ := d
  cases frames <;> rfl

theorem caller (h : IsInherited s Settled P) : P caller := by
  refine h.read (fun _ => rfl) (h.get (fun _ _ => rfl) fun d => ?_)
  split
  · exact h.pure _
  · exact h.ite h.currentPage (h.pure _)

/-- **A macro has what its body has**, which stands in the book. -/
theorem expanded (h : IsInherited s Settled P) {space name : String}
    {argument : String → Option (Merge Json)}
    (hd : MacrosHave s P descend)
    (hargs : ∀ n m, argument n = some m → P m) : P (expanded descend space name argument) := by
  refine h.read (fun _ => rfl) (h.bind h.caller fun caller => ?_)
  split
  · exact h.throw _ (by simp)
  · rename_i owner m hm
    exact h.bind (h.bound hargs m.parameters) fun _ =>
      h.captured (h.within _ (hd caller space name owner m hm))

theorem writeBlock (h : IsInherited s Settled P) (hd : DescentHas Settled P descend) {name : String}
    {body : Merge Unit} (hbody : P body) : P (writeBlock descend name body) := by
  refine h.read (fun _ => rfl) (h.bind h.currentPage fun active => ?_)
  split
  · rename_i hdefinition
    obtain ⟨n, p, hp, hblock⟩ := eq_of_definition? hdefinition
    exact h.bind (h.modify _ fun _ _ => rfl) fun _ => hd _ (h.block hp hblock)
  · exact hbody

theorem writeInherited (h : IsInherited s Settled P) (hd : DescentHas Settled P descend) :
    P (writeInherited descend) := by
  refine h.read (fun _ => rfl) (h.get (fun _ _ => rfl) fun d => ?_)
  split
  · exact h.throw _ (by simp)
  · split
    · exact h.throw _ (by simp)
    · rename_i hdefinition
      obtain ⟨n, p, hp, hblock⟩ := eq_of_definition? hdefinition
      have hleave : P leave := h.modify _ fun _ _ => rfl
      exact h.bind (h.modify _ fun _ _ => rfl) fun _ => h.bind (hd _ (h.block hp hblock)) fun _ =>
        h.bind hleave fun _ => h.ite hleave (h.pure _)

/-- **An inclusion has what its page has**, or is settled although none of its pages is there. -/
theorem writeInclusion (h : IsInherited s Settled P) (hd : DescentHas Settled P descend)
    {pages : List String} {optional : Bool} (hs : Settled [{ candidates := pages, optional }] []) :
    P (writeInclusion descend pages optional) := by
  refine h.read (fun _ => rfl) ?_
  split
  · rename_i name p hfound
    obtain ⟨n, -, hn⟩ := List.exists_of_findSome?_eq_some hfound
    obtain ⟨q, hq, heq⟩ := Option.map_eq_some_iff.1 hn
    obtain ⟨rfl, rfl⟩ := Prod.mk.inj heq
    exact h.within _ (h.ite (h.throw _ (by simp)) (hd _ (h.page hq)))
  · rename_i hnone
    cases optional with
    | true => exact h.pure _
    | false => exact h.missing hs fun n hn => by simpa using List.findSome?_eq_none_iff.1 hnone n hn

theorem walk (h : IsInherited s Settled P) {body : Merge Unit} (hbody : P body) :
    ∀ n, P (walk body n)
  | 0 => h.pure _
  | n + 1 => h.bind hbody fun _ => h.bind h.moveOn fun _ => h.walk hbody n

theorem writeLoop (h : IsInherited s Settled P) {key : Option String} {item : String}
    {isContainer : Bool} {container : Merge Json} {body empty : Merge Unit} (hcontainer : P container)
    (hbody : P body) (hempty : P empty) :
    P (writeLoop key item isContainer container body empty) := by
  refine h.ite (h.bind (h.throw _ (by simp)) fun _ => h.bind hcontainer fun v => ?_)
    (h.bind hcontainer fun v => ?_)
  all_goals
    split
    · exact h.throw _ (by simp)
    · exact hempty
    · exact h.bind h.currentPage fun _ => h.within _ (h.walk hbody _)

/-- **What is inherited is carried through a merge.** -/
theorem isCarried (h : IsInherited s Settled P) : IsCarried s Settled P where
  toIsComposed := h.toIsComposed
  emit := h.emit
  find? := h.find?
  assign := h.assign
  orFalse := h.orFalse
  operationValue := h.operationValue
  lookUp := h.lookUp
  ask := h.ask
  expanded := h.expanded
  writeBlock hd hbody := h.writeBlock hd hbody
  writeInherited := h.writeInherited
  writeInclusion hd hs := h.writeInclusion hd hs
  writeLoop := h.writeLoop
  append := h.append
  page := h.page
  macroBody := h.macroBody

/-- **A merge inherits what single steps have.** -/
theorem body (h : IsInherited s Settled P) (hnothing : Settled [] []) :
    P (Node.writeTo Scene.depth s.body) := h.isCarried.body hnothing

end IsInherited

end Merge

end QueryPress
