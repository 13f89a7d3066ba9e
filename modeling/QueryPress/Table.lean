/-!
# Table — finite maps from names, in the order of the names

A `Table` lists each name once, in ascending order, so two tables with the same look-ups are the same
list and a walk over a table meets the names in byte order.
-/

namespace QueryPress

/-- A finite map from names: pairs in ascending order of the name. -/
abbrev Table (α : Type) := List (String × α)

namespace Table

variable {α β : Type}

/-- What is filed under a name. -/
def get? : Table α → String → Option α
  | [], _ => none
  | (k, a) :: t, n => if n = k then some a else get? t n

/-- Whether something is filed under a name. -/
def has (t : Table α) (n : String) : Bool := (t.get? n).isSome

/-- Files `a` under `n`, in place of what was there. -/
def insert : Table α → String → α → Table α
  | [], n, a => [(n, a)]
  | (k, b) :: t, n, a =>
    if n = k then (n, a) :: t
    else if n < k then (n, a) :: (k, b) :: t
    else (k, b) :: insert t n a

/-- Drops what is filed under a name. -/
def erase : Table α → String → Table α
  | [], _ => []
  | (k, a) :: t, n => if n = k then erase t n else (k, a) :: erase t n

/-- The names, in ascending order. -/
def keys (t : Table α) : List String := t.map (·.1)

/-- What is filed, in the order of the names. -/
def values (t : Table α) : List α := t.map (·.2)

/-- The table of a list of pairs, of which a later one wins. -/
def ofList (l : List (String × α)) : Table α := l.foldl (fun t p => t.insert p.1 p.2) []

/-- `t` overridden by `u`: every name of `u` has what `u` says. -/
def override (t u : Table α) : Table α := u.foldl (fun t p => t.insert p.1 p.2) t

@[simp] theorem get?_nil (n : String) : get? ([] : Table α) n = none := rfl

theorem get?_insert_self (t : Table α) (n : String) (a : α) : (t.insert n a).get? n = some a := by
  induction t with
  | nil => simp [insert, get?]
  | cons p t ih =>
    obtain ⟨k, b⟩ := p
    simp only [insert]
    split
    · simp [get?]
    · split
      · simp [get?]
      · simp [get?, *]

theorem get?_insert_of_ne (t : Table α) {n m : String} (a : α) (h : m ≠ n) :
    (t.insert n a).get? m = t.get? m := by
  induction t with
  | nil => simp [insert, get?, h]
  | cons p t ih =>
    obtain ⟨k, b⟩ := p
    simp only [insert]
    split
    · rename_i hk
      subst hk
      simp [get?, h]
    · split
      · simp [get?, h]
      · simp [get?, ih]

/-- **Filing changes one look-up** — the one under that name. -/
theorem get?_insert (t : Table α) (n m : String) (a : α) :
    (t.insert n a).get? m = if m = n then some a else t.get? m := by
  by_cases h : m = n
  · subst h
    simp [get?_insert_self]
  · simp [get?_insert_of_ne t a h, h]

/-- **Dropping changes one look-up** — the one under that name. -/
theorem get?_erase (t : Table α) (n m : String) :
    (t.erase n).get? m = if m = n then none else t.get? m := by
  induction t with
  | nil => simp [erase]
  | cons p t ih =>
    obtain ⟨k, b⟩ := p
    simp only [erase]
    split
    · rename_i hk
      subst hk
      by_cases hm : m = n
      · simpa [hm] using ih
      · simp [ih, get?, hm]
    · rename_i hk
      by_cases hm : m = k
      · subst hm
        simp [get?, Ne.symm hk]
      · simp [get?, hm, ih]

end Table

end QueryPress
