/-!
# Proofs/Attempt — steps that may fail

What several steps have come to, if none has failed, is what the last has made of the others; and if they
have failed, one of them has.
-/

namespace QueryPress

variable {ε ε' α β : Type} {x : Except ε α} {a : α} {b : β} {e : ε} {e' : ε'}

theorem bind_eq_ok {f : α → Except ε β} : (x >>= f) = .ok b ↔ ∃ a, x = .ok a ∧ f a = .ok b := by
  cases x with
  | error e => exact ⟨nofun, nofun⟩
  | ok a => exact ⟨fun h => ⟨a, rfl, h⟩, fun ⟨a', ha, h⟩ => Except.ok.inj ha ▸ h⟩

theorem map_eq_ok {f : α → β} : x.map f = .ok b ↔ ∃ a, x = .ok a ∧ f a = b := by
  cases x with
  | error e => exact ⟨nofun, nofun⟩
  | ok a =>
    exact ⟨fun h => ⟨a, rfl, Except.ok.inj h⟩,
      fun ⟨a', ha, h⟩ => congrArg Except.ok (Except.ok.inj ha ▸ h)⟩

theorem mapError_eq_ok {f : ε → ε'} : x.mapError f = .ok a ↔ x = .ok a := by
  cases x with
  | error e => exact ⟨nofun, nofun⟩
  | ok a => exact ⟨fun h => congrArg _ (Except.ok.inj h), fun h => congrArg _ (Except.ok.inj h)⟩

theorem bind_eq_error {f : α → Except ε β} :
    (x >>= f) = .error e ↔ x = .error e ∨ ∃ a, x = .ok a ∧ f a = .error e := by
  cases x with
  | error e₀ => exact ⟨fun h => .inl (congrArg _ (Except.error.inj h)), fun h =>
      h.elim (fun h => congrArg _ (Except.error.inj h)) fun ⟨_, h, _⟩ => nomatch h⟩
  | ok a => exact ⟨fun h => .inr ⟨a, rfl, h⟩, fun h =>
      h.elim (fun h => nomatch h) fun ⟨a', ha, h⟩ => Except.ok.inj ha ▸ h⟩

theorem map_eq_error {f : α → β} : x.map f = .error e ↔ x = .error e := by
  cases x with
  | error e₀ => exact ⟨fun h => congrArg _ (Except.error.inj h), fun h => congrArg _ (Except.error.inj h)⟩
  | ok a => exact ⟨nofun, nofun⟩

theorem mapError_eq_error {f : ε → ε'} : x.mapError f = .error e' ↔ ∃ e, x = .error e ∧ f e = e' := by
  cases x with
  | error e =>
    exact ⟨fun h => ⟨e, rfl, Except.error.inj h⟩,
      fun ⟨e₀, he, h⟩ => congrArg Except.error (Except.error.inj he ▸ h)⟩
  | ok a => exact ⟨nofun, nofun⟩

theorem eq_ok_of_toOption (h : x.toOption = some a) : x = .ok a := by
  cases x with
  | error e => cases h
  | ok a' => exact congrArg _ (Option.some.inj h)

/-- What has been done has come to something. -/
theorem eq_ok_get (h : x.toOption.isSome = true) : x = .ok (x.toOption.get h) :=
  eq_ok_of_toOption (Option.some_get h).symm

/-- The error of what failed. -/
def failure? {ε α : Type} : Except ε α → Option ε
  | .error e => some e
  | .ok _ => none

theorem eq_error_of_failure {ε α : Type} {e : ε} : ∀ {result : Except ε α},
    failure? result = some e → result = .error e
  | .error _, h => congrArg _ (Option.some.inj h)

end QueryPress
