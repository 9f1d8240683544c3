/-!
# Inversion of Fallible Computations

What a computation in `Except` did when it ended one way or the other, stated once so
that callers take a `do` block apart step by step.
-/

namespace Shiesh.Lib

variable {ε α β : Type} {f : α → Except ε β}

/-- A sequence succeeds only if both parts do. -/
theorem except_bind_eq_ok {x : Except ε α} {b : β}
    (h : (x >>= f) = .ok b) : ∃ a, x = .ok a ∧ f a = .ok b := by
  cases x with
  | error e => cases h
  | ok a => exact ⟨a, rfl, h⟩

/-- A sequence fails in its first part, or in the second after the first succeeded. -/
theorem except_bind_eq_error {x : Except ε α} {e : ε}
    (h : (x >>= f) = .error e) : x = .error e ∨ ∃ a, x = .ok a ∧ f a = .error e := by
  cases x with
  | error e' => cases h; exact .inl rfl
  | ok a => exact .inr ⟨a, rfl, h⟩

end Shiesh.Lib
