/-!
# Results of computations that may fail

Reading a text or a table may fail, and both are put together from parts
that may. What is said here of such a computation is when it succeeds, in
terms of its parts: a step with a further one behind it
(`bind_eq_ok_iff`), and a step whose result, or whose fault, is worked on
(`map_eq_ok_iff`, `mapError_eq_ok_iff`).
-/

namespace PropertyFile

section
variable {ε α β : Type} {x : Except ε α} {a : α} {b : β}

theorem bind_eq_ok_iff {f : α → Except ε β} : (x >>= f) = .ok b ↔ ∃ a, x = .ok a ∧ f a = .ok b := by
  cases x with
  | error e => simp [Bind.bind, Except.bind]
  | ok a => simp [Bind.bind, Except.bind]

theorem map_eq_ok_iff {f : α → β} : x.map f = .ok b ↔ ∃ a, x = .ok a ∧ f a = b := by
  cases x with
  | error e => simp [Except.map]
  | ok a => simp [Except.map]

/-- What is said of a fault does not matter to what succeeds. -/
theorem mapError_eq_ok_iff {ε' : Type} {f : ε → ε'} : x.mapError f = .ok a ↔ x = .ok a := by
  cases x <;> constructor <;> rintro ⟨⟩ <;> rfl

theorem exists_map_eq_error_iff {f : α → β} :
    (∃ e, x.map f = .error e) ↔ ∃ e, x = .error e := by
  cases x <;> simp [Except.map]

end

end PropertyFile
