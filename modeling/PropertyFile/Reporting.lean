/-!
# Reporting

A computation that reports while it runs: it ends with a result or with
an error, and either way its **reports** stay, in the order in which
they were made. This is what separates it from a plain `Except`: what
was said before an error is not taken back.
-/

namespace PropertyFile

/-- What a computation comes to, and what it reported on the way. -/
structure Reporting (μ ε α : Type) where
  /-- The result, or the error it ends with. -/
  result : Except ε α
  /-- The reports, in order. -/
  reports : List μ := []

namespace Reporting

variable {μ ν ε δ α β : Type}

/-- Reports something. -/
def report (m : μ) : Reporting μ ε Unit := { result := .ok (), reports := [m] }

/-- Reports several things. -/
def reportAll (ms : List μ) : Reporting μ ε Unit := { result := .ok (), reports := ms }

/-- Ends with an error. -/
def fail (e : ε) : Reporting μ ε α := { result := .error e }

/-- A result that reports nothing. -/
def ofExcept (x : Except ε α) : Reporting μ ε α := { result := x }

/-- **Goes on with a result**; after an error nothing follows. -/
def bind (x : Reporting μ ε α) (f : α → Reporting μ ε β) : Reporting μ ε β :=
  match x.result with
  | .error e => { result := .error e, reports := x.reports }
  | .ok a => { result := (f a).result, reports := x.reports ++ (f a).reports }

instance : Monad (Reporting μ ε) where
  pure a := { result := .ok a }
  bind := bind

/-- The same computation with its reports and its error put into other
words. -/
def convert (f : μ → ν) (g : ε → δ) (x : Reporting μ ε α) : Reporting ν δ α :=
  { result := x.result.mapError g, reports := x.reports.map f }

/-! ## Lemmas -/

@[simp] theorem result_pure (a : α) : (pure a : Reporting μ ε α).result = .ok a := rfl

@[simp] theorem reports_pure (a : α) : (pure a : Reporting μ ε α).reports = [] := rfl

theorem bind_of_ok {x : Reporting μ ε α} {a : α} (h : x.result = .ok a)
    (f : α → Reporting μ ε β) :
    (x >>= f).result = (f a).result ∧ (x >>= f).reports = x.reports ++ (f a).reports := by
  simp [Bind.bind, bind, h]

theorem bind_of_error {x : Reporting μ ε α} {e : ε} (h : x.result = .error e)
    (f : α → Reporting μ ε β) : (x >>= f).result = .error e ∧ (x >>= f).reports = x.reports := by
  simp [Bind.bind, bind, h]

/-- What goes on comes to a result exactly if both parts do. -/
theorem result_bind_eq_ok_iff {x : Reporting μ ε α} {f : α → Reporting μ ε β} {b : β} :
    (x >>= f).result = .ok b ↔ ∃ a, x.result = .ok a ∧ (f a).result = .ok b := by
  cases h : x.result with
  | error e => simp [(bind_of_error h f).1]
  | ok a => simp [(bind_of_ok h f).1]

end Reporting

end PropertyFile
