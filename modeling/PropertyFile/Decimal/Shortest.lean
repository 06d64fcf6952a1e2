import PropertyFile.Decimal.Binary64

/-!
# The shortest decimal digits

A binary floating point number stands for all reals that round to it,
an interval around it. It is shown by the **fewest decimal digits** that
lie in this interval, and of those by the ones nearest to it. Whether
some decimal number with `n` digits lies in the interval is told by the
two neighbours of the number on the grid of such decimals.
-/

namespace PropertyFile.Decimal

/-- A decimal number, `digits * 10 ^ exponent`. -/
structure Scaled where
  /-- The digits. -/
  digits : Nat
  /-- The exponent of ten. -/
  exponent : Int
deriving DecidableEq, Repr

namespace Binary64

variable (b : Binary64)

/-- The number in quarters of its last place. -/
def quarters : Nat := 4 * b.mantissa

/-- The lower end of the interval, in quarters of the last place: half a
place below, or a quarter where the numbers below are closer together. -/
def lowest : Nat :=
  if b.mantissa = Nat.pow 2 52 && -1074 < b.exponent then b.quarters - 1 else b.quarters - 2

/-- The upper end of the interval, in quarters of the last place. -/
def highest : Nat := b.quarters + 2

/-- A number of quarters and a decimal number, brought to a common
scale. -/
def scale (quarters : Nat) (s : Scaled) : Nat × Nat :=
  (quarters * Nat.pow 2 b.exponent.toNat * Nat.pow 10 (-s.exponent).toNat,
    4 * s.digits * Nat.pow 2 (-b.exponent).toNat * Nat.pow 10 s.exponent.toNat)

/-- Whether a decimal number rounds to the binary one. The ends of the
interval belong to it if the mantissa is even. -/
def reads (s : Scaled) : Bool :=
  let (low, x) := b.scale b.lowest s
  let (high, _) := b.scale b.highest s
  if b.mantissa % 2 = 0 then low ≤ x && x ≤ high else low < x && x < high

/-- The number as a ratio. -/
def ratio : Nat × Nat := (b.mantissa * Nat.pow 2 b.exponent.toNat, Nat.pow 2 (-b.exponent).toNat)

/-- The exponent of the greatest power of ten not above the number. -/
def log10 : Int :=
  let (num, den) := b.ratio
  if den ≤ num then (digitCount (num / den) : Int) - 1
  else -(digitCount ((den + num - 1) / num - 1) : Int)

/-- The decimal number with at most `count` digits that rounds to the
binary one and is nearest to it, if there is one; from the middle the
even one. -/
def withDigits? (count : Nat) : Option Scaled :=
  let exponent := b.log10 - count + 1
  let (x, unit) := b.scale b.quarters ⟨1, exponent⟩
  let below : Scaled := ⟨x / unit, exponent⟩
  let above : Scaled := ⟨x / unit + 1, exponent⟩
  match b.reads below, b.reads above with
  | false, false => none
  | true, false => some below
  | false, true => some above
  | true, true => some ⟨roundRatio x unit, exponent⟩

/-- **The fewest decimal digits** for a positive number: the first count
of digits that gives some, seventeen always being enough. -/
def shortest : Scaled :=
  ((List.range 17).findSome? fun n => b.withDigits? (n + 1)).getD ⟨0, 0⟩

end Binary64

/-- The decimal number without zeros at the end of its digits. -/
def Scaled.trim (s : Scaled) : Scaled :=
  let digits := Nat.toDigits 10 s.digits
  let zeros := (digits.reverse.takeWhile (· == '0')).length
  if s.digits = 0 then s else ⟨s.digits / Nat.pow 10 zeros, s.exponent + zeros⟩

end PropertyFile.Decimal
