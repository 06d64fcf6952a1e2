/-!
# Binary floating point numbers

A number with a fraction is kept as the nearest **binary64** number: a
mantissa below 2⁵³ times a power of two from 2⁻¹⁰⁷⁴ to 2⁹⁷¹. Of two
numbers equally near, the one with the even mantissa is taken; what lies
beyond the largest of them has none. Everything here is exact arithmetic
on natural numbers.
-/

namespace PropertyFile.Decimal

/-- A non-negative binary64 number, `mantissa * 2 ^ exponent`. -/
structure Binary64 where
  /-- The mantissa, below 2⁵³. -/
  mantissa : Nat
  /-- The exponent of two, from -1074 to 971. -/
  exponent : Int
deriving DecidableEq, Repr

/-- A ratio rounded to the nearest natural number, from the middle to
the even one. -/
def roundRatio (num den : Nat) : Nat :=
  let below := num / den
  let rest := num % den
  if 2 * rest < den then below
  else if den < 2 * rest then below + 1
  else below + below % 2

/-- Whether `2 ^ k ≤ num / den`. -/
def twoPowerLe (k : Int) (num den : Nat) : Bool :=
  den * Nat.pow 2 k.toNat ≤ num * Nat.pow 2 (-k).toNat

/-- The exponent of the greatest power of two not above a positive
ratio. -/
def log2Ratio (num den : Nat) : Int :=
  let k : Int := (num.log2 : Int) - den.log2
  if twoPowerLe k num den then k else k - 1

/-- **The binary64 number nearest to a ratio**; `none` above the largest
one. -/
def Binary64.nearest? (num den : Nat) : Option Binary64 :=
  if num = 0 then some ⟨0, -1074⟩
  else
    let exponent := max (log2Ratio num den - 52) (-1074)
    let mantissa := roundRatio (num * Nat.pow 2 (-exponent).toNat) (den * Nat.pow 2 exponent.toNat)
    let rounded : Binary64 :=
      if mantissa = Nat.pow 2 53 then ⟨Nat.pow 2 52, exponent + 1⟩ else ⟨mantissa, exponent⟩
    if 971 < rounded.exponent then none else some rounded

/-- How many decimal digits a number has; none for zero. -/
def digitCount (n : Nat) : Nat := if n = 0 then 0 else (Nat.toDigits 10 n).length

/-- The binary64 number nearest to `digits * 10 ^ exponent`. What is
written with an exponent far out is known without computing the power. -/
def Binary64.ofDecimal? (digits : Nat) (exponent : Int) : Option Binary64 :=
  let magnitude := (digitCount digits : Int) + exponent
  if digits = 0 || magnitude < -330 then some ⟨0, -1074⟩
  else if 310 < magnitude then none
  else nearest? (digits * Nat.pow 10 exponent.toNat) (Nat.pow 10 (-exponent).toNat)

end PropertyFile.Decimal
