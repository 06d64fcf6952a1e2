import PropertyFile.Text.Basic

/-!
# Hexadecimal digits

Numbers of a fixed number of hexadecimal digits, as numeric escapes
write them: small letters, filled up with zeros on the left.
-/

namespace PropertyFile.Text

/-- The hexadecimal digit of a number below sixteen. -/
def hexDigit (n : Nat) : Char :=
  if n < 10 then Char.ofNat (0x30 + n) else Char.ofNat (0x57 + n)

/-- The last `width` hexadecimal digits of a number. -/
def hex : (width : Nat) → Nat → Text
  | 0, _ => []
  | width + 1, n => hex width (n / 16) ++ [hexDigit (n % 16)]

/-- The value of a hexadecimal digit, in small or capital letters. -/
def hexValue? (c : Char) : Option Nat :=
  let n := c.toNat
  if 0x30 ≤ n && n ≤ 0x39 then some (n - 0x30)
  else if 0x61 ≤ n && n ≤ 0x66 then some (n - 0x57)
  else if 0x41 ≤ n && n ≤ 0x46 then some (n - 0x37)
  else none

/-- The number written by hexadecimal digits alone. -/
def hexNumber? (digits : Text) : Option Nat :=
  digits.foldlM (fun n c => (hexValue? c).map (16 * n + ·)) 0

/-- A character by its code point, in two, four or eight hexadecimal
digits. -/
def codePointEscape (c : Char) : Text :=
  let n := c.toNat
  if n ≤ 0xff then '\\' :: 'x' :: hex 2 n
  else if n ≤ 0xffff then '\\' :: 'u' :: hex 4 n
  else '\\' :: 'U' :: hex 8 n

@[simp] theorem length_hex (width n : Nat) : (hex width n).length = width := by
  induction width generalizing n with
  | zero => rfl
  | succ width ih => simp [hex, ih]

/-- What holds of every digit holds of those of a number. -/
theorem forall_mem_hex {p : Char → Prop} (h : ∀ m < 16, p (hexDigit m)) (width n : Nat) :
    ∀ c ∈ hex width n, p c := by
  induction width generalizing n with
  | zero => exact fun c hc => absurd hc List.not_mem_nil
  | succ width ih =>
    rw [hex, List.forall_mem_append, List.forall_mem_singleton]
    exact ⟨ih (n / 16), h _ (Nat.mod_lt n (by decide))⟩

/-! ## Digits read back -/

theorem hexValue?_hexDigit : ∀ n, n < 16 → hexValue? (hexDigit n) = some n := by decide

theorem hexNumber?_concat (digits : Text) (c : Char) :
    hexNumber? (digits ++ [c]) =
      (hexNumber? digits).bind fun n => (hexValue? c).map (16 * n + ·) := by
  unfold hexNumber?
  rw [List.foldlM_append]
  cases digits.foldlM (fun n c => (hexValue? c).map (16 * n + ·)) 0 with
  | none => rfl
  | some n => cases h : hexValue? c <;> simp [h]

/-- A number that fits into its digits is read back from them. -/
theorem hexNumber?_hex {width n : Nat} (h : n < Nat.pow 16 width) :
    hexNumber? (hex width n) = some n := by
  induction width generalizing n with
  | zero =>
    have hn : n = 0 := Nat.lt_one_iff.1 h
    rw [hn]
    rfl
  | succ width ih =>
    have hdiv : n / 16 < Nat.pow 16 width :=
      Nat.div_lt_of_lt_mul (Nat.mul_comm (Nat.pow 16 width) 16 ▸ h)
    rw [hex, hexNumber?_concat, ih hdiv, Option.bind_some,
      hexValue?_hexDigit _ (Nat.mod_lt n (by decide)), Option.map_some, Nat.div_add_mod]

end PropertyFile.Text
