import PropertyFile.Text.Basic

/-!
# Digits

A number may be written with the decimal digits of any script: each
script has the ten of them in a row (Unicode 14, category Nd). Beyond
those there are digits that are no decimal digits, such as superscripts
and circled numbers; they look like a number without being one.
-/

namespace PropertyFile.Text

/-- The code points of the digits zero, ascending. -/
def zeroDigits : List Nat := [
  0x30, 0x660, 0x6f0, 0x7c0, 0x966, 0x9e6, 0xa66, 0xae6, 0xb66, 0xbe6, 0xc66, 0xce6, 0xd66,
  0xde6, 0xe50, 0xed0, 0xf20, 0x1040, 0x1090, 0x17e0, 0x1810, 0x1946, 0x19d0, 0x1a80, 0x1a90,
  0x1b50, 0x1bb0, 0x1c40, 0x1c50, 0xa620, 0xa8d0, 0xa900, 0xa9d0, 0xa9f0, 0xaa50, 0xabf0,
  0xff10, 0x104a0, 0x10d30, 0x11066, 0x110f0, 0x11136, 0x111d0, 0x112f0, 0x11450, 0x114d0,
  0x11650, 0x116c0, 0x11730, 0x118e0, 0x11950, 0x11c50, 0x11d50, 0x11da0, 0x16a60, 0x16ac0,
  0x16b50, 0x1d7ce, 0x1d7d8, 0x1d7e2, 0x1d7ec, 0x1d7f6, 0x1e140, 0x1e2f0, 0x1e950, 0x1fbf0]

/-- Ranges of the digits that are not decimal digits. -/
def figureRanges : List (Nat × Nat) := [
  (0xb2, 0xb3), (0xb9, 0xb9), (0x1369, 0x1371), (0x19da, 0x19da), (0x2070, 0x2070),
  (0x2074, 0x2079), (0x2080, 0x2089), (0x2460, 0x2468), (0x2474, 0x247c), (0x2488, 0x2490),
  (0x24ea, 0x24ea), (0x24f5, 0x24fd), (0x24ff, 0x24ff), (0x2776, 0x277e), (0x2780, 0x2788),
  (0x278a, 0x2792), (0x10a40, 0x10a43), (0x10e60, 0x10e68), (0x11052, 0x1105a),
  (0x1f100, 0x1f10a)]

/-- The value of a decimal digit. -/
def digitValue? (c : Char) : Option Nat :=
  (zeroDigits.find? fun first => first ≤ c.toNat && c.toNat < first + 10).map (c.toNat - ·)

/-- Whether a character is a digit, decimal or not. -/
def isDigit (c : Char) : Bool :=
  (digitValue? c).isSome ||
    figureRanges.any fun (first, last) => first ≤ c.toNat && c.toNat ≤ last

/-- The number written by a text of decimal digits; `none` for the empty
text and for one with any other character. -/
def decimalValue? : Text → Option Nat
  | [] => none
  | digits => digits.foldlM (fun n c => (digitValue? c).map (10 * n + ·)) 0

end PropertyFile.Text
