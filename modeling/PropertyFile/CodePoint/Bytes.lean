import PropertyFile.CodePoint.Basic
import PropertyFile.Encoding

/-!
# Bytes that write code points

Some encodings can write any code point by its number, halves of surrogate
pairs included. In the one of this module a byte is the character of its
number, except where a backslash and a letter announce a number in
hexadecimal digits: four of them behind `u`, eight behind `U`. Any other
byte behind a backslash is left there together with it.
-/

namespace PropertyFile

/-- The code point of a number, if there is one. -/
def CodePoint.ofNumber? (n : Nat) : Option CodePoint :=
  if h : 0xd800 ≤ n ∧ n - 0xd800 < 0x800 then some (.half ⟨n - 0xd800, h.2⟩)
  else if n < 0x110000 then some (.char (Char.ofNat n))
  else none

namespace CodeText

/-- The character of a byte. -/
def byteChar (b : UInt8) : Char := Char.ofNat b.toNat

/-- How many digits a letter behind a backslash announces. -/
def announcedDigits? (letter : Char) : Option Nat :=
  if letter = 'u' then some 4
  else if letter = 'U' then some 8
  else none

/-- What is wrong with a number that lacks some of its digits. -/
def truncatedNumber (digits : Nat) : String :=
  if digits = 4 then "truncated \\uXXXX escape" else "truncated \\UXXXXXXXX escape"

/-- What is wrong with a number that no code point has. -/
def numberOutOfRange : String := "\\Uxxxxxxxx out of range"

/-- The code point whose number is written in the first `digits` of some
characters; else how many of these are part of the fault, and what is
wrong. -/
def numbered (digits : Nat) (t : Text) : Except (Nat × String) CodePoint :=
  let found := (t.take digits).takeWhile fun c => (Text.hexValue? c).isSome
  match Text.hexNumber? found with
  | none => .error (0, truncatedNumber digits)
  | some n =>
    if found.length < digits then .error (found.length, truncatedNumber digits)
    else
      match CodePoint.ofNumber? n with
      | some c => .ok c
      | none => .error (digits, numberOutOfRange)

/-- The text of bytes, the first of them at position `pos`; the next
`taken` of them belong to what stands before them. -/
def decodeFrom (pos : Nat) : (taken : Nat) → List UInt8 → Except DecodeError CodeText
  | _, [] => .ok []
  | taken + 1, _ :: rest => decodeFrom (pos + 1) taken rest
  | 0, b :: rest =>
    match byteChar b, rest.map byteChar with
    | '\\', letter :: behind =>
      match announcedDigits? letter with
      | none => (decodeFrom (pos + 1) 1 rest).map fun t => .char '\\' :: .char letter :: t
      | some digits =>
        match numbered digits behind with
        | .ok c => (decodeFrom (pos + 1) (digits + 1) rest).map (c :: ·)
        | .error (count, reason) =>
          .error {
            codec := "rawunicodeescape", byte := b, first := pos, count := count + 2, reason }
    | c, _ => (decodeFrom (pos + 1) 0 rest).map (.char c :: ·)

/-- **The text of bytes that write code points.** -/
def ofBytes (bytes : List UInt8) : Except DecodeError CodeText := decodeFrom 0 0 bytes

/-- The name of the encoding, as it is normalized. -/
def encodingName : Text := "raw_unicode_escape".toList

/-- Whether bytes are written in this encoding by its name. -/
def isEncoding (name : Text) : Bool :=
  !name.contains '\x00' && Encoding.normalizeName name == encodingName

end CodeText

end PropertyFile
