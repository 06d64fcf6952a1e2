import PropertyFile.Marks
import PropertyFile.Text.Hex
import PropertyFile.Text.Quoted

/-!
# Resolving escapes

Reading undoes what writing escaped, and more: a backslash before a
character without a meaning of its own is dropped, and one at the very
end stands for itself. Numeric escapes name sixteen bits at a time, so
resolving them yields **code points** that may be halves of a surrogate
pair (`Unescape.codes`); in a second step (`Unescape.join`) two halves
in a row become one character and a half without its partner becomes
U+FFFD.

Some escapes may have to survive for a later stage: the characters in
`kept` keep their backslash.
-/

namespace PropertyFile

/-- A numeric escape without its four hexadecimal digits. -/
structure MalformedEscape where
  /-- The escape as far as it reached, at most six characters. -/
  fragment : Text
deriving DecidableEq, Repr

/-- What is said of a malformed escape. -/
def MalformedEscape.message (e : MalformedEscape) : String :=
  "Malformed \\uXXXX escape: " ++ Text.quoted e.fragment

namespace Unescape

/-- The character that the letter behind a backslash stands for. -/
def named (c : Char) : Char :=
  if c == 't' then '\t'
  else if c == 'n' then '\n'
  else if c == 'r' then '\r'
  else if c == 'f' then '\x0c'
  else c

/-- The code point written by four hexadecimal digits. -/
def fourDigits? (a b c d : Char) : Option Nat := Text.hexNumber? [a, b, c, d]

/-- **The code points of an escaped text**, halves of surrogate pairs
still apart. -/
def codes (kept : Text) : Text → Except MalformedEscape (List Nat)
  | [] => .ok []
  | c :: rest =>
    if c = escapeMark then
      match rest with
      | [] => .ok [escapeMark.toNat]
      | e :: rest =>
        if kept.contains e then
          (codes kept rest).map (escapeMark.toNat :: e.toNat :: ·)
        else if e = 'u' then
          match rest with
          | h₁ :: h₂ :: h₃ :: h₄ :: rest' =>
            match fourDigits? h₁ h₂ h₃ h₄ with
            | some code => (codes kept rest').map (code :: ·)
            | none => .error ⟨[escapeMark, 'u', h₁, h₂, h₃, h₄]⟩
          | cutOff => .error ⟨escapeMark :: 'u' :: cutOff⟩
        else (codes kept rest).map ((named e).toNat :: ·)
    else (codes kept rest).map (c.toNat :: ·)

/-- Whether a code point is the first half of a surrogate pair. -/
def isHigh (code : Nat) : Bool := 0xd800 ≤ code && code ≤ 0xdbff

/-- Whether a code point is the second half of a surrogate pair. -/
def isLow (code : Nat) : Bool := 0xdc00 ≤ code && code ≤ 0xdfff

/-- The character of a code point; U+FFFD for half a surrogate pair. -/
def single (code : Nat) : Char :=
  if isHigh code || isLow code then '\ufffd' else Char.ofNat code

/-- The character that two halves of a pair stand for. -/
def pair (high low : Nat) : Char :=
  Char.ofNat (0x10000 + (high - 0xd800) * 0x400 + (low - 0xdc00))

/-- **The text of a list of code points**: each first half with the
second half behind it is one character. -/
def join : List Nat → Text
  | [] => []
  | [code] => [single code]
  | high :: low :: rest =>
    if isHigh high && isLow low then pair high low :: join rest
    else single high :: join (low :: rest)

end Unescape

/-- **A text with its escapes resolved**, those of the characters in
`kept` left as they are. -/
def unescape (kept : Text) (t : Text) : Except MalformedEscape Text :=
  (Unescape.codes kept t).map Unescape.join

end PropertyFile
