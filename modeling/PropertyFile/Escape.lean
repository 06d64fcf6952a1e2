import PropertyFile.Marks
import PropertyFile.Text.Hex

/-!
# Escaping keys and values

What is written must read back as it was. A backslash takes the meaning
from the character behind it, so every character that would end a key
too early, be taken for a comment, or be swallowed by the separator is
written with a backslash in front. Line breaks, and in values also tab
and form feed, are written by name.

On request everything outside the printable ASCII characters is written
as a numeric escape, a character beyond the sixteenth bit as the two
surrogates that stand for it.
-/

namespace PropertyFile.Escape

/-- The numeric escape of a number below 2 ^ 16. -/
def numeric (code : Nat) : Text := '\\' :: 'u' :: Text.hex 4 code

/-- A character as numeric escapes: one, or the two of its surrogates. -/
def unicode (c : Char) : Text :=
  let code := c.toNat
  if code ≤ 0xffff then numeric code
  else numeric (0xd800 + (code - 0x10000) / 0x400) ++ numeric (0xdc00 + (code - 0x10000) % 0x400)

/-- Whether a character lies outside the printable ASCII characters. -/
def isForeign (c : Char) : Bool := c.toNat < 0x20 || 0x7e < c.toNat

/-- A character that needs no protection: itself, or its numeric escape
if `ascii` asks for it. -/
def plain (ascii : Bool) (c : Char) : Text :=
  if ascii && isForeign c then unicode c else [c]

/-- One character of a key; `first` tells whether the key starts with
it, where a comment mark needs a backslash too. -/
def keyChar (ascii first : Bool) (c : Char) : Text :=
  if c == '\n' then ['\\', 'n']
  else if c == '\r' then ['\\', 'r']
  else if isAssign c || isSpacing c || c == escapeMark then [escapeMark, c]
  else if first && isCommentMark c then [escapeMark, c]
  else plain ascii c

/-- **A key as it is written.** -/
def key (ascii : Bool) : Text → Text
  | [] => []
  | c :: rest => keyChar ascii true c ++ rest.flatMap (keyChar ascii false)

/-- One character of a value. At the start a space is protected, and an
assignment mark too when `marked` says that the separator in front has
none of its own. -/
def valueChar (ascii first marked : Bool) (c : Char) : Text :=
  if c == escapeMark then [escapeMark, escapeMark]
  else if c == '\t' then ['\\', 't']
  else if c == '\n' then ['\\', 'n']
  else if c == '\r' then ['\\', 'r']
  else if c == '\x0c' then ['\\', 'f']
  else if first && c == ' ' then [escapeMark, c]
  else if first && isAssign c && !marked then [escapeMark, c]
  else plain ascii c

/-- **A value as it is written** behind `separator`. -/
def value (ascii : Bool) (separator : Text) : Text → Text
  | [] => []
  | c :: rest =>
    valueChar ascii true (separator.any isAssign) c ++ rest.flatMap (valueChar ascii false true)

end PropertyFile.Escape
