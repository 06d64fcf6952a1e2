import PropertyFile.Text.Quoted

/-!
# Code points

A text of this library is a list of characters (`Text`). Where texts are
sequences of code points, they may also hold **halves** of surrogate
pairs, which are code points and no characters: a caller may set such a
value, and a lenient codec may read one. A text of this kind is a
`CodeText`.

No half means anything to the format. So wherever only its marks matter,
such as where a line is a comment or where a key ends, a text is judged by
its **shape**, which shows each half as U+FFFD; the halves themselves stay
in the text.
-/

namespace PropertyFile

/-- A code point. -/
inductive CodePoint where
  /-- A character. -/
  | char (c : Char)
  /-- Half of a surrogate pair, counted from U+D800. -/
  | half (n : Fin 0x800)
deriving DecidableEq, Repr

namespace CodePoint

/-- The number of a code point. -/
def number : CodePoint → Nat
  | char c => c.toNat
  | half n => 0xd800 + n

/-- The character that a code point looks like. -/
def shape : CodePoint → Char
  | char c => c
  | half _ => '\ufffd'

end CodePoint

/-- A text that may hold halves of surrogate pairs. -/
abbrev CodeText := List CodePoint

/-- The code points of a text of characters. -/
def Text.points (t : Text) : CodeText := t.map .char

namespace CodeText

/-- What a text looks like. -/
def shape (t : CodeText) : Text := t.map CodePoint.shape

/-- How one code point is shown between the quotation marks `mark`. -/
def quotedPoint (mark : Char) : CodePoint → Text
  | .char c => Text.quotedChar mark c
  | .half n => '\\' :: 'u' :: Text.hex 4 (CodePoint.half n).number

/-- The text as a message quotes it. -/
def quoted (t : CodeText) : String :=
  let mark := Text.quotationMark t.shape
  Text.str (mark :: t.flatMap (quotedPoint mark) ++ [mark])

end CodeText

end PropertyFile
