import PropertyFile.Text.Hex
import PropertyFile.Text.Printable

/-!
# Quoted texts in messages

A message that names a text shows it quoted, so that blanks at its ends
and characters without a picture can be seen. The quotation mark is the
apostrophe, except when the text holds an apostrophe and no double
quotation mark.
-/

namespace PropertyFile.Text

/-- The quotation mark around a text. -/
def quotationMark (t : Text) : Char :=
  if t.contains '\'' && !t.contains '"' then '"' else '\''

/-- How one character is shown between the quotation marks `mark`: the
mark itself and the backslash behind a backslash, line feed, carriage
return and tab by name, what is not printable by its code point in two,
four or eight hexadecimal digits, and all else as it is. -/
def quotedChar (mark c : Char) : Text :=
  if c == mark || c == '\\' then ['\\', c]
  else if c == '\n' then ['\\', 'n']
  else if c == '\r' then ['\\', 'r']
  else if c == '\t' then ['\\', 't']
  else if isPrintable c then [c]
  else codePointEscape c

/-- The text as a message quotes it. -/
def quoted (t : Text) : String :=
  let mark := quotationMark t
  str (mark :: t.flatMap (quotedChar mark) ++ [mark])

end PropertyFile.Text
