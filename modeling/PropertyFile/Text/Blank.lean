import PropertyFile.Text.Basic

/-!
# Blank characters

Two notions of blank meet in a property file. The **tokenizer** of a
property line knows three characters only, space, tab and form feed
(`Text.isSpacing`, in `PropertyFile.Marks`). Everything else — telling
a comment line from a property, trimming the parts of a list, cleaning
a comment for display — uses the wider notion of this module: the
characters with Unicode's white space property, together with the four
information separators.
-/

namespace PropertyFile.Text

/-- Whether a character is **blank**: one of U+0009 to U+000D, U+001C to
U+0020, U+0085, U+00A0, U+1680, U+2000 to U+200A, U+2028, U+2029,
U+202F, U+205F and U+3000. -/
def isBlank (c : Char) : Bool :=
  let n := c.toNat
  (9 ≤ n && n ≤ 13) || (0x1c ≤ n && n ≤ 0x20) || n == 0x85 || n == 0xa0 || n == 0x1680 ||
    (0x2000 ≤ n && n ≤ 0x200a) || n == 0x2028 || n == 0x2029 || n == 0x202f || n == 0x205f ||
    n == 0x3000

/-- The text without the blank characters at its start. -/
def stripLeft (t : Text) : Text := t.dropWhile isBlank

/-- The text without the blank characters at its two ends. -/
def strip (t : Text) : Text := dropEndWhile isBlank (stripLeft t)

end PropertyFile.Text
