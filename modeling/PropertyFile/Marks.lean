import PropertyFile.Text.Basic

/-!
# The marks of the format

The characters that mean something in a property file: those that may
separate a key from its value, those that open a comment, and the
backslash, which takes the meaning from the character behind it.
-/

namespace PropertyFile

/-- The escape character: the backslash. -/
abbrev escapeMark : Char := '\\'

/-- Whether a character is **spacing**: space, tab or form feed, the
three characters that part a key from its value. -/
def isSpacing (c : Char) : Bool := c == ' ' || c == '\t' || c == '\x0c'

/-- Whether a character is an **assignment mark**: an equals sign or a
colon, of which a separator holds at most one. -/
def isAssign (c : Char) : Bool := c == '=' || c == ':'

/-- Whether a character opens a comment. -/
def isCommentMark (c : Char) : Bool := c == '#' || c == '!'

/-- The separator of a property that was never read from a file. -/
def defaultSeparator : Text := [' ', '=', ' ']

end PropertyFile
