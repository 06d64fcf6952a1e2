import PropertyFile.Text.Hex
import PropertyFile.Value

/-!
# Writing a document

Texts and lists of texts as a TOML document, one key on each line. Every
text is written as a string on one line; a key that consists of ASCII
letters, digits, hyphens and underscores is written as it is, any other
one like a string. A key without value leaves no line behind.
-/

namespace PropertyFile.Toml

/-- How a character is written in a string: quotation marks and
backslashes behind a backslash, control characters by a letter or by
their code point. -/
def escapeChar (c : Char) : Text :=
  if c = '"' || c = '\\' then ['\\', c]
  else if c = '\x08' then ['\\', 'b']
  else if c = '\t' then ['\\', 't']
  else if c = '\n' then ['\\', 'n']
  else if c = '\x0c' then ['\\', 'f']
  else if c = '\r' then ['\\', 'r']
  else if c.toNat < 0x20 || c.toNat = 0x7f then '\\' :: 'u' :: Text.hex 4 c.toNat
  else [c]

/-- A text as a string. -/
def writeString (t : Text) : Text := '"' :: t.flatMap escapeChar ++ ['"']

/-- A key as it is written. -/
def writeKey (key : Text) : Text :=
  if !key.isEmpty && key.all fun c => c.isAlphanum || c == '-' || c == '_' then key
  else writeString key

/-- A text, or a list of texts, as it is written. -/
def writeValue : PropertyFile.Value → Text
  | .one t => writeString t
  | .many ts => '[' :: Text.joinWith [',', ' '] (ts.map writeString) ++ [']']

/-- **The document with the given values**, for the keys that have one. -/
def write (entries : List (Text × Option PropertyFile.Value)) : Text :=
  entries.flatMap fun (key, v) =>
    match v with
    | none => []
    | some v => writeKey key ++ [' ', '=', ' '] ++ writeValue v ++ ['\n']

end PropertyFile.Toml
