import PropertyFile.Text.Hex
import PropertyFile.Value

/-!
# JSON documents

Texts and lists of texts as a JSON object. Only quotation marks,
backslashes and control characters are escaped; all other characters
stand for themselves. An object, and a list, have one line for each
member, indented by two spaces more than the brackets around it.
-/

namespace PropertyFile.Json

/-- How a character is written in a string. -/
def escapeChar (c : Char) : Text :=
  if c = '"' || c = '\\' then ['\\', c]
  else if c = '\n' then ['\\', 'n']
  else if c = '\r' then ['\\', 'r']
  else if c = '\t' then ['\\', 't']
  else if c = '\x08' then ['\\', 'b']
  else if c = '\x0c' then ['\\', 'f']
  else if c.toNat < 0x20 then '\\' :: 'u' :: Text.hex 4 c.toNat
  else [c]

/-- A text as a string. -/
def writeString (t : Text) : Text := '"' :: t.flatMap escapeChar ++ ['"']

/-- Members between brackets, each on a line of its own, indented by the
given number of spaces. -/
def block (opening closing : Char) (indent : Nat) (members : List Text) : Text :=
  let line := '\n' :: List.replicate indent ' '
  if members.isEmpty then [opening, closing]
  else
    opening :: Text.joinWith [','] (members.map (line ++ [' ', ' '] ++ ·)) ++ line ++ [closing]

/-- A text, or a list of texts, as a member of an object. -/
def writeValue : PropertyFile.Value → Text
  | .one t => writeString t
  | .many ts => block '[' ']' 2 (ts.map writeString)

/-- **The object with the given members.** -/
def write (members : List (Text × PropertyFile.Value)) : Text :=
  block '\x7b' '\x7d' 0 (members.map fun (key, v) => writeString key ++ [':', ' '] ++ writeValue v)

/-- An object with the given members on a single line. -/
def writeLine (members : List (Text × Text)) : Text :=
  '\x7b' :: Text.joinWith [',', ' '] (members.map fun (key, t) =>
    writeString key ++ [':', ' '] ++ writeString t) ++ ['\x7d']

end PropertyFile.Json
