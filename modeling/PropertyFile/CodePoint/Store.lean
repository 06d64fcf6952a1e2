import PropertyFile.CodePoint.Reading
import PropertyFile.Store.Basic

/-!
# Stores with halves

A plain store, one without list delimiter, include keys and global
separator, whose texts may hold halves of surrogate pairs. It is filled
from a text and saved as one, as the plain stores of characters are. A
half is written as it is, or as its numeric escape where these are asked
for.
-/

namespace PropertyFile

/-- The layout of one key. -/
structure CodeEntry where
  /-- The comment before the key, as it was read. -/
  comment : Option CodeText := none
  /-- How many blank lines stand before the comment. -/
  blankLines : Nat := 0
  /-- The text between key and value. -/
  separator : Text := defaultSeparator
  /-- Whether all values go on one line if they can. -/
  singleLine : Bool := true
deriving DecidableEq, Repr

/-- Properties with the layout of their file. -/
structure CodeStore where
  /-- Whether characters outside printable ASCII are written escaped. -/
  ascii : Bool := false
  /-- The values of the keys. -/
  values : List (CodeText × List CodeText) := []
  /-- The entries of the keys, in the order of writing. -/
  entries : List (CodeText × CodeEntry) := []
  /-- The comment at the top of the file. -/
  header : Option CodeText := none
  /-- The comment and blank lines behind the last property. -/
  footer : Option CodeText := none
  /-- The line break of the file. -/
  lineSeparator : Text := ['\n']
  /-- Whether the last line is ended by a line break. -/
  finalNewline : Bool := true
deriving DecidableEq, Repr

/-! ## Writing -/

/-- What a code point is written as, given how characters are. -/
def CodePoint.written (ascii : Bool) (write : Char → Text) : CodePoint → CodeText
  | .char c => (write c).points
  | .half n =>
    if ascii then (Escape.numeric (CodePoint.half n).number).points else [.half n]

namespace CodeText

/-- A key as it is written. -/
def escapedKey (ascii : Bool) : CodeText → CodeText
  | [] => []
  | c :: rest =>
    c.written ascii (Escape.keyChar ascii true) ++
      rest.flatMap (CodePoint.written ascii (Escape.keyChar ascii false))

/-- A value as it is written behind `separator`. -/
def escapedValue (ascii : Bool) (separator : Text) : CodeText → CodeText
  | [] => []
  | c :: rest =>
    c.written ascii (Escape.valueChar ascii true (separator.any isAssign)) ++
      rest.flatMap (CodePoint.written ascii (Escape.valueChar ascii false true))

/-- The text of lines, each ended by the terminator, the last one only if
`final` asks for it. -/
def ofLines (terminator : Text) (final : Bool) : List CodeText → CodeText
  | [] => []
  | [line] => if final then line ++ terminator.points else line
  | line :: next :: rest => line ++ terminator.points ++ ofLines terminator final (next :: rest)

/-- The lines of a comment block. -/
def blockLines : CodeText → List CodeText
  | [] => [[]]
  | c :: rest =>
    if c = .char '\n' then [] :: blockLines rest
    else
      match blockLines rest with
      | [] => [[c]]
      | line :: later => (c :: line) :: later

/-- The line as a comment line. -/
def withMark (line : CodeText) : CodeText :=
  if isCommentLine line.shape then line else .char '#' :: .char ' ' :: line

/-- The lines of a comment as they are written. -/
def commentLines (comment : Option CodeText) : List CodeText :=
  match comment with
  | none => []
  | some block => block.blockLines.map withMark

/-- The comment block with the given lines; `none` when there is no
line. -/
def blockOfLines : List CodeText → Option CodeText
  | [] => none
  | line :: rest => some (ofLines ['\n'] false (line :: rest))

/-- One block behind another. -/
def appendBlock : Option CodeText → Option CodeText → Option CodeText
  | first, none => first
  | none, second => second
  | some first, some second => some (first ++ .char '\n' :: second)

end CodeText

namespace CodeStore

open CodeText

/-- The lines of a key: its blank lines, of which `leading` adds one where
there is none, its comment, and a line for each of its values. -/
def keyLines (st : CodeStore) (leading : Bool) (key : CodeText) (e : CodeEntry)
    (values : List CodeText) : List CodeText :=
  List.replicate (if leading && e.blankLines == 0 then 1 else e.blankLines) [] ++
    commentLines e.comment ++
    values.map fun v =>
      escapedKey st.ascii key ++ e.separator.points ++ escapedValue st.ascii e.separator v

/-- The lines of some entries, `leading` being for the first of them; keys
without values have none. -/
def linesFrom (st : CodeStore) (leading : Bool) : List (CodeText × CodeEntry) → List CodeText
  | [] => []
  | (key, e) :: rest =>
    let later := st.linesFrom false rest
    match st.values.lookup key with
    | none => later
    | some vs => st.keyLines leading key e vs ++ later

/-- **The text of the store.** -/
def toText (st : CodeStore) : CodeText :=
  ofLines st.lineSeparator st.finalNewline
    (commentLines st.header ++ st.linesFrom st.header.isSome st.entries ++ commentLines st.footer)

/-! ## Reading -/

/-- The header among the lines before the first property. -/
def headerLines (lines : List CodeText) : List CodeText :=
  ((lines.reverse.dropWhile (· ≠ [])).dropWhile (· = [])).reverse

/-- The entry of the key of a property, from the one it had. -/
def entryFor (p : CodeProperty) : Option CodeEntry → CodeEntry
  | none =>
    { comment := blockOfLines (p.comments.dropWhile (· = []))
      blankLines := (p.comments.takeWhile (· = [])).length
      separator := p.separator }
  | some e =>
    { e with
      comment := appendBlock e.comment (blockOfLines (p.comments.dropWhile (· = [])))
      singleLine := false }

/-- The store with a further property. -/
def place (st : CodeStore) (p : CodeProperty) : CodeStore :=
  { st with
    values := OrderedMap.put p.key ((st.values.lookup p.key).getD [] ++ [p.value]) st.values
    entries := OrderedMap.put p.key (entryFor p (st.entries.lookup p.key)) st.entries }

/-- The store that properties make of an empty one: the first of them is
parted from the header. -/
def ofProperties (ascii : Bool) : List CodeProperty → CodeStore
  | [] => { ascii }
  | p :: rest =>
    let header := headerLines p.comments
    ({ p with comments := p.comments.drop header.length } :: rest).foldl place
      { ascii, header := blockOfLines header }

/-- **The store that a text is read into**; of a malformed text none. -/
def read (ascii : Bool) (t : CodeText) : Option CodeStore :=
  let reading := CodeReading.ofText t
  match reading.ending with
  | .failed _ _ _ => none
  | .complete trailing =>
    some { ofProperties ascii reading.properties with
      footer := blockOfLines trailing
      lineSeparator := ((PhysicalLines.firstBreak? t.shape).map LineBreak.chars).getD ['\n']
      finalNewline := t.finalBreak }

end CodeStore

end PropertyFile
