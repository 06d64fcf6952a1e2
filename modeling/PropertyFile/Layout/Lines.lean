import PropertyFile.Escape
import PropertyFile.Layout.Basic
import PropertyFile.ListDelimiter

/-!
# The lines of a file

Writing a store along its layout yields a list of **lines**
(`Layout.lines`): those of the header, then for every key of the layout
that has values its segment — blank lines, comment, value lines — and
last those of the footer. Keys without values leave nothing behind, not
even their comment.

The header is kept apart from the first key of the layout by a blank
line if that key has none of its own; without it, the next reading
would take the header for the comment of that key.

How lines become text is a matter of its own: each is ended by the line
break of the file, the last one only on request (`textOfLines`).
-/

namespace PropertyFile

/-- Puts a terminator between each two lines, and behind the last one if
`final` asks for it. -/
def writtenPieces (terminator : Text) (final : Bool) : List Text → List Text
  | [] => []
  | [line] => if final then [line, terminator] else [line]
  | line :: next :: rest => line :: terminator :: writtenPieces terminator final (next :: rest)

/-- **The text of lines**, each ended by the terminator, the last one
only if `final` asks for it. -/
def textOfLines (terminator : Text) (final : Bool) (lines : List Text) : Text :=
  (writtenPieces terminator final lines).flatten

/-- How properties are written, apart from their layout. -/
structure WriteStyle where
  /-- The delimiter that puts several values on a line. -/
  delimiter : Option ListDelimiter
  /-- Whether characters outside printable ASCII are escaped. -/
  ascii : Bool

/-- One property line. -/
def propertyLine (ascii : Bool) (key separator value : Text) : Text :=
  Escape.key ascii key ++ separator ++ value

/-- **The lines of a property**: one with all values if it has a single
one, or if `singleLine` asks for it and the values can be joined; else
one for each value. -/
def propertyLines (style : WriteStyle) (separator key : Text) (values : List Text)
    (singleLine : Bool) : List Text :=
  let escaped := values.map (Escape.value style.ascii separator)
  let separate := escaped.map fun value =>
    propertyLine style.ascii key separator (ListDelimiter.protect style.delimiter value)
  if values.isEmpty then []
  else if singleLine || values.length == 1 then
    match ListDelimiter.join style.delimiter escaped with
    | some joined => [propertyLine style.ascii key separator joined]
    | none => separate
  else separate

namespace Layout

/-- What a key contributes to the file. -/
structure Segment where
  /-- Its blank lines, the one that keeps the header apart included. -/
  blankLines : Nat
  /-- The lines of its comment. -/
  comments : List Text
  /-- The lines of its values. -/
  properties : List Text
deriving DecidableEq, Repr

/-- The lines of a segment. -/
def Segment.lines (s : Segment) : List Text :=
  List.replicate s.blankLines [] ++ s.comments ++ s.properties

/-- The lines of a comment as they are written: with marks enforced. -/
def commentLines (comment : Option Text) : List Text :=
  match comment with
  | none => []
  | some block => (Comment.lines block).map (Comment.convertLine true)

/-- The segment of a key with its entry; `leading` adds a blank line
where the entry has none. -/
def segment (l : Layout) (style : WriteStyle) (leading : Bool) (key : Text) (e : Entry)
    (values : List Text) : Segment :=
  { blankLines := if leading && e.blankLines == 0 then 1 else e.blankLines
    comments := commentLines e.comment
    properties :=
      propertyLines style (l.globalSeparator.getD e.separator) key values
        (l.forceSingleLine || e.singleLine) }

/-- The segments of some entries, `leading` being for the first of them;
those without values have none. -/
def segmentsFrom (l : Layout) (style : WriteStyle) (values : OrderedMap (List Text))
    (leading : Bool) : List (Text × Entry) → List Segment
  | [] => []
  | (key, e) :: rest =>
    let later := l.segmentsFrom style values false rest
    match values.get? key with
    | none => later
    | some vs => l.segment style leading key e vs :: later

/-- The segments of the file. -/
def segments (l : Layout) (style : WriteStyle) (values : OrderedMap (List Text)) : List Segment :=
  l.segmentsFrom style values l.header.isSome l.entries.entries

/-- **The lines of the file** for the given values. -/
def lines (l : Layout) (style : WriteStyle) (values : OrderedMap (List Text)) : List Text :=
  commentLines l.header ++ (l.segments style values).flatMap Segment.lines ++
    commentLines l.footer

/-- The pieces in which the file is written: lines and line breaks in
turn. -/
def pieces (l : Layout) (style : WriteStyle) (values : OrderedMap (List Text)) : List Text :=
  writtenPieces l.lineSeparator l.finalNewline (l.lines style values)

/-- **The text of the file** for the given values. -/
def save (l : Layout) (style : WriteStyle) (values : OrderedMap (List Text)) : Text :=
  textOfLines l.lineSeparator l.finalNewline (l.lines style values)

end Layout

end PropertyFile
