import PropertyFile.Comment
import PropertyFile.PhysicalLine
import PropertyFile.PropertyLine
import PropertyFile.Unescape

/-!
# Reading a text as properties

Reading turns the physical lines of a text into **properties**, each
with the comment and blank lines that stand before it. A line that is
no comment line starts a property; while the line read so far ends in
an odd number of backslashes, the next physical line continues it,
whatever that line looks like. What is left over at the end of the text
belongs to no property.

A text may be malformed at two places: inside a property, where a
numeric escape lacks its digits, and at its end, where a line is
announced that does not follow. Reading then stops, and the result
(`Reading`) holds the properties before the fault together with how it
ended.
-/

namespace PropertyFile

/-- A property as it was read. -/
structure Property where
  /-- The key, its escapes resolved. -/
  key : Text
  /-- The value, its escapes resolved but for those of kept characters. -/
  value : Text
  /-- The literal text between key and value. -/
  separator : Text
  /-- The comment and blank lines since the property before. -/
  comments : List Text
  /-- The number of the physical line the property starts on, from 1. -/
  line : Nat
deriving DecidableEq, Repr

/-- What makes a text malformed. -/
inductive ReadFault where
  /-- The last line of the text asks for a line to continue it. -/
  | unterminated
  /-- A numeric escape lacks its four hexadecimal digits. -/
  | escape (e : MalformedEscape)
deriving DecidableEq, Repr

/-- What is said of a fault. -/
def ReadFault.message : ReadFault → String
  | .unterminated => "Unterminated line continuation"
  | .escape e => e.message

/-- A place in a source, as far as it is known. -/
structure Place where
  /-- The name of the source. -/
  source : Option Text
  /-- The number of the line, from 1. -/
  line : Option Nat
deriving DecidableEq, Repr

/-- A place as messages show it. A source without a name, or with an
empty one, is called a stream. -/
def Place.label (p : Place) : String :=
  let name := match p.source with
    | none | some [] => "<stream>"
    | some name => Text.str name
  match p.line with
  | none => name
  | some line => name ++ ":" ++ toString line

/-- A message about a place. -/
def Place.message (p : Place) (text : String) : String := p.label ++ ": " ++ text

/-- How reading a text ended. -/
inductive Ending where
  /-- At the end of the text, with the comment and blank lines behind
  the last property. -/
  | complete (trailing : List Text)
  /-- At a fault, with the comment and blank lines read before it and
  the number of the line it is reported for. -/
  | failed (pending : List Text) (fault : ReadFault) (line : Nat)
deriving DecidableEq, Repr

/-- The properties of a text in order, and how reading it ended. -/
structure Reading where
  /-- The properties that were read. -/
  properties : List Property
  /-- What came after them. -/
  ending : Ending
deriving DecidableEq, Repr

/-- Whether a line announces a continuation: whether it ends in an odd
number of backslashes. -/
def endsWithContinuation (line : Text) : Bool :=
  (line.reverse.takeWhile (· == escapeMark)).length % 2 == 1

/-- The property on a logical line. The key resolves all its escapes,
the value keeps those of the characters in `kept`. -/
def Property.ofLine (kept : Text) (comments : List Text) (number : Nat) (line : Text) :
    Except MalformedEscape Property := do
  let parts := LineParts.ofLine line
  let key ← unescape [] parts.key
  let value ← unescape kept parts.value
  return { key, value, separator := parts.separator, comments, line := number }

namespace Reading

/-- A property whose last line so far announced another one. -/
structure Unfinished where
  /-- The number of the line it starts on. -/
  start : Nat
  /-- Its lines so far, joined, the last backslash removed. -/
  line : Text
deriving DecidableEq, Repr

/-- Reads on at physical line `number`, with the comment lines `pending`
and, inside a continued property, its beginning. -/
def run (kept : Text) (number : Nat) (pending : List Text) (unfinished : Option Unfinished) :
    List Text → Reading
  | [] =>
    match unfinished with
    | none => ⟨[], .complete pending⟩
    | some _ => ⟨[], .failed pending .unterminated (number - 1)⟩
  | physical :: rest =>
    if unfinished.isNone && isCommentLine physical then
      run kept (number + 1) (pending ++ [physical]) none rest
    else
      let start := (unfinished.map Unfinished.start).getD number
      let line := (unfinished.map Unfinished.line).getD [] ++ physical.dropWhile isSpacing
      if endsWithContinuation line then
        run kept (number + 1) pending (some ⟨start, line.dropLast⟩) rest
      else
        match Property.ofLine kept pending start line with
        | .error e => ⟨[], .failed pending (.escape e) start⟩
        | .ok property =>
          let later := run kept (number + 1) [] none rest
          ⟨property :: later.properties, later.ending⟩

/-- **Reading physical lines from the first one on.** -/
def ofLines (kept : Text) (lines : List Text) : Reading := run kept 1 [] none lines

end Reading

end PropertyFile
