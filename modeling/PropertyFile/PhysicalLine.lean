import PropertyFile.Text.Basic

/-!
# Physical lines

A file is a sequence of **physical lines**, each ended by a line feed, a
carriage return, or the pair of both; only the last one may go without.
A pair is always one break and never two. What the last line lacks, and
which break the file uses, is remembered beside the lines, so that a
file can be written back as it was.

The text is cut from the left (`PhysicalLines.cut`): every break starts
a new line, hence a text that ends in a break, and the empty text, have
an empty line too many at their end. `PhysicalLines.ofText` drops it.
Which break is the first one is found by a search of its own
(`PhysicalLines.firstBreak?`).
-/

namespace PropertyFile

/-- The three ways to end a line. -/
inductive LineBreak where
  /-- A line feed. -/
  | lf
  /-- A carriage return with the line feed behind it. -/
  | crlf
  /-- A carriage return alone. -/
  | cr
deriving DecidableEq, Repr, Inhabited

/-- The characters of a line break. -/
def LineBreak.chars : LineBreak → Text
  | .lf => ['\n']
  | .crlf => ['\r', '\n']
  | .cr => ['\r']

/-- The lines of a text, with what is needed to put it together again. -/
structure PhysicalLines where
  /-- The lines in order, without their breaks. -/
  lines : List Text
  /-- The first line break of the text, if it has one. -/
  firstBreak : Option LineBreak
  /-- Whether the text ends in a line break; true of the empty text. -/
  finalBreak : Bool
deriving DecidableEq, Repr

namespace PhysicalLines

/-- The first line of a text, and every later one with the break before
it. -/
def cut : Text → Text × List (LineBreak × Text)
  | [] => ([], [])
  | '\r' :: '\n' :: rest => let (line, later) := cut rest; ([], (.crlf, line) :: later)
  | '\r' :: rest => let (line, later) := cut rest; ([], (.cr, line) :: later)
  | '\n' :: rest => let (line, later) := cut rest; ([], (.lf, line) :: later)
  | c :: rest => let (line, later) := cut rest; (c :: line, later)

/-- The first line break of a text, searched for from the left. -/
def firstBreak? : Text → Option LineBreak
  | [] => none
  | '\r' :: '\n' :: _ => some .crlf
  | '\r' :: _ => some .cr
  | '\n' :: _ => some .lf
  | _ :: rest => firstBreak? rest

/-- **The physical lines of a text.** -/
def ofText (t : Text) : PhysicalLines :=
  let (first, later) := cut t
  let all := first :: later.map Prod.snd
  let finalBreak := all.getLast? = some []
  { lines := if finalBreak then all.dropLast else all
    firstBreak := firstBreak? t
    finalBreak }

end PhysicalLines

end PropertyFile
