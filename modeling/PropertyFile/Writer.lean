import PropertyFile.Layout.Lines

/-!
# Writing line by line

A writer builds a file from calls that each add some text, a line, a
comment or a property. A line is not ended when it is written but when
the next one begins, so whether the last line gets a line break is
decided at the very end (`Writer.finish`). Only text handed to
`Writer.write` goes onto the line in progress.
-/

namespace PropertyFile

/-- How a writer writes. -/
structure WriterOptions where
  /-- The delimiter and the escaping of properties. -/
  style : WriteStyle
  /-- The line break behind each line. -/
  terminator : Text
  /-- A separator that replaces all others. -/
  globalSeparator : Option Text

/-- What has been written, and what is due before the next text. -/
structure Writer where
  /-- The text so far. -/
  output : Text := []
  /-- Whether the line break of the last line is still due. -/
  breakDue : Bool := false
  /-- The separator of the next property. -/
  separator? : Option Text := none
deriving DecidableEq, Repr

namespace Writer

/-- Adds text, behind the line break that is due. -/
def write (o : WriterOptions) (w : Writer) (t : Text) : Writer :=
  { w with
    output := w.output ++ (if w.breakDue then o.terminator else []) ++ t
    breakDue := false }

/-- Adds a line. -/
def writeLine (o : WriterOptions) (w : Writer) (line : Text) : Writer :=
  { w.write o line with breakDue := true }

/-- Adds lines one after the other. -/
def writeLines (o : WriterOptions) (w : Writer) (lines : List Text) : Writer :=
  lines.foldl (writeLine o) w

/-- Adds the lines of a comment block as they are. -/
def writeComment (o : WriterOptions) (w : Writer) (comment : Option Text) : Writer :=
  match comment with
  | none => w
  | some block => w.writeLines o (Comment.lines block)

/-- The separator of the next property. -/
def separator (o : WriterOptions) (w : Writer) : Text :=
  o.globalSeparator.getD (w.separator?.getD [])

/-- Adds the lines of a property. -/
def writeProperty (o : WriterOptions) (w : Writer) (key : Text) (values : List Text)
    (singleLine : Bool) : Writer :=
  w.writeLines o (propertyLines o.style (w.separator o) key values singleLine)

/-- Ends the last line if `final` asks for it. -/
def finish (o : WriterOptions) (w : Writer) (final : Bool) : Writer :=
  { w with
    output := w.output ++ (if w.breakDue && final then o.terminator else [])
    breakDue := false }

end Writer

end PropertyFile
