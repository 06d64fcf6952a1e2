import PropertyFile.Layout.Basic
import PropertyFile.LoadError

/-!
# Filling a layout

Loading gives every comment and blank line of a text its place. The
lines read before a property belong to it, except that before the very
first key of the outermost text they may hold the **header**: the lines
in front of the last blank lines (`Layout.cutHeader`). Of what belongs
to a property, the blank lines at the start are counted and the rest is
its comment. A key that occurs again keeps its entry, gets the lines as
a further comment block and is written on several lines from then on.
What is left at the end of the outermost text is the footer.

What becomes of the value is not the layout's concern. Loading hands
every property to a **receiver**, which may keep it, or consume it —
then the layout takes no notice of it — or stop the whole load. The
receiver carries a state of its own beside the layout, and may change
both: that is how an included text comes to be loaded in the middle of
the including one.
-/

namespace PropertyFile

/-- What a load runs on: the layout and the state of the receiver, with
the verdict on a property or the error that stops the load. -/
abbrev Receiver (σ : Type) := Property → Layout × σ → Except LoadError Bool × (Layout × σ)

namespace Layout

/-! ## Comment blocks -/

/-- The header among the lines before the first property: what stands in
front of the last line that is not blank but for those directly before
the property, and of the blank lines behind it. -/
def headerLines (lines : List Text) : List Text :=
  ((lines.reverse.dropWhile (· ≠ [])).dropWhile (· = [])).reverse

/-- The layout with the header found in the lines before the first
property, unless one was set before. -/
def takeHeader (l : Layout) (lines : List Text) : Layout :=
  { l with header := l.header <|> Comment.ofLines (headerLines lines) }

/-- The layout with its header taken from the lines before a property,
if they may hold one, and the lines that belong to the property. -/
def cutHeader (outermost : Bool) (l : Layout) (lines : List Text) : Layout × List Text :=
  if outermost && l.entries.size == 0 then
    (l.takeHeader lines, lines.drop (headerLines lines).length)
  else (l, lines)

/-- The entry of a key that occurs for the first time, from the lines
that belong to it. -/
def firstEntry (block : List Text) (separator : Text) : Entry :=
  { comment := Comment.ofLines (block.dropWhile (· = []))
    blankLines := (block.takeWhile (· = [])).length
    separator }

/-- The entry of a key that occurs again, from the one it had and the
lines that belong to the occurrence. -/
def laterEntry (e : Entry) (block : List Text) : Entry :=
  { e.addComment (Comment.ofLines (block.dropWhile (· = []))) with singleLine := false }

/-- **The layout with a property placed in it.** -/
def place (outermost : Bool) (l : Layout) (p : Property) : Layout :=
  let (l, block) := l.cutHeader outermost p.comments
  { l with entries := l.entries.update p.key fun
      | none => firstEntry block p.separator
      | some e => laterEntry e block }

/-- The layout with its footer taken from the lines behind the last
property. -/
def takeFooter (l : Layout) (lines : List Text) : Layout :=
  let kept := if l.keepTrailingBlankLines then lines
    else (lines.reverse.dropWhile (· = [])).reverse
  { l with footer := Comment.ofLines kept }

/-! ## Running through a text -/

variable {σ : Type}

/-- Hands properties to the receiver one after the other, and places
those that it keeps. -/
def placeAll (receive : Receiver σ) (outermost : Bool) :
    List Property → Layout × σ → Except LoadError Unit × (Layout × σ)
  | [], s => (.ok (), s)
  | p :: rest, s =>
    match receive p s with
    | (.error e, s) => (.error e, s)
    | (.ok false, s) => placeAll receive outermost rest s
    | (.ok true, (l, s)) => placeAll receive outermost rest (l.place outermost p, s)

/-- The layout at the start of a load: one level deeper, with the line
break of the text if none was known. The outermost text also settles
whether the file ends in a line break. -/
def enter (l : Layout) (physical : PhysicalLines) : Layout :=
  { l with
    loadDepth := l.loadDepth + 1
    lineSeparator? := l.lineSeparator? <|> physical.firstBreak.map LineBreak.chars
    finalNewline := if l.loadDepth = 0 then physical.finalBreak else l.finalNewline }

/-- The layout at the end of a load. -/
def leave (l : Layout) : Layout := { l with loadDepth := l.loadDepth - 1 }

/-- What the end of a text does: a fault stops the load, and the lines
left over by the outermost text are its footer. -/
def conclude (outermost : Bool) (source : Option Text) (ending : Ending) (l : Layout) :
    Except LoadError Unit × Layout :=
  match ending with
  | .failed _ fault line => (.error (.parse ⟨⟨source, some line⟩, fault⟩), l)
  | .complete trailing => (.ok (), if outermost then l.takeFooter trailing else l)

/-- **Loading a text.** Properties go to the receiver, which finds its
values with the escapes of the characters in `kept`; `source` is the
name that errors mention. However the load ends, the layout is then as
deep in loads as it was before. -/
def load (kept : Text) (source : Option Text) (receive : Receiver σ) (t : Text)
    (s : Layout × σ) : Except LoadError Unit × (Layout × σ) :=
  let outermost := s.1.loadDepth = 0
  let physical := PhysicalLines.ofText t
  let reading := Reading.ofLines kept physical.lines
  match placeAll receive outermost reading.properties (s.1.enter physical, s.2) with
  | (.error e, (l, s)) => (.error e, (l.leave, s))
  | (.ok (), (l, s)) =>
    let (result, l) := l.conclude outermost source reading.ending
    (result, (l.leave, s))

end Layout

end PropertyFile
