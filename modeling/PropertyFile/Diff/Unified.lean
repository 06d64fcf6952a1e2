import PropertyFile.Ansi
import PropertyFile.Diff.Matching
import PropertyFile.Text.Boundary

/-!
# Unified diffs

A unified diff lists what changes between two texts in **hunks**: groups
of changes with up to three unchanged lines around them, each under a
heading that says where it stands. Between two changes of one hunk
there are at most six unchanged lines.
-/

namespace PropertyFile.Diff

/-- A step from the old lines to the new ones: lines that stay, or lines
that go and the lines that come in their place. -/
structure Step where
  /-- Whether the lines stay. -/
  stays : Bool
  /-- The lines concerned. -/
  region : Region
deriving DecidableEq, Repr

/-- The steps along common stretches, from a position in each list on. -/
def stepsFrom (oldPos newPos : Nat) : List Stretch → List Step
  | [] => []
  | m :: rest =>
    (if oldPos < m.old || newPos < m.new then [⟨false, ⟨oldPos, m.old, newPos, m.new⟩⟩] else []) ++
      (if 0 < m.size then
        [⟨true, ⟨m.old, m.old + m.size, m.new, m.new + m.size⟩⟩]
      else []) ++
      stepsFrom (m.old + m.size) (m.new + m.size) rest

/-- **The steps from old lines to new ones.** -/
def steps (s : Sides) : List Step :=
  stepsFrom 0 0 (s.stretches ++ [⟨s.old.size, s.new.size, 0⟩])

/-- How many unchanged lines are shown around a change. -/
def context : Nat := 3

/-- The last unchanged lines of a region. -/
def Region.ending (r : Region) : Region :=
  { r with oldStart := max r.oldStart (r.oldEnd - context)
           newStart := max r.newStart (r.newEnd - context) }

/-- The first unchanged lines of a region. -/
def Region.beginning (r : Region) : Region :=
  { r with oldEnd := min r.oldEnd (r.oldStart + context)
           newEnd := min r.newEnd (r.newStart + context) }

/-- Cuts a step of unchanged lines down. -/
def Step.cut (f : Region → Region) (s : Step) : Step :=
  if s.stays then { s with region := f s.region } else s

/-- The first step cut down to the lines before a change. -/
def trimFirst : List Step → List Step
  | [] => []
  | s :: rest => s.cut Region.ending :: rest

/-- The last step cut down to the lines behind a change. -/
def trimLast (l : List Step) : List Step :=
  match l.getLast? with
  | none => []
  | some s => l.dropLast ++ [s.cut Region.beginning]

/-- The steps in groups, `group` being the one in progress: a long run
of unchanged lines ends one group and begins the next. -/
def groupsFrom (group : List Step) : List Step → List (List Step)
  | [] => [group]
  | s :: rest =>
    if s.stays && 2 * context < s.region.oldEnd - s.region.oldStart then
      (group ++ [s.cut Region.beginning]) :: groupsFrom [s.cut Region.ending] rest
    else groupsFrom (group ++ [s]) rest

/-- **The hunks**: groups of steps in which something changes. -/
def hunks (l : List Step) : List (List Step) :=
  (groupsFrom [] (trimLast (trimFirst l))).filter fun group =>
    match group with
    | [] => false
    | [s] => !s.stays
    | _ => true

/-- A range of lines as a heading shows it: where it begins, counted
from 1, and how many lines it has unless it is one. An empty range shows
the line before it. -/
def range (first past : Nat) : String :=
  if past - first = 1 then toString (first + 1)
  else if past ≤ first then toString first ++ ",0"
  else toString (first + 1) ++ "," ++ toString (past - first)

/-- The lines of an array in a range, each behind a sign. -/
def signed (sign : Char) (lines : Array Text) (first past : Nat) : List Text :=
  (lines.extract first past).toList.map (sign :: ·)

/-- The lines of a step: those that stay, or those that go and then
those that come. -/
def Step.lines (s : Sides) (step : Step) : List Text :=
  let r := step.region
  if step.stays then signed ' ' s.old r.oldStart r.oldEnd
  else signed '-' s.old r.oldStart r.oldEnd ++ signed '+' s.new r.newStart r.newEnd

/-- The heading of a hunk. -/
def heading (first last : Step) : Text :=
  ("@@ -" ++ range first.region.oldStart last.region.oldEnd ++ " +" ++
    range first.region.newStart last.region.newEnd ++ " @@\n").toList

/-- The lines of a hunk with its heading. -/
def hunkLines (s : Sides) (group : List Step) : List Text :=
  match group.head?, group.getLast? with
  | some first, some last => heading first last :: group.flatMap (Step.lines s)
  | _, _ => []

/-- **The unified diff of two texts**, line by line with their ends;
empty for equal texts. -/
def patch (old new name : Text) : List Text :=
  let s := Sides.of (Text.linesWithEnds old) (Text.linesWithEnds new)
  match hunks (steps s) with
  | [] => []
  | groups =>
    ("--- ".toList ++ name ++ " (current)\n".toList) ::
      ("+++ ".toList ++ name ++ " (updated)\n".toList) :: groups.flatMap (hunkLines s)

/-! ## Showing a diff -/

/-- The style of a line of a diff, by its first character. -/
def paintOf (line : Text) : Ansi.Paint :=
  match line with
  | '-' :: _ => .boldRed
  | '+' :: _ => .boldGreen
  | '@' :: _ => .cyan
  | _ => .white

/-- A line of a diff as it is shown, without its end; with colour,
carriage returns are made visible. -/
def shownLine (color : Bool) (line : Text) : Text :=
  if color then
    (paintOf line).apply
      (Text.replace '\r' ['\\', 'r'] (Text.dropEndWhile (· == '\n') line))
  else Text.dropEndWhile (fun c => c == '\r' || c == '\n') line

/-- A number, filled up with spaces on the left to four characters. -/
def lineNumber (n : Nat) : Text :=
  let digits := (toString n).toList
  List.replicate (4 - digits.length) ' ' ++ digits

/-- **A diff as it is shown**, each of its lines on a line of its own,
with numbers if they are asked for. -/
def render (color numbers : Bool) (patch : List Text) : Text :=
  (patch.zipIdx 1).flatMap fun (line, number) =>
    (if numbers then lineNumber number ++ [' '] else []) ++ shownLine color line ++ ['\n']

end PropertyFile.Diff
