import PropertyFile.Text.Basic

/-!
# Matching lines of two texts

What two lists of lines have in common is found by their **longest
common stretch**: the longest run of lines that occurs in both, and of
several the one that begins first in the old list, then in the new. To
its left and to its right the search goes on within what remains.

In a list of 200 lines or more, lines that make up more than a
hundredth of it are too common to say anything: they do not start a
stretch, though they may prolong one.
-/

namespace PropertyFile.Diff

/-- A stretch of lines that both lists hold. -/
structure Stretch where
  /-- Where it begins in the old list. -/
  old : Nat
  /-- Where it begins in the new list. -/
  new : Nat
  /-- How many lines it has. -/
  size : Nat
deriving DecidableEq, Repr

/-- A part of both lists: from a position up to another one, in the old
and in the new list. -/
structure Region where
  /-- Where it begins in the old list. -/
  oldStart : Nat
  /-- Where it ends in the old list. -/
  oldEnd : Nat
  /-- Where it begins in the new list. -/
  newStart : Nat
  /-- Where it ends in the new list. -/
  newEnd : Nat
deriving DecidableEq, Repr

/-- The positions at which a line occurs. -/
def positions (line : Text) (lines : List Text) : List Nat :=
  (lines.zipIdx.filter fun e => e.1 == line).map Prod.snd

/-- The positions of a line that may start a stretch: none for a line
that is too common. -/
def anchors (new : List Text) (line : Text) : List Nat :=
  let found := positions line new
  if 200 ≤ new.length && new.length / 100 + 1 < found.length then [] else found

/-- Two lists of lines, prepared for matching. -/
structure Sides where
  /-- The old lines. -/
  old : Array Text
  /-- The new lines. -/
  new : Array Text
  /-- For each old line, where it may stand in the new list. -/
  anchors : Array (List Nat)

/-- The sides of two lists. -/
def Sides.of (old new : List Text) : Sides :=
  { old := old.toArray, new := new.toArray, anchors := (old.map (Diff.anchors new)).toArray }

namespace Sides

variable (s : Sides)

/-- One old line in the search for the longest stretch: `lengths` holds,
for positions in the new list, how long a stretch ends there with the
line before; the result holds the same for line `i`, and the best
stretch so far. -/
def row (r : Region) (lengths : List (Nat × Nat)) (best : Stretch) (i : Nat) :
    List (Nat × Nat) × Stretch :=
  let inside := ((s.anchors[i]?).getD []).filter fun j => r.newStart ≤ j && j < r.newEnd
  let (found, best) := inside.foldl (fun (found, best) j =>
    let before := if j = 0 then 0 else (lengths.lookup (j - 1)).getD 0
    let size := before + 1
    ((j, size) :: found,
      if best.size < size then ⟨i + 1 - size, j + 1 - size, size⟩ else best)) ([], best)
  (found.reverse, best)

/-- Whether an old and a new line exist and are equal. -/
def same (i j : Nat) : Bool :=
  match s.old[i]?, s.new[j]? with
  | some a, some b => a == b
  | _, _ => false

/-- The stretch with the equal lines in front of it, `most` at most. -/
def growLeft (r : Region) : (most : Nat) → Stretch → Stretch
  | 0, m => m
  | most + 1, m =>
    if r.oldStart < m.old && r.newStart < m.new && s.same (m.old - 1) (m.new - 1) then
      growLeft r most ⟨m.old - 1, m.new - 1, m.size + 1⟩
    else m

/-- The stretch with the equal lines behind it, `most` at most. -/
def growRight (r : Region) : (most : Nat) → Stretch → Stretch
  | 0, m => m
  | most + 1, m =>
    if m.old + m.size < r.oldEnd && m.new + m.size < r.newEnd &&
        s.same (m.old + m.size) (m.new + m.size) then
      growRight r most { m with size := m.size + 1 }
    else m

/-- **The longest common stretch of a region**, prolonged by lines that
are too common to start one; of size zero if there is none. -/
def longest (r : Region) : Stretch :=
  let rows := (List.range (r.oldEnd - r.oldStart)).map (r.oldStart + ·)
  let found := rows.foldl (fun (lengths, best) i => s.row r lengths best i)
    ([], ⟨r.oldStart, r.newStart, 0⟩)
  s.growRight r s.old.size (s.growLeft r s.old.size found.2)

/-- **The common stretches of a region in order.** -/
def stretchesIn (r : Region) : List Stretch :=
  let m := s.longest r
  if _h : 0 < m.size ∧ r.oldStart ≤ m.old ∧ m.old + m.size ≤ r.oldEnd then
    (if r.newStart < m.new then stretchesIn ⟨r.oldStart, m.old, r.newStart, m.new⟩ else []) ++
      m ::
        (if m.new + m.size < r.newEnd then
          stretchesIn ⟨m.old + m.size, r.oldEnd, m.new + m.size, r.newEnd⟩
        else [])
  else []
termination_by r.oldEnd - r.oldStart
decreasing_by
  · show m.old - r.oldStart < r.oldEnd - r.oldStart
    omega
  · show r.oldEnd - (m.old + m.size) < r.oldEnd - r.oldStart
    omega

/-- Stretches with those that follow on one another made one. -/
def fuse : List Stretch → List Stretch
  | [] => []
  | m :: rest =>
    match fuse rest with
    | [] => [m]
    | n :: later =>
      if m.old + m.size = n.old ∧ m.new + m.size = n.new then
        { m with size := m.size + n.size } :: later
      else m :: n :: later

/-- The common stretches of the two lists. -/
def stretches : List Stretch :=
  fuse (s.stretchesIn ⟨0, s.old.size, 0, s.new.size⟩)

end Sides

/-- How similar two texts are, taken as lists of one-character lines: the
number of characters in common stretches, twice, and the number of all
characters. -/
def similarity (t u : Text) : Nat × Nat :=
  let s := Sides.of (t.map ([·])) (u.map ([·]))
  (2 * (s.stretches.foldl (fun n m => n + m.size) 0), t.length + u.length)

end PropertyFile.Diff
