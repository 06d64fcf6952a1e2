import PropertyFile.Marks

/-!
# Parts of a property line

A property line, its continuations already joined, falls into a key, a
separator and a value. The key ends at the first spacing character or
assignment mark that no backslash protects. The separator is the
spacing that follows, with at most one assignment mark in it. The rest
is the value. Put together again the three parts are the line.
-/

namespace PropertyFile

/-- The three parts of a property line, key and value still escaped. -/
structure LineParts where
  /-- The characters before the separator. -/
  key : Text
  /-- The literal text between key and value. -/
  separator : Text
  /-- The characters behind the separator. -/
  value : Text
deriving DecidableEq, Repr

namespace LineParts

/-- The key at the start of a line, and what follows it: a backslash
takes the next character with it. -/
def cutKey : Text → Text × Text
  | [] => ([], [])
  | c :: rest =>
    if c = escapeMark then
      match rest with
      | [] => ([c], [])
      | e :: rest => let (key, after) := cutKey rest; (c :: e :: key, after)
    else if isSpacing c || isAssign c then ([], c :: rest)
    else let (key, after) := cutKey rest; (c :: key, after)

/-- The separator at the start of a text, and what follows it: spacing,
and after one assignment mark spacing again. -/
def cutSeparator (t : Text) : Text × Text :=
  let before := t.takeWhile isSpacing
  match t.dropWhile isSpacing with
  | [] => (before, [])
  | c :: rest =>
    if isAssign c then (before ++ c :: rest.takeWhile isSpacing, rest.dropWhile isSpacing)
    else (before, c :: rest)

/-- **The parts of a property line.** -/
def ofLine (line : Text) : LineParts :=
  let (key, after) := cutKey line
  let (separator, value) := cutSeparator after
  { key, separator, value }

/-! ## The parts make up the line -/

theorem cutKey_append (line : Text) : (cutKey line).1 ++ (cutKey line).2 = line := by
  fun_induction cutKey line with grind

theorem cutSeparator_append (t : Text) : (cutSeparator t).1 ++ (cutSeparator t).2 = t := by
  unfold cutSeparator
  have h := List.takeWhile_append_dropWhile (p := isSpacing) (l := t)
  split
  · next hd => simpa [hd] using h
  · next c rest hd =>
    have hr := List.takeWhile_append_dropWhile (p := isSpacing) (l := rest)
    rw [hd] at h
    split
    · simp [hr, h]
    · exact h

/-- Nothing of the line is lost or added. -/
theorem ofLine_append (line : Text) :
    (ofLine line).key ++ (ofLine line).separator ++ (ofLine line).value = line := by
  simp [ofLine, cutSeparator_append, cutKey_append]

end LineParts

end PropertyFile
