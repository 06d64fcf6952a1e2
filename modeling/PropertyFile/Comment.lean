import PropertyFile.Marks
import PropertyFile.Text.Blank

/-!
# Comments

A comment is stored as it was read: one text for a whole block, its
lines joined by line feeds, each line with the mark it was written
with. Two **canonical forms** are derived from it on demand. With marks
enforced, every line is a comment line, so that plain words given as a
comment cannot turn into properties when the file is written. With
marks removed, the words alone remain, for display and comparison.

Blank lines are never touched in either form: inside a block they stand
for blank lines of the file.
-/

namespace PropertyFile

/-- Whether a line is a **comment line**: nothing but blanks, or a
comment mark as its first character that is not blank. -/
def isCommentLine (line : Text) : Bool :=
  match line.dropWhile Text.isBlank with
  | [] => true
  | c :: _ => isCommentMark c

theorem isBlank_of_isCommentMark {c : Char} (h : isCommentMark c = true) :
    Text.isBlank c = false := by
  simp only [isCommentMark, Bool.or_eq_true, beq_iff_eq] at h
  obtain rfl | rfl := h
  all_goals rfl

/-- A comment line that is not blank has a comment mark behind its first
blanks. -/
theorem exists_mark_of_isCommentLine {line : Text} (hc : isCommentLine line = true)
    (hb : line.all Text.isBlank = false) :
    ∃ before mark rest, line = before ++ mark :: rest ∧
      (∀ c ∈ before, Text.isBlank c = true) ∧ isCommentMark mark = true := by
  have hline := List.takeWhile_append_dropWhile (p := Text.isBlank) (l := line)
  have hbefore : (line.takeWhile Text.isBlank).all Text.isBlank = true := List.all_takeWhile
  unfold isCommentLine at hc
  cases hdrop : line.dropWhile Text.isBlank with
  | nil =>
    rw [hdrop, List.append_nil] at hline
    rw [hline, hb] at hbefore
    exact absurd hbefore Bool.false_ne_true
  | cons mark rest =>
    rw [hdrop] at hc hline
    exact ⟨_, mark, rest, hline.symm, List.all_eq_true.1 hbefore, hc⟩

namespace Comment

/-- The line as a comment line: a line that is none gets a mark and a
space in front. -/
def withMark (line : Text) : Text :=
  if isCommentLine line then line else '#' :: ' ' :: line

/-- What stands behind the first comment mark of a line; `none` if the
line ends before one is found. -/
def behindMark? : Text → Option Text
  | [] => none
  | c :: rest => if isCommentMark c then some rest else behindMark? rest

/-- Behind blanks, a mark is the first one. -/
theorem behindMark?_append {before : Text} (h : ∀ c ∈ before, Text.isBlank c = true)
    {mark : Char} (hm : isCommentMark mark = true) (rest : Text) :
    behindMark? (before ++ mark :: rest) = some rest := by
  induction before with
  | nil => exact if_pos hm
  | cons c before ih =>
    obtain ⟨hc, hbefore⟩ := List.forall_mem_cons.1 h
    have hmark : ¬isCommentMark c = true := fun hmark => by
      rw [isBlank_of_isCommentMark hmark] at hc
      exact Bool.false_ne_true hc
    rw [List.cons_append, behindMark?, if_neg hmark, ih hbefore]

/-- In a comment line that is not blank the search for a mark ends in the
line. -/
theorem isSome_behindMark? {line : Text} (hc : isCommentLine line = true)
    (hb : line.all Text.isBlank = false) : (behindMark? line).isSome = true := by
  obtain ⟨before, mark, rest, rfl, hbefore, hm⟩ := exists_mark_of_isCommentLine hc hb
  rw [behindMark?_append hbefore hm]
  rfl

/-- The line without its comment mark: what follows the first mark and
the blanks behind it. A blank line, and a line that is no comment, stay
as they are. -/
def withoutMark (line : Text) : Text :=
  if h : isCommentLine line = true ∧ line.all Text.isBlank = false then
    ((behindMark? line).get (isSome_behindMark? h.1 h.2)).dropWhile Text.isBlank
  else line

/-- One line in canonical form, with its mark enforced or removed. -/
def convertLine (enforce : Bool) (line : Text) : Text :=
  if enforce then withMark line else withoutMark line

/-- The lines of a comment block. -/
def lines (comment : Text) : List Text := Text.splitOn '\n' comment

/-- The comment block with the given lines; `none` when there is no
line. -/
def ofLines : List Text → Option Text
  | [] => none
  | line :: rest => some (Text.joinWith ['\n'] (line :: rest))

/-- **The canonical form of a comment block**, line by line. -/
def canonical (enforce : Bool) (comment : Text) : Text :=
  Text.joinWith ['\n'] ((lines comment).map (convertLine enforce))

/-- One block behind another; where one is missing the other stands
alone. -/
def append : Option Text → Option Text → Option Text
  | first, none => first
  | none, second => second
  | some first, some second => some (first ++ '\n' :: second)

end Comment

end PropertyFile
