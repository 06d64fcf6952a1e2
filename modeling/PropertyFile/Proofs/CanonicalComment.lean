import Mathlib.Data.List.Forall2
import PropertyFile.Proofs.Writing

/-!
# Comments are converted line by line

A comment is one text for many lines, and so is each of its canonical
forms. What a canonical form is can be told from the lines alone: it is
the only text that has the lines of the comment, each in a form of its
own (`Comment.canonical_by_line`). No line is lost, and none is cut in
two, since neither conversion brings a line feed into a line
(`not_mem_convertLine`).

The forms of a line are described without the conversions. With its mark
enforced (`IsMarkedForm`) every line is a comment line, and only a line
that was none has changed, so to enforce the marks again changes nothing.
With its mark removed (`IsBareForm`) a line is what stands behind its mark
and the blanks there, if it is a comment line that is not blank, and any
other line is kept.

A line is a comment line because of its first character that is not
blank, while the search for the mark passes over whatever is no mark. The
two meet at the same character, because no mark is blank. Hence the search
never comes to the end of a line in which it is made.
-/

namespace PropertyFile

open Text

namespace Comment

/-! ## The forms of a line -/

/-- **A line with its mark enforced.** -/
structure IsMarkedForm (line form : Text) : Prop where
  /-- It is a comment line. -/
  comment : isCommentLine form = true
  /-- A comment line is kept. -/
  kept : isCommentLine line = true → form = line
  /-- Any other line has a mark and a space in front of it. -/
  marked : isCommentLine line = false → form = '#' :: ' ' :: line

/-- **The parts of a marked line**: blanks in front of its first mark, and
the blanks and the words behind it. -/
structure IsMarkedBy (line before : Text) (mark : Char) (blanks words : Text) : Prop where
  /-- The parts make up the line. -/
  append : before ++ mark :: (blanks ++ words) = line
  /-- In front of the mark there are blanks only. -/
  before_blank : ∀ c ∈ before, isBlank c = true
  /-- The mark is a comment mark. -/
  mark : isCommentMark mark = true
  /-- All blanks behind the mark are parted from the words. -/
  blanks : (∀ c ∈ blanks, isBlank c = true) ∧ ∀ c ∈ words.head?, isBlank c = false

/-- **A line with its mark removed.** -/
structure IsBareForm (line form : Text) : Prop where
  /-- A line of blanks is kept. -/
  blank : (∀ c ∈ line, isBlank c = true) → form = line
  /-- A line that is no comment line is kept. -/
  plain : isCommentLine line = false → form = line
  /-- In any other line the search for a mark ends inside the line, and
  the words behind the mark are left. -/
  words : isCommentLine line = true → (∃ c ∈ line, isBlank c = false) →
    ∃ before mark blanks, IsMarkedBy line before mark blanks form ∧
      behindMark? line = some (blanks ++ form)

variable {line form before blanks words rest : Text} {mark : Char}

theorem isMarkedForm_iff : IsMarkedForm line form ↔ withMark line = form := by
  constructor
  · intro h
    cases hc : isCommentLine line with
    | true => rw [withMark_of_isCommentLine hc, h.kept hc]
    | false => rw [withMark, hc, if_neg Bool.false_ne_true, h.marked hc]
  · rintro rfl
    refine ⟨isCommentLine_withMark line, withMark_of_isCommentLine, fun hc => ?_⟩
    rw [withMark, hc, if_neg Bool.false_ne_true]

/-- The search for a mark finds the one that parts the line. -/
theorem IsMarkedBy.behindMark?_eq (h : IsMarkedBy line before mark blanks words) :
    behindMark? line = some (blanks ++ words) :=
  h.append ▸ behindMark?_append h.before_blank h.mark _

/-- A comment line that is not blank has the parts of a marked line. -/
theorem exists_isMarkedBy (hc : isCommentLine line = true) (hb : line.all isBlank = false) :
    ∃ before mark blanks words, IsMarkedBy line before mark blanks words := by
  obtain ⟨before, mark, rest, rfl, hbefore, hm⟩ := exists_mark_of_isCommentLine hc hb
  refine ⟨before, mark, rest.takeWhile isBlank, rest.dropWhile isBlank,
    by rw [List.takeWhile_append_dropWhile], hbefore, hm,
    fun c hc => List.mem_takeWhile_imp hc, fun c hc => ?_⟩
  have hhead := List.head?_dropWhile_not isBlank rest
  rw [Option.mem_def.1 hc] at hhead
  simpa using hhead

/-- Without its mark a marked line is its words. -/
theorem IsMarkedBy.withoutMark_eq (h : IsMarkedBy line before mark blanks words)
    (hc : isCommentLine line = true) (hb : line.all isBlank = false) :
    withoutMark line = words := by
  obtain ⟨hblanks, hwords⟩ := h.blanks
  rw [withoutMark, dif_pos ⟨hc, hb⟩]
  simp only [h.behindMark?_eq, Option.get_some]
  rw [List.dropWhile_append_of_pos hblanks]
  cases words with
  | nil => rfl
  | cons c words => exact List.dropWhile_cons_of_neg (by simp [hwords c rfl])

theorem isBareForm_iff : IsBareForm line form ↔ withoutMark line = form := by
  have hkept : ¬(isCommentLine line = true ∧ line.all isBlank = false) →
      withoutMark line = line := fun h => dif_neg h
  constructor
  · intro h
    cases hb : line.all isBlank with
    | true => rw [hkept (by simp [hb]), h.blank (List.all_eq_true.1 hb)]
    | false =>
      cases hc : isCommentLine line with
      | true =>
        obtain ⟨before, mark, blanks, hparts, -⟩ :=
          h.words hc (by simpa [List.all_eq_false] using hb)
        exact hparts.withoutMark_eq hc hb
      | false => rw [hkept (by simp [hc]), h.plain hc]
  · rintro rfl
    refine ⟨fun hb => hkept ?_, fun hc => hkept (by simp [hc]), fun hc hb => ?_⟩
    · simp [List.all_eq_true.2 hb]
    · have hb : line.all isBlank = false := by simpa [List.all_eq_false] using hb
      obtain ⟨before, mark, blanks, words, hparts⟩ := exists_isMarkedBy hc hb
      rw [hparts.withoutMark_eq hc hb]
      exact ⟨before, mark, blanks, hparts, hparts.behindMark?_eq⟩

/-! ## The lines of a canonical form -/

theorem behindMark?_suffix (h : behindMark? line = some rest) : rest <:+ line := by
  induction line with
  | nil => exact absurd h nofun
  | cons c line ih =>
    rw [behindMark?] at h
    split at h
    · exact Option.some.inj h ▸ List.suffix_cons c line
    · exact (ih h).trans (List.suffix_cons c line)

/-- A conversion brings no line feed into a line. -/
theorem not_mem_convertLine (enforce : Bool) (h : '\n' ∉ line) :
    '\n' ∉ convertLine enforce line := by
  cases enforce with
  | true =>
    show '\n' ∉ withMark line
    unfold withMark
    split
    · exact h
    · simpa using h
  | false =>
    show '\n' ∉ withoutMark line
    unfold withoutMark
    split
    · next hline =>
      have hget := Option.eq_some_of_isSome (isSome_behindMark? hline.1 hline.2)
      exact fun hmem => h ((behindMark?_suffix hget).subset (List.dropWhile_subset _ hmem))
    · exact h

/-- **The lines of a canonical form** are those of the comment, each of
them converted. -/
theorem lines_canonical (enforce : Bool) (comment : Text) :
    lines (canonical enforce comment) = (lines comment).map (convertLine enforce) := by
  have hne : (lines comment).map (convertLine enforce) ≠ [] := fun h =>
    splitOn_ne_nil '\n' comment (List.map_eq_nil_iff.1 h)
  refine splitOn_joinWith hne fun form hform => ?_
  obtain ⟨line, hline, rfl⟩ := List.mem_map.1 hform
  exact not_mem_convertLine enforce fun h => (mem_of_mem_splitOn hline _ h).1 rfl

/-- A comment is told by its lines. -/
theorem lines_inj {comment other : Text} : lines comment = lines other ↔ comment = other := by
  refine ⟨fun h => ?_, congrArg lines⟩
  rw [← joinWith_splitOn '\n' comment, ← joinWith_splitOn '\n' other]
  exact congrArg (joinWith ['\n']) h

theorem canonical_eq_iff {enforce : Bool} {comment t : Text} :
    canonical enforce comment = t ↔
      List.Forall₂ (fun line form => convertLine enforce line = form) (lines comment)
        (lines t) := by
  rw [← List.forall₂_map_left_iff, List.forall₂_eq_eq_eq, ← lines_canonical, lines_inj]

/-- Comment lines stay as they are when marks are enforced. -/
theorem canonical_of_isCommentLine {comment : Text}
    (h : ∀ line ∈ lines comment, isCommentLine line = true) :
    canonical true comment = comment :=
  canonical_eq_iff.2 <| List.forall₂_same.2 fun line hline =>
    withMark_of_isCommentLine (h line hline)

/-- **Comments are converted line by line.** With marks enforced and with
marks removed, a comment becomes the one text whose lines are its own,
one by one, in the form that has to be; and marks that were enforced need
not be enforced again. -/
theorem canonical_by_line (raw t : Text) :
    (canonical true raw = t ↔ List.Forall₂ IsMarkedForm (lines raw) (lines t)) ∧
      canonical true (canonical true raw) = canonical true raw ∧
      (canonical false raw = t ↔ List.Forall₂ IsBareForm (lines raw) (lines t)) := by
  refine ⟨canonical_eq_iff.trans ?_, canonical_of_isCommentLine fun line hline => ?_,
    canonical_eq_iff.trans ?_⟩
  · exact ⟨fun h => h.imp fun _ _ => isMarkedForm_iff.2,
      fun h => h.imp fun _ _ => isMarkedForm_iff.1⟩
  · rw [lines_canonical] at hline
    obtain ⟨line, -, rfl⟩ := List.mem_map.1 hline
    exact isCommentLine_withMark line
  · exact ⟨fun h => h.imp fun _ _ => isBareForm_iff.2,
      fun h => h.imp fun _ _ => isBareForm_iff.1⟩

/-- A mark behind words is no mark, and a second mark is a word. -/
example : canonical false "\t#! a\n \nb # c\n!".toList = "! a\n \nb # c\n".toList := by
  decide

end Comment

end PropertyFile
