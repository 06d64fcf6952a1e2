import Mathlib.Data.List.DropRight
import Mathlib.Data.List.Induction
import PropertyFile.Layout.Lines
import PropertyFile.Layout.Load
import PropertyFile.Proofs.Text

/-!
# Comments and values as lines

What a layout holds is written as lines, and some lines become what a
layout holds. This module says how the two are related for the parts of
a file: a comment block that was made of comment lines is written as
these lines (`commentLines_ofLines`), whatever block is written consists
of comment lines (`isCommentLine_of_mem_commentLines`), the header is
what stands in front of the last blank lines (`headerLines_append`), and
without a list delimiter every value has a line of its own
(`propertyLines_plain`).
-/

namespace PropertyFile

open Text

/-! ## Comment blocks -/

/-- With its mark enforced every line is a comment line. -/
theorem isCommentLine_withMark (line : Text) : isCommentLine (Comment.withMark line) = true := by
  unfold Comment.withMark
  split
  · next h => exact h
  · rfl

/-- A comment line has its mark already. -/
theorem withMark_of_isCommentLine {line : Text} (h : isCommentLine line = true) :
    Comment.withMark line = line :=
  if_pos h

/-- The empty line is the only one that is written as the empty line. -/
theorem withMark_eq_nil_iff {line : Text} : Comment.withMark line = [] ↔ line = [] := by
  unfold Comment.withMark
  split
  · exact Iff.rfl
  · next h =>
    refine ⟨fun hnil => absurd hnil (List.cons_ne_nil _ _), ?_⟩
    rintro rfl
    exact absurd rfl h

theorem isLine_withMark {line : Text} (h : IsLine line) : IsLine (Comment.withMark line) := by
  unfold Comment.withMark
  split
  · exact h
  · exact isLine_cons.2 ⟨by decide, isLine_cons.2 ⟨by decide, h⟩⟩

namespace Layout

/-- **A block made of comment lines is written as these lines.** -/
theorem commentLines_ofLines {lines : List Text} (hc : ∀ l ∈ lines, isCommentLine l = true)
    (hl : ∀ l ∈ lines, IsLine l) : commentLines (Comment.ofLines lines) = lines := by
  cases lines with
  | nil => rfl
  | cons line rest =>
    show (splitOn '\n' (joinWith ['\n'] (line :: rest))).map Comment.withMark = line :: rest
    rw [splitOn_joinWith (List.cons_ne_nil _ _) fun l hm => (hl l hm).not_mem]
    exact List.map_congr_left (g := id) (fun l hm => withMark_of_isCommentLine (hc l hm))
      |>.trans (List.map_id _)

/-- **Whatever a block is, it is written as comment lines.** -/
theorem isCommentLine_of_mem_commentLines {block : Option Text} {line : Text}
    (h : line ∈ commentLines block) : isCommentLine line = true := by
  cases block with
  | none => exact absurd h List.not_mem_nil
  | some t =>
    obtain ⟨l, -, rfl⟩ := List.mem_map.1 h
    exact isCommentLine_withMark l

/-- A block without carriage returns is written as lines. -/
theorem isLine_of_mem_commentLines {block : Option Text} (hb : ∀ t ∈ block, '\r' ∉ t)
    {line : Text} (h : line ∈ commentLines block) : IsLine line := by
  cases block with
  | none => exact absurd h List.not_mem_nil
  | some t =>
    obtain ⟨l, hl, rfl⟩ := List.mem_map.1 h
    exact isLine_withMark (isLine_of_mem_splitOn (hb t rfl) hl)

/-- **The lines before a property are written as they were**: blank lines
first, then the comment. -/
theorem lines_firstEntry {block : List Text}
    (h : ∀ c ∈ block, isCommentLine c = true ∧ IsLine c) (separator : Text) :
    List.replicate (firstEntry block separator).blankLines []
      ++ commentLines (firstEntry block separator).comment = block := by
  have hblank : List.replicate (block.takeWhile (· = [])).length [] = block.takeWhile (· = []) :=
    (List.eq_replicate_of_mem fun c hc => by simpa using List.mem_takeWhile_imp hc).symm
  have hsub := List.dropWhile_subset (l := block) (· = [])
  have hcomment : commentLines (Comment.ofLines (block.dropWhile (· = [])))
      = block.dropWhile (· = []) :=
    commentLines_ofLines (fun c hc => (h c (hsub hc)).1) fun c hc => (h c (hsub hc)).2
  show List.replicate (block.takeWhile (· = [])).length []
    ++ commentLines (Comment.ofLines (block.dropWhile (· = []))) = block
  rw [hblank, hcomment, List.takeWhile_append_dropWhile]

/-- Reading back the lines of a block gives its canonical form. -/
theorem ofLines_commentLines (block : Option Text) :
    Comment.ofLines (commentLines block) = block.map (Comment.canonical true) := by
  cases block with
  | none => rfl
  | some t =>
    show Comment.ofLines ((splitOn '\n' t).map Comment.withMark) = _
    cases hs : splitOn '\n' t with
    | nil => exact absurd hs (splitOn_ne_nil '\n' t)
    | cons line rest =>
      show some _ = some (joinWith ['\n'] ((splitOn '\n' t).map (Comment.convertLine true)))
      rw [hs]
      rfl

/-! ## The header -/

/-- What stands in front of the last blank lines is the header. -/
theorem headerLines_append {header body : List Text} {blanks : Nat}
    (hheader : ∀ l ∈ header.getLast?, l ≠ []) (hbody : ∀ l ∈ body, l ≠ [])
    (hblanks : header = [] ∨ blanks ≠ 0) :
    headerLines (header ++ List.replicate blanks [] ++ body) = header := by
  unfold headerLines
  rw [List.reverse_append, List.dropWhile_append_of_pos (by simpa using hbody),
    List.reverse_append, List.reverse_replicate]
  by_cases hnil : header = []
  · subst hnil
    cases blanks with
    | zero => rfl
    | succ n => simp
  · obtain ⟨n, rfl⟩ := Nat.exists_eq_succ_of_ne_zero (hblanks.resolve_left hnil)
    obtain ⟨init, last, rfl⟩ := List.eq_nil_or_concat header |>.resolve_left hnil
    have hlast : last ≠ [] := hheader last (by simp)
    simp [List.replicate_succ, hlast]

theorem headerLines_concat_of_ne (lines : List Text) {line : Text} (h : line ≠ []) :
    headerLines (lines ++ [line]) = headerLines lines := by
  unfold headerLines
  rw [List.reverse_concat, List.dropWhile_cons_of_pos (by simpa using h)]

theorem headerLines_concat_nil (lines : List Text) :
    headerLines (lines ++ [[]]) = lines.rdropWhile (· = []) := by
  unfold headerLines
  rw [List.reverse_concat, List.dropWhile_cons_of_neg (by simp),
    List.dropWhile_cons_of_pos (by simp)]
  rfl

/-- The lines before the first property are the header and then, if there
is one, a blank line and the rest. -/
theorem exists_headerLines (lines : List Text) :
    ∃ rest, lines = headerLines lines ++ rest ∧
      (headerLines lines ≠ [] → rest.head? = some []) := by
  induction lines using List.reverseRecOn with
  | nil => exact ⟨[], rfl, fun h => absurd rfl h⟩
  | append_singleton lines line ih =>
    by_cases h : line = []
    · subst h
      rw [headerLines_concat_nil]
      refine ⟨lines.rtakeWhile (· = []) ++ [[]], ?_, fun _ => ?_⟩
      · rw [← List.append_assoc, List.rdropWhile_append_rtakeWhile]
      · cases hblank : lines.rtakeWhile (· = []) with
        | nil => rfl
        | cons blank rest =>
          have hmem : blank ∈ lines.rtakeWhile (· = []) := hblank ▸ List.mem_cons_self
          have hnil : blank = [] := by simpa using List.mem_rtakeWhile_imp hmem
          rw [hnil]
          rfl
    · obtain ⟨rest, hrest, hhead⟩ := ih
      rw [headerLines_concat_of_ne lines h]
      refine ⟨rest ++ [line], ?_, fun hne => ?_⟩
      · rw [← List.append_assoc, ← hrest]
      · rw [List.head?_append, hhead hne]
        rfl

/-- The header and what it was taken from are the lines. -/
theorem headerLines_append_drop (lines : List Text) :
    headerLines lines ++ lines.drop (headerLines lines).length = lines := by
  obtain ⟨rest, hrest, -⟩ := exists_headerLines lines
  have hdrop := congrArg (List.drop (headerLines lines).length) hrest
  rw [List.drop_left] at hdrop
  rw [hdrop]
  exact hrest.symm

/-- Behind a header there is a blank line. -/
theorem head?_drop_headerLines {lines : List Text} (h : headerLines lines ≠ []) :
    (lines.drop (headerLines lines).length).head? = some [] := by
  obtain ⟨rest, hrest, hhead⟩ := exists_headerLines lines
  have hdrop := congrArg (List.drop (headerLines lines).length) hrest
  rw [List.drop_left] at hdrop
  rw [hdrop]
  exact hhead h

end Layout

/-! ## Values -/

/-- **Without a list delimiter every value has a line of its own.** -/
theorem propertyLines_plain {style : WriteStyle} (h : style.delimiter = none)
    (separator key : Text) (values : List Text) (singleLine : Bool) :
    propertyLines style separator key values singleLine
      = values.map fun v =>
          propertyLine style.ascii key separator (Escape.value style.ascii separator v) := by
  unfold propertyLines
  rw [h]
  dsimp only
  cases values with
  | nil => rfl
  | cons v vs =>
    cases vs with
    | nil => simp [ListDelimiter.join]
    | cons w vs => simp [ListDelimiter.join, ListDelimiter.protect, Function.comp_def]

namespace Layout

/-- **The lines of a key**: its blank lines, its comment, and a line for
each of its values. -/
theorem lines_segment {l : Layout} {style : WriteStyle} (hstyle : style.delimiter = none)
    (hglobal : l.globalSeparator = none) (leading : Bool) (key : Text) (e : Entry)
    (values : List Text) :
    (l.segment style leading key e values).lines
      = List.replicate (if leading && e.blankLines == 0 then 1 else e.blankLines) []
        ++ commentLines e.comment
        ++ values.map fun v =>
            propertyLine style.ascii key e.separator (Escape.value style.ascii e.separator v) := by
  unfold Segment.lines segment
  rw [propertyLines_plain hstyle, hglobal]
  rfl

end Layout

end PropertyFile
