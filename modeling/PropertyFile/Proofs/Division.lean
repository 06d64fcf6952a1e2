import PropertyFile.Proofs.LineParts
import PropertyFile.Proofs.LogicalLine

/-!
# The lines of a property

Which physical lines make up a property can be told from each line on its
own. A property begins at a line that is no comment line, it goes on
behind every line that ends in an odd number of backslashes, and it ends
at the first one that does not (`LogicalLine.IsBlock`); the lines behind
its first one may look like anything. Reading counts the backslashes at
the end of the line joined so far instead. The two counts agree
(`LogicalLine.cut_begunBy_cons`), since what is left of a line that asks
for a further one is whole: its last backslash is gone.

So the physical lines of a file can be divided into logical lines in one
way only, and it is the way they are read (`LogicalLine.isDivision_iff`).
-/

namespace PropertyFile

theorem IsWhole.append {t u : Text} (ht : IsWhole t) (hu : IsWhole u) : IsWhole (t ++ u) :=
  isWhole_iff.2 ((ht.endsWithContinuation_append u).trans (isWhole_iff.1 hu))

/-- Without its last backslash a line that asks for a further one is
whole. -/
theorem isWhole_dropLast {t : Text} (h : endsWithContinuation t = true) : IsWhole t.dropLast := by
  obtain hw | ⟨u, hu, rfl⟩ := isWhole_or_concat t
  · exact absurd ((isWhole_iff.1 hw).symm.trans h) Bool.false_ne_true
  · rwa [List.dropLast_concat]

namespace LogicalLine

/-! ## What lines are joined to -/

/-- What a physical line contributes to the line it is joined to: all but
its indentation and the backslash that asks for a further line. -/
def piece (line : Text) : Text :=
  if endsWithContinuation line then (line.dropWhile isSpacing).dropLast
  else line.dropWhile isSpacing

/-- **The text that physical lines are joined to.** -/
def joined (lines : List Text) : Text := lines.flatMap piece

theorem joined_concat (lines : List Text) (line : Text) :
    joined (lines ++ [line]) = joined lines ++ piece line := by
  unfold joined
  rw [List.flatMap_append, List.flatMap_singleton]

theorem isWhole_piece {line : Text} (h : endsWithContinuation line = true) :
    IsWhole (piece line) := by
  rw [piece, if_pos h]
  exact isWhole_dropLast ((endsWithContinuation_dropWhile line).trans h)

/-- **Lines that all ask for a further one are joined to a whole text**,
so no backslash in front of the next line counts with those at its end. -/
theorem isWhole_joined {lines : List Text} (h : ∀ l ∈ lines, endsWithContinuation l = true) :
    IsWhole (joined lines) := by
  induction lines with
  | nil => exact .nil
  | cons line lines ih =>
    obtain ⟨hline, hlines⟩ := List.forall_mem_cons.1 h
    exact (isWhole_piece hline).append (ih hlines)

/-! ## The beginning of a property -/

/-- What the lines of a property so far are the beginning of; no line
begins nothing. -/
def begunBy (lines : List Text) : Option Begun :=
  if lines.isEmpty then none else some ⟨lines, joined lines⟩

theorem begunBy_concat (lines : List Text) (line : Text) :
    begunBy (lines ++ [line]) = some ⟨lines ++ [line], joined (lines ++ [line])⟩ :=
  if_neg (by simp)

theorem getD_begunBy (lines : List Text) : (begunBy lines).getD {} = ⟨lines, joined lines⟩ := by
  cases lines <;> rfl

theorem isNone_begunBy (lines : List Text) : (begunBy lines).isNone = lines.isEmpty := by
  cases lines <;> rfl

/-- **Each line is judged on its own**, whatever the lines before it end
in. -/
theorem cut_begunBy_cons {before : List Text} (h : ∀ l ∈ before, endsWithContinuation l = true)
    (line : Text) (rest : List Text) :
    cut (begunBy before) (line :: rest) =
      if before.isEmpty && isCommentLine line then comment line :: cut none rest
      else if endsWithContinuation line then cut (begunBy (before ++ [line])) rest
      else property (before ++ [line]) (joined (before ++ [line])) :: cut none rest := by
  have hown : endsWithContinuation (joined before ++ line.dropWhile isSpacing)
      = endsWithContinuation line := by
    rw [(isWhole_joined h).endsWithContinuation_append, endsWithContinuation_dropWhile]
  rw [cut, getD_begunBy, isNone_begunBy]
  dsimp only
  rw [hown]
  refine ite_congr rfl (fun _ => rfl) fun _ => ?_
  by_cases hline : endsWithContinuation line = true
  · have hne : line.dropWhile isSpacing ≠ [] := by
      intro hnil
      rw [← endsWithContinuation_dropWhile, hnil] at hline
      exact absurd hline (by decide)
    rw [if_pos hline, if_pos hline, begunBy_concat, joined_concat, piece, if_pos hline,
      List.dropLast_append_of_ne_nil hne]
  · rw [if_neg hline, if_neg hline, joined_concat, piece, if_neg hline]

/-! ## Divisions -/

/-- **The lines of a property**, as they can be told one by one. -/
structure IsBlock (lines : List Text) : Prop where
  /-- The first one is no comment line. -/
  starts : ∃ first, lines.head? = some first ∧ isCommentLine first = false
  /-- All but the last one end in an odd number of backslashes. -/
  continued : ∀ l ∈ lines.dropLast, endsWithContinuation l = true
  /-- The last one does not. -/
  ended : ∀ l ∈ lines.getLast?, endsWithContinuation l = false

/-- **The lines of a property that is cut off**: all of them end in an odd
number of backslashes. -/
structure IsOpen (lines : List Text) : Prop where
  /-- The first one is no comment line. -/
  starts : ∃ first, lines.head? = some first ∧ isCommentLine first = false
  /-- All of them end in an odd number of backslashes. -/
  continued : ∀ l ∈ lines, endsWithContinuation l = true

/-- Whether the physical lines of a logical line are its lines, and its
text is what they are joined to. -/
def IsFormed : LogicalLine → Prop
  | comment line => isCommentLine line = true
  | property lines text => IsBlock lines ∧ text = joined lines
  | unterminated lines => IsOpen lines

/-- **A division** of physical lines into logical lines: every line is in
one of them, and only the last of them may be cut off. -/
structure IsDivision (lines : List Text) (ls : List LogicalLine) : Prop where
  /-- The logical lines are made up of the physical ones, in order. -/
  physical : ls.flatMap physical = lines
  /-- Each of them is one. -/
  formed : ∀ l ∈ ls, l.IsFormed
  /-- What is cut off is at the end. -/
  terminated : ∀ l ∈ ls.dropLast, l.IsTerminated

theorem isBlock_concat {before : List Text} {line : Text}
    (hstarts : ∃ first, (before ++ [line]).head? = some first ∧ isCommentLine first = false)
    (hbefore : ∀ l ∈ before, endsWithContinuation l = true)
    (hline : endsWithContinuation line = false) : IsBlock (before ++ [line]) where
  starts := hstarts
  continued := by rwa [List.dropLast_concat]
  ended := by
    rw [List.getLast?_concat]
    intro l hl
    exact Option.some.inj hl ▸ hline

/-- What is cut behind the beginning of a property is formed. -/
theorem isFormed_of_mem_cut {before lines : List Text}
    (hstarts : before ≠ [] → ∃ first, before.head? = some first ∧ isCommentLine first = false)
    (hbefore : ∀ l ∈ before, endsWithContinuation l = true) :
    ∀ l ∈ cut (begunBy before) lines, l.IsFormed := by
  induction lines generalizing before with
  | nil =>
    cases before with
    | nil => exact fun l hl => absurd hl List.not_mem_nil
    | cons first later =>
      exact List.forall_mem_singleton.2 ⟨hstarts (List.cons_ne_nil _ _), hbefore⟩
  | cons line rest ih =>
    have hnone : ∀ l ∈ cut none rest, l.IsFormed :=
      @ih [] (fun h => absurd rfl h) (fun l hl => absurd hl List.not_mem_nil)
    rw [cut_begunBy_cons hbefore]
    split
    · next hcomment =>
      exact List.forall_mem_cons.2 ⟨(Bool.and_eq_true_iff.1 hcomment).2, hnone⟩
    · next hcomment =>
      -- the line belongs to the property, and begins it if nothing was begun
      have hstarts' : ∃ first, (before ++ [line]).head? = some first ∧
          isCommentLine first = false := by
        cases before with
        | nil => exact ⟨line, rfl, by simpa using hcomment⟩
        | cons first later => exact hstarts (List.cons_ne_nil _ _)
      split
      · next hline =>
        refine ih (fun _ => hstarts') fun l hl => ?_
        obtain hl | hl := List.mem_append.1 hl
        · exact hbefore l hl
        · exact List.mem_singleton.1 hl ▸ hline
      · next hline =>
        exact List.forall_mem_cons.2
          ⟨⟨isBlock_concat hstarts' hbefore (Bool.not_eq_true _ ▸ hline), rfl⟩, hnone⟩

theorem mem_dropLast_cons {α : Type} {a b : α} {l : List α} (h : a ∈ (b :: l).dropLast) :
    a = b ∨ a ∈ l.dropLast := by
  cases l with
  | nil => exact absurd h List.not_mem_nil
  | cons c l => exact List.mem_cons.1 h

/-- Only the last logical line may be cut off. -/
theorem isTerminated_of_mem_cut (begun : Option Begun) (lines : List Text) :
    ∀ l ∈ (cut begun lines).dropLast, l.IsTerminated := by
  induction lines generalizing begun with
  | nil => cases begun <;> exact fun l hl => absurd hl List.not_mem_nil
  | cons line rest ih =>
    rw [cut]
    dsimp only
    split
    · intro l hl
      obtain rfl | hl := mem_dropLast_cons hl
      · trivial
      · exact ih none l hl
    split
    · exact ih _
    · intro l hl
      obtain rfl | hl := mem_dropLast_cons hl
      · trivial
      · exact ih none l hl

/-- Lines that all ask for a further one are put to the property that is
begun. -/
theorem cut_begunBy_append {before more : List Text}
    (hstarts : ∀ first ∈ (before ++ more).head?, isCommentLine first = false)
    (h : ∀ l ∈ before ++ more, endsWithContinuation l = true) (rest : List Text) :
    cut (begunBy before) (more ++ rest) = cut (begunBy (before ++ more)) rest := by
  induction more generalizing before with
  | nil => rw [List.append_nil, List.nil_append]
  | cons line more ih =>
    have hall : before ++ line :: more = (before ++ [line]) ++ more := by simp
    have hline := h line (List.mem_append_right _ List.mem_cons_self)
    have hproperty : ¬(before.isEmpty && isCommentLine line) = true := by
      cases before with
      | nil => simp [hstarts line rfl]
      | cons first later => exact Bool.false_ne_true
    rw [List.cons_append, cut_begunBy_cons fun l hl => h l (List.mem_append_left _ hl),
      if_neg hproperty, if_pos hline, hall]
    rw [hall] at hstarts h
    exact ih hstarts h

/-- **The lines of a property are cut as one**, whatever follows them. -/
theorem cut_block_append {lines : List Text} (h : IsBlock lines) (rest : List Text) :
    cut none (lines ++ rest) = property lines (joined lines) :: cut none rest := by
  obtain ⟨first, hfirst, hcomment⟩ := h.starts
  obtain rfl | ⟨before, line, rfl⟩ := List.eq_nil_or_concat lines
  · exact absurd hfirst nofun
  rw [List.concat_eq_append] at *
  have hbefore := h.continued
  rw [List.dropLast_concat] at hbefore
  have hline := h.ended line (by rw [List.getLast?_concat]; rfl)
  have hstarts : ∀ f ∈ before.head?, isCommentLine f = false := by
    cases before with
    | nil => exact fun f hf => absurd hf nofun
    | cons b before =>
      intro f hf
      rw [Option.some.inj (hf.symm.trans hfirst)]
      exact hcomment
  have hproperty : ¬(before.isEmpty && isCommentLine line) = true := by
    cases before with
    | nil =>
      rw [Option.some.inj hfirst, hcomment]
      exact Bool.false_ne_true
    | cons b before => exact Bool.false_ne_true
  have hcut := @cut_begunBy_append [] before hstarts hbefore (line :: rest)
  rw [List.nil_append] at hcut
  rw [List.append_assoc, List.singleton_append]
  refine hcut.trans ?_
  rw [cut_begunBy_cons hbefore, if_neg hproperty, if_neg (by simp [hline])]

/-- Lines that are cut off are cut as one at the end of a file. -/
theorem cut_open {lines : List Text} (h : IsOpen lines) :
    cut none lines = [unterminated lines] := by
  obtain ⟨first, hfirst, hcomment⟩ := h.starts
  have hcut := @cut_begunBy_append [] lines
    (fun f hf => Option.some.inj (hf.symm.trans hfirst) ▸ hcomment) h.continued []
  rw [List.append_nil, List.nil_append] at hcut
  refine hcut.trans ?_
  cases lines with
  | nil => exact absurd hfirst nofun
  | cons line lines => rfl

/-- A logical line that is not cut off is cut as it is, whatever follows
it. -/
theorem IsFormed.cut_append {l : LogicalLine} (h : l.IsFormed) (hl : l.IsTerminated)
    (rest : List Text) : cut none (l.physical ++ rest) = l :: cut none rest := by
  cases l with
  | comment line =>
    have hline : isCommentLine line = true := h
    rw [physical, List.singleton_append, cut, if_pos (by simp [hline])]
  | property lines text =>
    obtain ⟨hblock, rfl⟩ := h
    exact cut_block_append hblock rest
  | unterminated lines => exact absurd hl id

/-- **A division is found by cutting.** -/
theorem IsDivision.cut_eq {lines : List Text} {ls : List LogicalLine}
    (h : IsDivision lines ls) : cut none lines = ls := by
  obtain ⟨rfl, hformed, hterminated⟩ := h
  induction ls with
  | nil => rfl
  | cons l rest ih =>
    obtain ⟨hl, hrest⟩ := List.forall_mem_cons.1 hformed
    cases rest with
    | nil =>
      -- the last logical line may be cut off
      rw [List.flatMap_singleton]
      by_cases hend : l.IsTerminated
      · have hcut := hl.cut_append hend []
        rwa [List.append_nil] at hcut
      · cases l with
        | comment line => exact absurd trivial hend
        | property lines text => exact absurd trivial hend
        | unterminated lines => exact cut_open hl
    | cons next rest =>
      rw [List.flatMap_cons, hl.cut_append (hterminated l List.mem_cons_self),
        ih hrest fun l' hl' => hterminated l' (List.mem_cons_of_mem l hl')]

/-- **Lines can be divided in one way only**: they are divided as they are
cut. -/
theorem isDivision_iff {lines : List Text} {ls : List LogicalLine} :
    IsDivision lines ls ↔ cut none lines = ls := by
  constructor
  · exact IsDivision.cut_eq
  · rintro rfl
    exact ⟨flatMap_physical none lines,
      @isFormed_of_mem_cut [] lines (fun h => absurd rfl h)
        (fun l hl => absurd hl List.not_mem_nil),
      isTerminated_of_mem_cut none lines⟩

end LogicalLine

end PropertyFile
