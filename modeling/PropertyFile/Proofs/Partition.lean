import PropertyFile.Proofs.PhysicalLine

/-!
# The physical lines of a text are its only partition

A text is put together from lines and line breaks, first a line and then
a break in turn (`PhysicalLines.interleave`). Which lines and breaks they
are can be said without cutting the text: the lines hold no character
that breaks lines, no carriage return stands alone in front of a line
feed, and an empty line at the end is there only if it is ended
(`PhysicalLines.IsPartition`). These conditions leave no choice. Every
text has exactly one partition, and its physical lines are the lines of
it (`PhysicalLines.isPartition_iff_ofText`).

In a partition the first line ends where the text has its first break, so
cutting a text gives back the lines and breaks it was put together from
(`cut_interleave`). The lines of a partition and what is cut differ by the
empty line that stands behind a final break; with it the lines are one
more than the breaks (`PhysicalLines.pieces`).
-/

namespace PropertyFile

open Text

namespace PhysicalLines

/-! ## Lines and breaks in turn -/

/-- **Lines and breaks in turn**; where there are no more of the one, the
others follow each other. -/
def interleave : List Text → List LineBreak → Text
  | [], breaks => breaks.flatMap LineBreak.chars
  | lines, [] => lines.flatten
  | line :: lines, b :: breaks => line ++ (b.chars ++ interleave lines breaks)

/-- **Pairs are kept together**: no break that is a carriage return has a
line feed right behind it in the text. -/
def KeepsPairs (lines : List Text) (breaks : List LineBreak) : Prop :=
  ∀ i, breaks[i]? = some .cr →
    (interleave (lines.drop (i + 1)) (breaks.drop (i + 1))).head? ≠ some '\n'

/-- The line breaks of a text. -/
def breaksOf (t : Text) : List LineBreak := (cut t).2.map Prod.fst

variable {t line : Text} {lines : List Text} {b : LineBreak} {breaks : List LineBreak}

theorem interleave_nil_right (lines : List Text) : interleave lines [] = lines.flatten := by
  cases lines <;> rfl

theorem interleave_cons_cons (c : Char) (line : Text) (lines : List Text)
    (breaks : List LineBreak) :
    interleave ((c :: line) :: lines) breaks = c :: interleave (line :: lines) breaks := by
  cases breaks <;> rfl

/-- An empty line at the end adds nothing to the text. -/
theorem interleave_concat_nil (lines : List Text) (breaks : List LineBreak) :
    interleave (lines ++ [[]]) breaks = interleave lines breaks := by
  fun_induction interleave lines breaks with
  | case1 breaks => cases breaks <;> rfl
  | case2 lines => simp [interleave_nil_right]
  | case3 line lines b breaks ih => rw [List.cons_append, interleave, ih]

theorem keepsPairs_nil (lines : List Text) : KeepsPairs lines [] :=
  fun _ h => absurd h nofun

theorem keepsPairs_cons :
    KeepsPairs (line :: lines) (b :: breaks) ↔
      (b = .cr → (interleave lines breaks).head? ≠ some '\n') ∧ KeepsPairs lines breaks := by
  constructor
  · exact fun h => ⟨fun hb => h 0 (congrArg some hb), fun i hi => h (i + 1) hi⟩
  · rintro ⟨hfirst, hlater⟩ (_ | i) hi
    · exact hfirst (Option.some.inj hi)
    · exact hlater i hi

theorem keepsPairs_concat_nil : KeepsPairs (lines ++ [[]]) breaks ↔ KeepsPairs lines breaks := by
  have hdrop : ∀ i, interleave ((lines ++ [[]]).drop (i + 1)) (breaks.drop (i + 1))
      = interleave (lines.drop (i + 1)) (breaks.drop (i + 1)) := by
    intro i
    obtain hlt | hle := Nat.lt_or_ge i lines.length
    · rw [List.drop_append_of_le_length hlt, interleave_concat_nil]
    · rw [List.drop_eq_nil_of_le (by simpa using hle),
        List.drop_eq_nil_of_le (Nat.le_succ_of_le hle)]
  simp only [KeepsPairs, hdrop]

/-! ## Cutting -/

/-- What is cut, put together in turn, is the text. -/
theorem interleave_cut (t : Text) :
    interleave ((cut t).1 :: (cut t).2.map Prod.snd) (breaksOf t) = t := by
  unfold breaksOf
  fun_induction cut t with
    simp_all [interleave, interleave_cons_cons, LineBreak.chars]

/-- A text is cut behind a carriage return only where no line feed
follows. -/
theorem keepsPairs_cut (t : Text) :
    KeepsPairs ((cut t).1 :: (cut t).2.map Prod.snd) (breaksOf t) := by
  unfold breaksOf
  fun_induction cut t with
  | case1 => exact keepsPairs_nil _
  | case2 rest line later h ih =>
    rw [h] at ih
    exact keepsPairs_cons.2 ⟨fun hb => LineBreak.noConfusion hb, ih⟩
  | case3 rest hpair line later h ih =>
    have hrest := interleave_cut rest
    rw [breaksOf, h] at hrest
    rw [h] at ih
    refine keepsPairs_cons.2 ⟨fun _ hhead => ?_, ih⟩
    obtain ⟨after, hafter⟩ := List.head?_eq_some_iff.1 (hrest ▸ hhead)
    exact hpair after hafter
  | case4 rest line later h ih =>
    rw [h] at ih
    exact keepsPairs_cons.2 ⟨fun hb => LineBreak.noConfusion hb, ih⟩
  | case5 c rest _ hr hn line later h ih =>
    -- what stands behind the breaks does not depend on the first line
    rw [h] at ih
    exact ih

/-- **Lines and breaks that were put together are cut apart again.** -/
theorem cut_interleave (hlines : ∀ l ∈ line :: lines, IsLine l)
    (hlength : breaks.length = lines.length) (hpairs : KeepsPairs (line :: lines) breaks) :
    cut (interleave (line :: lines) breaks) = (line, breaks.zip lines) := by
  induction breaks generalizing line lines with
  | nil =>
    obtain rfl := List.length_eq_zero_iff.1 hlength.symm
    have hcut := cut_line_append (hlines line List.mem_cons_self) []
    simpa [interleave, cut] using hcut
  | cons b breaks ih =>
    obtain ⟨next, lines, rfl⟩ := List.exists_cons_of_length_eq_add_one hlength.symm
    obtain ⟨hline, hlater⟩ := List.forall_mem_cons.1 hlines
    obtain ⟨hb, hpairs⟩ := keepsPairs_cons.1 hpairs
    rw [interleave, cut_line_append hline, cut_chars_append b hb,
      ih hlater (Nat.succ.inj hlength) hpairs, List.append_nil, List.zip_cons_cons]

/-! ## Partitions -/

/-- The lines, and an empty one behind a final break. -/
def pieces (p : PhysicalLines) : List Text := p.lines ++ if p.finalBreak then [[]] else []

theorem pieces_eq_or (p : PhysicalLines) :
    p.finalBreak = true ∧ p.pieces = p.lines ++ [[]] ∨
      p.finalBreak = false ∧ p.pieces = p.lines := by
  cases h : p.finalBreak <;> simp [pieces, h]

theorem interleave_pieces (p : PhysicalLines) (breaks : List LineBreak) :
    interleave p.pieces breaks = interleave p.lines breaks := by
  obtain ⟨-, h⟩ | ⟨-, h⟩ := p.pieces_eq_or
  · rw [h, interleave_concat_nil]
  · rw [h]

theorem keepsPairs_pieces {p : PhysicalLines} :
    KeepsPairs p.pieces breaks ↔ KeepsPairs p.lines breaks := by
  obtain ⟨-, h⟩ | ⟨-, h⟩ := p.pieces_eq_or
  · rw [h, keepsPairs_concat_nil]
  · rw [h]

/-- Whether there is a last line that is not empty, as there has to be
where no break ends it. -/
def EndsInLine (lines : List Text) : Prop := ∃ line, lines.getLast? = some line ∧ line ≠ []

theorem EndsInLine.ne_concat_nil (h : EndsInLine lines) (others : List Text) :
    lines ≠ others ++ [[]] := by
  rintro rfl
  obtain ⟨line, hline, hne⟩ := h
  rw [List.getLast?_concat] at hline
  exact hne (Option.some.inj hline).symm

/-- **A partition of a text** into lines and line breaks. -/
structure IsPartition (t : Text) (p : PhysicalLines) (breaks : List LineBreak) : Prop where
  /-- Every line has a break behind it, except for the last one if there
  is no final break. -/
  length_eq : breaks.length = if p.finalBreak then p.lines.length else p.lines.length - 1
  /-- Lines and breaks in turn are the text. -/
  interleave_eq : interleave p.lines breaks = t
  /-- No character that breaks lines is left in a line. -/
  isLine : ∀ line ∈ p.lines, IsLine line
  /-- A carriage return and the line feed behind it are one break. -/
  keepsPairs : KeepsPairs p.lines breaks
  /-- Without a final break there is a last line, and it is not empty. -/
  last : p.finalBreak = false → EndsInLine p.lines
  /-- The first break is the one that is reported. -/
  firstBreak_eq : p.firstBreak = breaks.head?

variable {p q : PhysicalLines} {breaks' : List LineBreak}

/-- The pieces of a partition are one more than the breaks. -/
theorem IsPartition.length_pieces (h : IsPartition t p breaks) :
    p.pieces.length = breaks.length + 1 := by
  rw [h.length_eq]
  obtain ⟨hfinal, hpieces⟩ | ⟨hfinal, hpieces⟩ := p.pieces_eq_or
  · rw [hpieces, hfinal, if_pos rfl, List.length_append, List.length_singleton]
  · obtain ⟨line, hline, -⟩ := h.last hfinal
    have hpos : 0 < p.lines.length := List.length_pos_of_mem (List.mem_of_getLast? hline)
    rw [hpieces, hfinal, if_neg Bool.false_ne_true, Nat.sub_add_cancel hpos]

/-- The text of a partition is cut into its pieces. -/
theorem IsPartition.cut_eq (h : IsPartition t p breaks) :
    ∃ line lines, p.pieces = line :: lines ∧ lines.length = breaks.length ∧
      cut t = (line, breaks.zip lines) := by
  obtain ⟨line, lines, hpieces⟩ := List.exists_cons_of_length_eq_add_one h.length_pieces
  have hlength : lines.length = breaks.length := by
    have hcount := h.length_pieces
    rw [hpieces, List.length_cons] at hcount
    exact Nat.succ.inj hcount
  have hlines : ∀ l ∈ p.pieces, IsLine l := by
    obtain ⟨-, heq⟩ | ⟨-, heq⟩ := p.pieces_eq_or
    · rw [heq]
      exact List.forall_mem_append.2 ⟨h.isLine, List.forall_mem_singleton.2 isLine_nil⟩
    · exact heq ▸ h.isLine
  have hpairs := keepsPairs_pieces.2 h.keepsPairs
  have htext := (p.interleave_pieces breaks).trans h.interleave_eq
  rw [hpieces] at hlines hpairs htext
  exact ⟨line, lines, hpieces, hlength, htext ▸ cut_interleave hlines hlength.symm hpairs⟩

/-- The lines are told from the pieces, if those without a final break end
in a line. -/
theorem eq_of_pieces_eq (hp : p.finalBreak = false → EndsInLine p.lines)
    (hq : q.finalBreak = false → EndsInLine q.lines) (h : p.pieces = q.pieces) :
    p.lines = q.lines ∧ p.finalBreak = q.finalBreak := by
  obtain ⟨hpf, hpl⟩ | ⟨hpf, hpl⟩ := p.pieces_eq_or <;>
    obtain ⟨hqf, hql⟩ | ⟨hqf, hql⟩ := q.pieces_eq_or <;>
    rw [hpl, hql] at h
  · exact ⟨List.append_cancel_right h, hpf.trans hqf.symm⟩
  · exact absurd h.symm ((hq hqf).ne_concat_nil _)
  · exact absurd h ((hp hpf).ne_concat_nil _)
  · exact ⟨h, hpf.trans hqf.symm⟩

/-- **A text has one partition at most.** -/
theorem IsPartition.unique (hp : IsPartition t p breaks) (hq : IsPartition t q breaks') :
    p = q ∧ breaks = breaks' := by
  obtain ⟨line, lines, hpieces, hlength, hcut⟩ := hp.cut_eq
  obtain ⟨line', lines', hpieces', hlength', hcut'⟩ := hq.cut_eq
  obtain ⟨rfl, hzip⟩ := Prod.mk.inj (hcut.symm.trans hcut')
  have hlines : lines = lines' := by
    rw [← List.map_snd_zip (Nat.le_of_eq hlength), hzip,
      List.map_snd_zip (Nat.le_of_eq hlength')]
  have hbreaks : breaks = breaks' := by
    rw [← List.map_fst_zip (Nat.le_of_eq hlength.symm), hzip,
      List.map_fst_zip (Nat.le_of_eq hlength'.symm)]
  obtain ⟨hl, hfinal⟩ := eq_of_pieces_eq hp.last hq.last (by rw [hpieces, hpieces', hlines])
  have hfirst : p.firstBreak = q.firstBreak := by
    rw [hp.firstBreak_eq, hq.firstBreak_eq, hbreaks]
  refine ⟨?_, hbreaks⟩
  cases p
  cases q
  exact congr (congr (congrArg PhysicalLines.mk hl) hfirst) hfinal

theorem pieces_ofText (t : Text) :
    (ofText t).pieces = (cut t).1 :: (cut t).2.map Prod.snd :=
  lines_ofText_append t

/-- **The physical lines of a text are a partition of it.** -/
theorem isPartition_ofText (t : Text) : IsPartition t (ofText t) (breaksOf t) where
  length_eq := by
    have hlength : (ofText t).pieces.length = (breaksOf t).length + 1 := by
      rw [pieces_ofText, breaksOf, List.length_cons, List.length_map, List.length_map]
    obtain ⟨hfinal, heq⟩ | ⟨hfinal, heq⟩ := (ofText t).pieces_eq_or
    · rw [heq, List.length_append, List.length_singleton] at hlength
      rw [hfinal, if_pos rfl, Nat.succ.inj hlength]
    · rw [hfinal, if_neg Bool.false_ne_true, ← heq, hlength, Nat.add_sub_cancel]
  interleave_eq := by rw [← interleave_pieces, pieces_ofText, interleave_cut]
  isLine _ := isLine_of_mem_lines
  keepsPairs := by
    rw [← keepsPairs_pieces, pieces_ofText]
    exact keepsPairs_cut t
  last hfinal := by
    -- were the last piece empty, there would be a final break
    have hlast : ((cut t).1 :: (cut t).2.map Prod.snd).getLast? ≠ some [] :=
      of_decide_eq_false hfinal
    have hlines : (ofText t).lines = (cut t).1 :: (cut t).2.map Prod.snd := by
      rw [← pieces_ofText, pieces, hfinal, if_neg Bool.false_ne_true, List.append_nil]
    have hsome :=
      List.getLast?_eq_some_getLast (List.cons_ne_nil (cut t).1 ((cut t).2.map Prod.snd))
    rw [hlines]
    exact ⟨_, hsome, fun hnil => hlast (hsome.trans (congrArg some hnil))⟩
  firstBreak_eq := by
    rw [breaksOf, List.head?_map, ← firstBreak?_eq]
    rfl

/-- **The physical lines of a text are its only partition**, together with
its line breaks; and the empty text has no lines, and is ended. -/
theorem isPartition_iff_ofText :
    (∀ t p breaks, IsPartition t p breaks ↔ ofText t = p ∧ breaksOf t = breaks) ∧
      ofText [] = ⟨[], none, true⟩ := by
  refine ⟨fun t p breaks => ⟨(isPartition_ofText t).unique, ?_⟩, rfl⟩
  rintro ⟨rfl, rfl⟩
  exact isPartition_ofText t

/-- A pair is one break, a second carriage return is another one, and the
last line is left open. -/
example :
    ofText "a\r\n\r\r\nb".toList = ⟨["a".toList, [], [], "b".toList], some .crlf, false⟩ ∧
      breaksOf "a\r\n\r\r\nb".toList = [.crlf, .cr, .crlf] := by
  decide

end PhysicalLines

end PropertyFile
