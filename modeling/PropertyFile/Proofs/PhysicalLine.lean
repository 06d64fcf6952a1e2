import PropertyFile.Layout.Lines
import PropertyFile.PhysicalLine
import PropertyFile.Proofs.Text

/-!
# Physical lines of written texts

Writing lines with one and the same break behind each (`textOfLines`)
and cutting a text into its physical lines undo each other. In one
direction the text has to be uniform, that is, all its breaks have to be
alike (`textOfLines_ofText`). In the other direction what is written has
to consist of lines, and the one thing that gets lost is an empty line
at the end of a text whose last line is not ended
(`ofText_textOfLines`, `lines_ofText_textOfLines`).
-/

namespace PropertyFile

open Text

/-! ## Written lines as a join -/

/-- An ended last line is an empty line more to be joined. -/
theorem textOfLines_eq_joinWith (terminator : Text) (final : Bool) {lines : List Text}
    (h : lines ≠ []) :
    textOfLines terminator final lines
      = joinWith terminator (lines ++ if final then [[]] else []) := by
  induction lines with
  | nil => exact absurd rfl h
  | cons line rest ih =>
    cases rest with
    | nil => cases final <;> simp [textOfLines, writtenPieces, joinWith]
    | cons next rest =>
      rw [List.cons_append, joinWith_cons _ _ (by simp), ← ih (List.cons_ne_nil _ _)]
      simp [textOfLines, writtenPieces]

/-- The text of lines is their join, with a last terminator if there is a
line to end. -/
theorem textOfLines_eq (terminator : Text) (final : Bool) (lines : List Text) :
    textOfLines terminator final lines
      = joinWith terminator lines ++ if final && !lines.isEmpty then terminator else [] := by
  induction lines with
  | nil => cases final <;> rfl
  | cons line rest ih =>
    cases rest with
    | nil => cases final <;> simp [textOfLines, writtenPieces]
    | cons next rest =>
      have hcons : textOfLines terminator final (line :: next :: rest)
          = line ++ (terminator ++ textOfLines terminator final (next :: rest)) := rfl
      rw [hcons, ih, joinWith]
      simp

@[simp] theorem textOfLines_nil (terminator : Text) (final : Bool) :
    textOfLines terminator final [] = [] := rfl

namespace PhysicalLines

/-! ## Cutting what was joined -/

/-- A line in front of a text makes its first line longer. -/
theorem cut_line_append {line : Text} (h : IsLine line) (rest : Text) :
    cut (line ++ rest) = (line ++ (cut rest).1, (cut rest).2) := by
  induction line with
  | nil => rfl
  | cons c line ih =>
    obtain ⟨⟨hn, hr⟩, hline⟩ := isLine_cons.1 h
    rw [List.cons_append, cut.eq_5 _ _ (fun _ hc _ => hr hc) hr hn, ih hline]
    rfl

/-- A break in front of a text ends an empty first line, unless it is a
carriage return that forms a pair with what follows. -/
theorem cut_chars_append (b : LineBreak) {rest : Text} (h : b = .cr → rest.head? ≠ some '\n') :
    cut (b.chars ++ rest) = ([], (b, (cut rest).1) :: (cut rest).2) := by
  cases b with
  | lf => rfl
  | crlf => rfl
  | cr =>
    have hpair : ∀ r, rest = '\n' :: r → False := fun r hr => h rfl (by rw [hr]; rfl)
    rw [LineBreak.chars, List.singleton_append, cut.eq_3 _ hpair]

/-- **Cutting undoes joining**: lines joined around a break come out as
they were, each later one with that break before it. -/
theorem cut_joinWith (b : LineBreak) {line : Text} {lines : List Text}
    (h : ∀ l ∈ line :: lines, IsLine l) :
    cut (joinWith b.chars (line :: lines)) = (line, lines.map fun l => (b, l)) := by
  induction lines generalizing line with
  | nil =>
    have hc := cut_line_append (h line List.mem_cons_self) []
    rw [List.append_nil] at hc
    rw [joinWith_singleton, hc]
    simp [cut]
  | cons next rest ih =>
    have hlater : ∀ l ∈ next :: rest, IsLine l := fun l hl => h l (List.mem_cons_of_mem _ hl)
    have hcr : b = .cr → (joinWith b.chars (next :: rest)).head? ≠ some '\n' := by
      rintro rfl hhead
      obtain hm | ⟨l, hl, hm⟩ := mem_of_mem_joinWith (List.mem_of_head? hhead)
      · exact absurd hm (by decide)
      · exact (hlater l hl).not_mem hm
    rw [joinWith_cons _ _ (List.cons_ne_nil _ _), List.append_assoc,
      cut_line_append (h line List.mem_cons_self), cut_chars_append b hcr, ih hlater,
      List.append_nil]
    rfl

/-! ## Joining what was cut -/

/-- Cutting loses nothing: the lines with the breaks between them are the
text. -/
theorem cut_append (t : Text) :
    (cut t).1 ++ (cut t).2.flatMap (fun e => e.1.chars ++ e.2) = t := by
  fun_induction cut t with simp_all [LineBreak.chars]

/-- The search for the first break finds the one that ends the first line. -/
theorem firstBreak?_eq (t : Text) : firstBreak? t = (cut t).2.head?.map Prod.fst := by
  fun_induction cut t with simp_all [firstBreak?]

/-- What is cut are lines. -/
theorem isLine_of_cut (t : Text) : IsLine (cut t).1 ∧ ∀ e ∈ (cut t).2, IsLine e.2 := by
  fun_induction cut t with
  | case1 => simp [isLine_nil]
  | case2 rest line later h ih =>
    rw [h] at ih
    exact ⟨isLine_nil, List.forall_mem_cons.2 ih⟩
  | case3 rest _ line later h ih =>
    rw [h] at ih
    exact ⟨isLine_nil, List.forall_mem_cons.2 ih⟩
  | case4 rest line later h ih =>
    rw [h] at ih
    exact ⟨isLine_nil, List.forall_mem_cons.2 ih⟩
  | case5 c rest _ hr hn line later h ih =>
    rw [h] at ih
    exact ⟨isLine_cons.2 ⟨⟨hn, hr⟩, ih.1⟩, ih.2⟩

/-! ## Physical lines -/

/-- An empty last line, taken off and put back. -/
theorem dropLast_append_of_ended (all : List Text) :
    (if all.getLast? = some [] then all.dropLast else all)
      ++ (if decide (all.getLast? = some []) = true then [[]] else []) = all := by
  by_cases h : all.getLast? = some []
  · obtain ⟨init, rfl⟩ := List.getLast?_eq_some_iff.1 h
    simp
  · simp [h]

/-- The physical lines, with an empty one behind an ended last line, are
what is cut. -/
theorem lines_ofText_append (t : Text) :
    (ofText t).lines ++ (if (ofText t).finalBreak then [[]] else [])
      = (cut t).1 :: (cut t).2.map Prod.snd :=
  dropLast_append_of_ended _

/-- What is no line is not among the physical lines. -/
theorem isLine_of_mem_lines {t line : Text} (h : line ∈ (ofText t).lines) : IsLine line := by
  have hmem : line ∈ (cut t).1 :: (cut t).2.map Prod.snd :=
    lines_ofText_append t ▸ List.mem_append_left _ h
  obtain rfl | hmem := List.mem_cons.1 hmem
  · exact (isLine_of_cut t).1
  · obtain ⟨e, he, rfl⟩ := List.mem_map.1 hmem
    exact (isLine_of_cut t).2 e he

/-- **A uniform text**: all its line breaks are of one kind. -/
def Uniform (b : LineBreak) (t : Text) : Prop := ∀ e ∈ (cut t).2, e.1 = b

/-- The lines of a uniform text, joined around its break, are the text. -/
theorem joinWith_cut {b : LineBreak} {t : Text} (h : Uniform b t) :
    joinWith b.chars ((cut t).1 :: (cut t).2.map Prod.snd) = t := by
  suffices hjoin : ∀ (line : Text) (later : List (LineBreak × Text)), (∀ e ∈ later, e.1 = b) →
      joinWith b.chars (line :: later.map Prod.snd)
        = line ++ later.flatMap (fun e => e.1.chars ++ e.2) from
    (hjoin _ _ h).trans (cut_append t)
  intro line later hlater
  induction later generalizing line with
  | nil => simp
  | cons e later ih =>
    have he := hlater e List.mem_cons_self
    rw [List.map_cons, joinWith_cons _ _ (List.cons_ne_nil _ _),
      ih e.2 (fun e he => hlater e (List.mem_cons_of_mem _ he)), List.flatMap_cons, he]
    simp only [List.append_assoc]

end PhysicalLines

open PhysicalLines

/-- **Writing the lines of a uniform text gives the text back.** -/
theorem textOfLines_ofText {b : LineBreak} {t : Text} (h : Uniform b t) :
    textOfLines b.chars (ofText t).finalBreak (ofText t).lines = t := by
  have happend := lines_ofText_append t
  by_cases hl : (ofText t).lines = []
  · rw [hl, List.nil_append] at happend
    rw [hl, textOfLines_nil, ← joinWith_cut h, ← happend]
    split <;> rfl
  · rw [textOfLines_eq_joinWith _ _ hl, happend, joinWith_cut h]

/-- **Written lines are read as they were**, if the last one is ended. -/
theorem ofText_textOfLines (b : LineBreak) {lines : List Text} (hne : lines ≠ [])
    (h : ∀ l ∈ lines, IsLine l) :
    ofText (textOfLines b.chars true lines) = ⟨lines, some b, true⟩ := by
  obtain ⟨line, rest, rfl⟩ := List.exists_cons_of_ne_nil hne
  have hcut : cut (textOfLines b.chars true (line :: rest))
      = (line, (rest ++ [[]]).map fun l => (b, l)) := by
    rw [textOfLines_eq_joinWith _ _ hne, if_pos rfl, List.cons_append]
    exact cut_joinWith b fun l hl => by
      obtain hl | hl := List.mem_append.1 (List.cons_append ▸ hl)
      · exact h l hl
      · exact List.mem_singleton.1 hl ▸ isLine_nil
  have hall : line :: ((rest ++ [[]]).map fun l => (b, l)).map Prod.snd
      = (line :: rest) ++ [[]] := by simp [Function.comp_def]
  simp only [ofText, firstBreak?_eq, hcut, hall, List.getLast?_concat, List.dropLast_concat,
    if_true]
  cases rest <;> rfl

/-- However the last line is ended, written lines are read as they were
but for an empty last one. -/
theorem lines_ofText_textOfLines (b : LineBreak) (final : Bool) {lines : List Text}
    (h : ∀ l ∈ lines, IsLine l) :
    ∃ blank, (blank = [] ∨ blank = [[]]) ∧
      (ofText (textOfLines b.chars final lines)).lines ++ blank = lines := by
  by_cases hne : lines = []
  · subst hne
    exact ⟨[], .inl rfl, rfl⟩
  cases final with
  | true => exact ⟨[], .inl rfl, by rw [ofText_textOfLines b hne h, List.append_nil]⟩
  | false =>
    obtain ⟨line, rest, rfl⟩ := List.exists_cons_of_ne_nil hne
    have happend := lines_ofText_append (textOfLines b.chars false (line :: rest))
    rw [textOfLines_eq_joinWith _ _ hne, if_neg Bool.false_ne_true, List.append_nil,
      cut_joinWith b h] at happend
    rw [textOfLines_eq_joinWith _ _ hne, if_neg Bool.false_ne_true, List.append_nil]
    refine ⟨_, ?_, happend.trans (by simp [Function.comp_def])⟩
    split
    · exact .inr rfl
    · exact .inl rfl

end PropertyFile
