import PropertyFile.Proofs.Including
import PropertyFile.Proofs.PhysicalLine

/-!
# The content of a text

The **content** of a text are its lines that are no comment lines. A line
break between two texts parts their contents (`content_append_break`), and
everything about contents follows from this one equation. In particular
the pair of a carriage return and a line feed needs no care: taken for two
breaks it leaves a blank line between them, which is no content.

A text whose content lines announce no further line is read by its content
alone (`Store.exists_read_of_content_eq`): comments and blank lines may
come and go, and neither whether the text can be read nor the values that
are read depend on them.
-/

namespace PropertyFile

open Text PhysicalLines

/-! ## Content lines -/

/-- Whether a character breaks lines. -/
def isBreak (c : Char) : Bool := c == '\n' || c == '\r'

/-- **The content of a text**: its lines that are no comment lines. -/
def content (t : Text) : List Text := (t.splitOnP isBreak).filter fun line => !isCommentLine line

@[simp] theorem content_nil : content [] = [] := rfl

/-- **A line break parts contents.** -/
theorem content_append_break {c : Char} (hc : isBreak c = true) (t u : Text) :
    content (t ++ c :: u) = content t ++ content u := by
  unfold content
  rw [List.splitOnP_append_cons t u hc, List.filter_append]

theorem content_append_chars (b : LineBreak) (t u : Text) :
    content (t ++ b.chars ++ u) = content t ++ content u := by
  rw [List.append_assoc]
  cases b with
  | lf => exact content_append_break rfl t u
  | cr => exact content_append_break rfl t u
  | crlf =>
    have hlf : content ('\n' :: u) = content [] ++ content u :=
      content_append_break rfl [] u
    exact (content_append_break rfl t ('\n' :: u)).trans (by rw [hlf]; rfl)

/-- The content of joined texts. -/
theorem content_joinWith (b : LineBreak) (ts : List Text) :
    content (joinWith b.chars ts) = ts.flatMap content := by
  induction ts with
  | nil => rfl
  | cons t us ih =>
    cases us with
    | nil => exact (List.append_nil (content t)).symm
    | cons u us =>
      rw [joinWith, content_append_chars, ih]
      rfl

/-- The content of written lines, whatever they are. -/
theorem content_textOfLines (b : LineBreak) (final : Bool) (lines : List Text) :
    content (textOfLines b.chars final lines) = lines.flatMap content := by
  by_cases hne : lines = []
  · subst hne
    rfl
  · rw [textOfLines_eq_joinWith _ _ hne, content_joinWith, List.flatMap_append]
    cases final with
    | false => exact List.append_nil _
    | true => exact List.append_nil _

/-- The first line of a text, and the later ones, blank lines aside. -/
theorem exists_splitOnP (t : Text) : ∃ later, t.splitOnP isBreak = (cut t).1 :: later ∧
    (later.filter fun line => !isCommentLine line)
      = ((cut t).2.map Prod.snd).filter fun line => !isCommentLine line := by
  fun_induction cut t with
  | case1 => exact ⟨[], rfl, rfl⟩
  | case2 rest line later hcut ih =>
    obtain ⟨later', hsplit, hlater⟩ := ih
    rw [hcut] at hsplit hlater
    refine ⟨[] :: line :: later', ?_, ?_⟩
    · rw [List.splitOnP_cons_eq_if_modifyHead, if_pos (by decide),
        List.splitOnP_cons_eq_if_modifyHead, if_pos (by decide), hsplit]
    · -- the line between the two characters of the break is blank
      rw [List.filter_cons_of_neg (by decide), List.map_cons, List.filter_cons, List.filter_cons,
        hlater]
  | case3 rest _ line later hcut ih | case4 rest line later hcut ih =>
    obtain ⟨later', hsplit, hlater⟩ := ih
    rw [hcut] at hsplit hlater
    refine ⟨line :: later', ?_, ?_⟩
    · rw [List.splitOnP_cons_eq_if_modifyHead, if_pos (by decide), hsplit]
    · rw [List.map_cons, List.filter_cons, List.filter_cons, hlater]
  | case5 c rest _ hr hn line later hcut ih =>
    obtain ⟨later', hsplit, hlater⟩ := ih
    rw [hcut] at hsplit hlater
    refine ⟨later', ?_, hlater⟩
    rw [List.splitOnP_cons_eq_if_modifyHead, if_neg (by simp_all [isBreak]), hsplit,
      List.modifyHead_cons]

/-- **The content are the physical lines** that are no comment lines. -/
theorem filter_lines_ofText (t : Text) :
    ((ofText t).lines.filter fun line => !isCommentLine line) = content t := by
  obtain ⟨later, hsplit, hlater⟩ := exists_splitOnP t
  have hlines := congrArg (List.filter fun line => !isCommentLine line) (lines_ofText_append t)
  have hblank : ((if (ofText t).finalBreak then [[]] else []).filter
      fun line => !isCommentLine line) = [] := by
    cases (ofText t).finalBreak <;> rfl
  rw [List.filter_append, hblank, List.append_nil] at hlines
  rw [hlines, content, hsplit, List.filter_cons, List.filter_cons, hlater]

/-- A text without content has only comment lines. -/
theorem content_eq_nil_iff {t : Text} :
    content t = [] ↔ ∀ line ∈ (ofText t).lines, isCommentLine line = true := by
  rw [← filter_lines_ofText, List.filter_eq_nil_iff]
  simp

/-! ## Reading content -/

namespace LogicalLine

/-- The logical line of a physical line alone. -/
def alone (line : Text) : LogicalLine :=
  if isCommentLine line then comment line else property [line] (line.dropWhile isSpacing)

/-- Lines that announce no further line are cut one by one. -/
theorem cut_eq_map_alone {lines : List Text}
    (h : ∀ line ∈ lines, isCommentLine line = false →
      endsWithContinuation (line.dropWhile isSpacing) = false) :
    cut none lines = lines.map alone := by
  induction lines with
  | nil => rfl
  | cons line rest ih =>
    obtain ⟨hline, hrest⟩ := List.forall_mem_cons.1 h
    rw [cut, List.map_cons, alone]
    cases hcomment : isCommentLine line with
    | true => exact congrArg (comment line :: ·) (ih hrest)
    | false =>
      show (if endsWithContinuation (line.dropWhile isSpacing) then
          cut (some ⟨[line], (line.dropWhile isSpacing).dropLast⟩) rest
        else property [line] (line.dropWhile isSpacing) :: cut none rest)
          = property [line] (line.dropWhile isSpacing) :: rest.map alone
      rw [hline hcomment, if_neg Bool.false_ne_true, ih hrest]

/-- The content of lines, as logical lines. -/
theorem filterMap_alone {α : Type} {f : LogicalLine → Option α} (hf : ∀ line, f (comment line) = none)
    (lines : List Text) :
    (lines.map alone).filterMap f
      = ((lines.filter fun line => !isCommentLine line).map alone).filterMap f := by
  induction lines with
  | nil => rfl
  | cons line rest ih =>
    cases hcomment : isCommentLine line with
    | true =>
      rw [List.filter_cons_of_neg (by simp [hcomment]), List.map_cons, List.filterMap_cons, alone,
        if_pos hcomment, hf, ih]
    | false =>
      rw [List.filter_cons_of_pos (by simp [hcomment]), List.map_cons, List.map_cons,
        List.filterMap_cons, List.filterMap_cons, ih]

/-- Lines can be read if their content can. -/
theorem forall_isReadable_alone {kept : Text} {lines : List Text} :
    (∀ l ∈ lines.map alone, l.IsReadable kept) ↔
      ∀ l ∈ (lines.filter fun line => !isCommentLine line).map alone, l.IsReadable kept := by
  rw [List.forall_mem_map, List.forall_mem_map]
  refine ⟨fun h line hline => h line (List.mem_of_mem_filter hline), fun h line hline => ?_⟩
  cases hcomment : isCommentLine line with
  | true =>
    rw [alone, if_pos hcomment]
    trivial
  | false => exact h line (List.mem_filter.2 ⟨hline, by simp [hcomment]⟩)

end LogicalLine

/-- **Options that switch includes off.** -/
structure StoreOptions.IsClosed (o : StoreOptions) : Prop where
  /-- No key includes a source that has to be there. -/
  includeKey : o.includeKey = none
  /-- No key includes a source that may be missing. -/
  includeOptionalKey : o.includeOptionalKey = none

theorem StoreOptions.IsClosed.directive?_eq_none {o : StoreOptions} (h : o.IsClosed) (key : Text) :
    o.directive? key = none := by
  simp [directive?, h.includeKey, h.includeOptionalKey, isDirectiveKey]

/-- **What stops a load without includes** is a malformed text, and
nothing else. -/
theorem Store.exists_parse_of_read {st : Store} (h : st.options.IsClosed) {src : Sources}
    {source : Option Text} {t : Text} {e : LoadError} (he : (st.read src source t).1 = .error e) :
    ∃ fault, e = .parse fault := by
  unfold read loadWithin Layout.load at he
  dsimp only at he
  rw [placeAll_of_none fun p _ => h.directive?_eq_none p.key] at he
  unfold Layout.conclude at he
  dsimp only at he
  split at he
  · cases he
    exact ⟨_, rfl⟩
  · cases he

/-- Where properties stand does not matter to their values. -/
theorem Values.addAll_bare (d : Option ListDelimiter) (values : Values)
    (properties : List Property) :
    values.addAll d (properties.map Property.bare) = values.addAll d properties :=
  List.foldl_map

namespace Store

variable {o : StoreOptions} (ho : o.IsClosed)

include ho

/-- **Reading without includes**: what succeeds can be read line by line,
and the values are those of the logical lines. -/
theorem values_of_read_eq_ok {keep : Bool} {src : Sources} {source : Option Text} {t : Text}
    {st : Store} {notices : List Notice}
    (h : (fresh o keep).read src source t = (.ok (), st, notices)) :
    (∀ l ∈ LogicalLine.cut none (ofText t).lines, l.IsReadable (ListDelimiter.kept o.delimiter)) ∧
      st.values = Values.addAll o.delimiter .empty ((LogicalLine.cut none (ofText t).lines).filterMap
        (LogicalLine.bare? (ListDelimiter.kept o.delimiter))) := by
  cases hreading : Reading.ofLines (ListDelimiter.kept o.delimiter) (ofText t).lines with
  | mk properties ending =>
    rw [read_of_none hreading fun p _ => ho.directive?_eq_none p.key] at h
    cases ending with
    | failed pending fault line => exact absurd (Prod.mk.inj h).1 nofun
    | complete trailing =>
      obtain ⟨-, hst⟩ := Prod.mk.inj h
      obtain ⟨rfl, -⟩ := Prod.mk.inj hst
      rw [LogicalLine.ofLines_eq_read] at hreading
      obtain ⟨hreadable, hbare⟩ := LogicalLine.isReadable_of_read hreading
      exact ⟨hreadable, by rw [← hbare, Values.addAll_bare]⟩

/-- What can be read line by line is read, with the values of its logical
lines. -/
theorem exists_read_of_isClosed {t : Text}
    (h : ∀ l ∈ LogicalLine.cut none (ofText t).lines,
      l.IsReadable (ListDelimiter.kept o.delimiter))
    (keep : Bool) (src : Sources) (source : Option Text) :
    ∃ st, (fresh o keep).read src source t = (.ok (), st, []) ∧
      st.values = Values.addAll o.delimiter .empty ((LogicalLine.cut none (ofText t).lines).filterMap
        (LogicalLine.bare? (ListDelimiter.kept o.delimiter))) := by
  obtain ⟨properties, st, hbare, hread, hvalues, -⟩ :=
    exists_read_of_isReadable h (fun _ _ p _ => ho.directive?_eq_none p.key) keep src source
  exact ⟨st, hread, by rw [hvalues, ← hbare, Values.addAll_bare]⟩

/-- **Texts of the same content are read alike**, if none of its lines
announces a further one. -/
theorem exists_read_of_content_eq {t u : Text} (hcontent : content u = content t)
    (hended : ∀ line ∈ content t, endsWithContinuation (line.dropWhile isSpacing) = false)
    {keep : Bool} {src : Sources} {source : Option Text} {st : Store} {notices : List Notice}
    (h : (fresh o keep).read src source t = (.ok (), st, notices)) :
    ∃ st', (fresh o keep).read src source u = (.ok (), st', []) ∧ st'.values = st.values := by
  -- both texts are cut line by line, and only content counts
  have hcut : ∀ v, content v = content t →
      LogicalLine.cut none (ofText v).lines = (ofText v).lines.map LogicalLine.alone := by
    intro v hv
    refine LogicalLine.cut_eq_map_alone fun line hline hcomment => hended line ?_
    rw [← hv, ← filter_lines_ofText]
    exact List.mem_filter.2 ⟨hline, by simp [hcomment]⟩
  obtain ⟨hreadable, hvalues⟩ := values_of_read_eq_ok ho h
  rw [hcut t rfl, LogicalLine.forall_isReadable_alone, filter_lines_ofText, ← hcontent,
    ← filter_lines_ofText, ← LogicalLine.forall_isReadable_alone, ← hcut u hcontent] at hreadable
  obtain ⟨st', hread, hvalues'⟩ := exists_read_of_isClosed ho hreadable keep src source
  refine ⟨st', hread, ?_⟩
  rw [hvalues', hvalues, hcut t rfl, hcut u hcontent, LogicalLine.filterMap_alone fun _ => rfl,
    filter_lines_ofText, hcontent, ← filter_lines_ofText,
    ← LogicalLine.filterMap_alone fun _ => rfl]

end Store

end PropertyFile
