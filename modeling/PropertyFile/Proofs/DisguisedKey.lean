import PropertyFile.Proofs.ListLine
import PropertyFile.Proofs.Rereading

/-!
# Keys that are taken for comments

Two notions of blank meet at the start of a line. The line is a comment
if a comment mark is its first character that is not blank, where blank
is meant in the wide sense, while a key is written with backslashes in
front of spacing only, which are three of the blanks, and in front of a
comment mark only where it is the first character of all. A key that
starts with other blanks and then has a comment mark is therefore
**disguised** (`IsDisguised`): as long as it is not written in ASCII, its
line looks like a comment.

Every other property is read as it was written. With a separator that
has an assignment mark the line is never blank, and it is a comment line
for the disguised keys only (`isCommentLine_line_iff`); so the key and
the value come back exactly if the key is not disguised, or is written in
ASCII (`written_property_reads_back_iff`).
-/

namespace PropertyFile

open Text PhysicalLines

/-- A blank that a key holds as it stands: it is no spacing, and it breaks
no line. -/
def isBareBlank (c : Char) : Bool := isBlank c && !isSpacing c && !isBreak c

/-- **A disguised key**: one that starts with bare blanks, at least one of
them, and goes on with a comment mark. -/
def IsDisguised (k : Text) : Prop :=
  ∃ blanks mark rest, k = blanks ++ mark :: rest ∧ blanks ≠ [] ∧
    (∀ c ∈ blanks, isBareBlank c = true) ∧ isCommentMark mark = true

/-! ## The characters of a key -/

theorem isBareBlank_eq_true {c : Char} :
    isBareBlank c = true ↔ isBlank c = true ∧ isSpacing c = false ∧ c ≠ '\n' ∧ c ≠ '\r' := by
  rw [isBareBlank, Bool.and_eq_true, Bool.and_eq_true, Bool.not_eq_true', Bool.not_eq_true',
    isBreak_eq_false, and_assoc]

theorem isBlank_of_isSpacing {c : Char} (h : isSpacing c = true) : isBlank c = true := by
  simp only [isSpacing, Bool.or_eq_true, beq_iff_eq] at h
  obtain (rfl | rfl) | rfl := h
  all_goals rfl

/-- An assignment mark is no blank and no comment mark. -/
theorem isBlank_of_isAssign {c : Char} (h : isAssign c = true) :
    isBlank c = false ∧ isCommentMark c = false := by
  simp only [isAssign, Bool.or_eq_true, beq_iff_eq] at h
  obtain rfl | rfl := h
  all_goals exact ⟨rfl, rfl⟩

/-- Among the printable ASCII characters the space is the only blank. -/
theorem isForeign_of_isBareBlank {c : Char} (h : isBareBlank c = true) :
    Escape.isForeign c = true := by
  obtain ⟨hblank, hspacing, -⟩ := isBareBlank_eq_true.1 h
  have hspace : c.toNat ≠ 0x20 := by
    intro hc
    rw [show c = ' ' from Char.toNat_inj.1 hc] at hspacing
    exact absurd hspacing (by decide)
  simp only [isBlank, Bool.or_eq_true, Bool.and_eq_true, decide_eq_true_eq, beq_iff_eq] at hblank
  simp only [Escape.isForeign, Bool.or_eq_true, decide_eq_true_eq]
  omega

namespace Escape

/-- **A bare blank is written as it stands**, wherever in the key. -/
theorem keyChar_of_isBareBlank (first : Bool) {c : Char} (h : isBareBlank c = true) :
    keyChar false first c = [c] := by
  obtain ⟨hblank, hspacing, hn, hr⟩ := isBareBlank_eq_true.1 h
  have hassign : isAssign c = false := by
    by_contra hc
    exact absurd (hblank.symm.trans (isBlank_of_isAssign (Bool.not_eq_false _ ▸ hc)).1) nofun
  have hmark : isCommentMark c = false := by
    by_contra hc
    exact absurd (hblank.symm.trans (isBlank_of_isCommentMark (Bool.not_eq_false _ ▸ hc))) nofun
  have hescape : c ≠ escapeMark := by
    rintro rfl
    exact absurd hblank (by decide)
  simp [keyChar, plain, hn, hr, hassign, hspacing, hescape, hmark]

/-- A comment mark is written as it stands behind other characters. -/
theorem keyChar_of_isCommentMark (ascii : Bool) {c : Char} (h : isCommentMark c = true) :
    keyChar ascii false c = [c] := by
  simp only [isCommentMark, Bool.or_eq_true, beq_iff_eq] at h
  obtain rfl | rfl := h
  all_goals cases ascii <;> rfl

/-- All other characters of a key are written as something that starts
with neither. -/
theorem keyChar_starts (ascii first : Bool) {c : Char}
    (hblank : ascii = true ∨ isBareBlank c = false)
    (hmark : first = true ∨ isCommentMark c = false) :
    ∃ d t, keyChar ascii first c = d :: t ∧ isBlank d = false ∧ isCommentMark d = false := by
  have hescape : ∀ t : Text, ∃ d t', escapeMark :: t = d :: t' ∧ isBlank d = false ∧
      isCommentMark d = false := fun t => ⟨escapeMark, t, rfl, rfl, rfl⟩
  unfold keyChar
  split
  · exact hescape _
  split
  · exact hescape _
  split
  · exact hescape _
  split
  · exact hescape _
  · next hn hr hstop hfirst =>
    unfold plain
    split
    · obtain ⟨t, ht⟩ := unicode_cons c
      rw [ht]
      exact hescape t
    · next hplain =>
      refine ⟨c, [], rfl, ?_, ?_⟩
      · -- a blank that is written as it stands is a bare one
        by_contra hc
        simp only [Bool.or_eq_true, not_or, Bool.not_eq_true] at hstop
        have hbare : isBareBlank c = true := isBareBlank_eq_true.2
          ⟨Bool.not_eq_false _ ▸ hc, hstop.1.2, by simpa using hn, by simpa using hr⟩
        obtain rfl | hnot := hblank
        · exact hplain (isForeign_of_isBareBlank hbare)
        · exact absurd (hnot.symm.trans hbare) Bool.false_ne_true
      · obtain rfl | hnot := hmark
        · simpa using hfirst
        · exact hnot

end Escape

/-! ## The lines of keys -/

/-- Blanks in front of a line do not change whether it is a comment
line. -/
theorem isCommentLine_cons {c : Char} (h : isBlank c = true) (t : Text) :
    isCommentLine (c :: t) = isCommentLine t := by
  unfold isCommentLine
  rw [List.dropWhile_cons_of_pos h]

/-- The first character that is not blank decides. -/
theorem isCommentLine_cons_of_not {c : Char} (h : isBlank c = false) (t : Text) :
    isCommentLine (c :: t) = isCommentMark c := by
  unfold isCommentLine
  rw [List.dropWhile_cons_of_neg (by simp [h])]

/-- An assignment mark shows that a line is a property. -/
theorem isCommentLine_separator {s : Text} (hs : IsSeparator s) (hmark : s.any isAssign = true)
    (u : Text) : isCommentLine (s ++ u) = false := by
  induction s with
  | nil => exact absurd hmark Bool.false_ne_true
  | cons c s ih =>
    rw [List.cons_append]
    obtain hc | hc := hs.chars c List.mem_cons_self
    · rw [isCommentLine_cons (isBlank_of_isSpacing hc)]
      rw [List.any_cons, IsSeparator.isAssign_of_isSpacing hc, Bool.false_or] at hmark
      exact ih (hs.of_sublist (List.sublist_cons_self c s)) hmark
    · rw [isCommentLine_cons_of_not (isBlank_of_isAssign hc).1, (isBlank_of_isAssign hc).2]

/-- Whether a text comes to a comment mark behind bare blanks, if any. -/
def ComesToMark (t : Text) : Prop :=
  ∃ blanks mark rest, t = blanks ++ mark :: rest ∧ (∀ c ∈ blanks, isBareBlank c = true) ∧
    isCommentMark mark = true

/-- A disguised key starts with a bare blank and then comes to a mark. -/
theorem isDisguised_cons_iff {c : Char} {k : Text} :
    IsDisguised (c :: k) ↔ isBareBlank c = true ∧ ComesToMark k := by
  constructor
  · rintro ⟨blanks, mark, rest, heq, hne, hblanks, hmark⟩
    cases blanks with
    | nil => exact absurd rfl hne
    | cons b blanks =>
      obtain ⟨rfl, rfl⟩ := List.cons.inj heq
      obtain ⟨hc, hrest⟩ := List.forall_mem_cons.1 hblanks
      exact ⟨hc, blanks, mark, rest, rfl, hrest, hmark⟩
  · rintro ⟨hc, blanks, mark, rest, rfl, hblanks, hmark⟩
    exact ⟨c :: blanks, mark, rest, rfl, List.cons_ne_nil _ _,
      List.forall_mem_cons.2 ⟨hc, hblanks⟩, hmark⟩

theorem not_comesToMark_nil : ¬ ComesToMark [] := by
  rintro ⟨blanks, mark, rest, h, -⟩
  exact absurd h (by simp)

/-- The first character is the mark, or it is a bare blank in front of
it. -/
theorem comesToMark_cons_iff {c : Char} {t : Text} :
    ComesToMark (c :: t) ↔ isCommentMark c = true ∨ isBareBlank c = true ∧ ComesToMark t := by
  constructor
  · rintro ⟨blanks, mark, rest, heq, hblanks, hmark⟩
    cases blanks with
    | nil =>
      obtain ⟨rfl, -⟩ := List.cons.inj heq
      exact .inl hmark
    | cons b blanks =>
      obtain ⟨rfl, rfl⟩ := List.cons.inj heq
      obtain ⟨hc, hrest⟩ := List.forall_mem_cons.1 hblanks
      exact .inr ⟨hc, blanks, mark, rest, rfl, hrest, hmark⟩
  · rintro (hmark | ⟨hc, blanks, mark, rest, rfl, hblanks, hmark⟩)
    · exact ⟨[], c, t, rfl, fun d hd => absurd hd List.not_mem_nil, hmark⟩
    · exact ⟨c :: blanks, mark, rest, rfl, List.forall_mem_cons.2 ⟨hc, hblanks⟩, hmark⟩

/-- **A line comes to a comment mark** behind the blanks of a key if the
key does. The induction is on what is left of the key. -/
theorem isCommentLine_flatMap_iff {u : Text} (hu : isCommentLine u = false) (k : Text) :
    isCommentLine (k.flatMap (Escape.keyChar false false) ++ u) = true ↔ ComesToMark k := by
  induction k with
  | nil =>
    exact iff_of_false (fun h => absurd (hu.symm.trans h) Bool.false_ne_true) not_comesToMark_nil
  | cons c k ih =>
    rw [List.flatMap_cons, List.append_assoc, comesToMark_cons_iff]
    by_cases hmark : isCommentMark c = true
    · rw [Escape.keyChar_of_isCommentMark false hmark, List.singleton_append,
        isCommentLine_cons_of_not (isBlank_of_isCommentMark hmark)]
      exact (or_iff_left_of_imp fun _ => hmark).symm
    by_cases hblank : isBareBlank c = true
    · rw [Escape.keyChar_of_isBareBlank false hblank, List.singleton_append,
        isCommentLine_cons (isBareBlank_eq_true.1 hblank).1, ih, or_iff_right hmark,
        and_iff_right hblank]
    · -- something is written that starts with neither
      obtain ⟨d, t, hd, hdblank, hdmark⟩ := Escape.keyChar_starts false false
        (.inr (Bool.not_eq_true _ ▸ hblank)) (.inr (Bool.not_eq_true _ ▸ hmark))
      rw [hd, List.cons_append, isCommentLine_cons_of_not hdblank, hdmark]
      exact iff_of_false Bool.false_ne_true fun h => h.elim hmark fun h => hblank h.1

/-- **Which lines are taken for comments**: those of disguised keys, unless
they are ASCII. -/
theorem isCommentLine_line_iff (ascii : Bool) (k : Text) {s : Text} (hs : IsSeparator s)
    (hmark : s.any isAssign = true) (u : Text) :
    isCommentLine (propertyLine ascii k s u) = true ↔ ascii = false ∧ IsDisguised k := by
  have hsu := isCommentLine_separator hs hmark u
  unfold propertyLine
  rw [List.append_assoc]
  cases k with
  | nil =>
    refine iff_of_false (fun h => absurd (hsu.symm.trans h) Bool.false_ne_true) ?_
    rintro ⟨-, blanks, mark, rest, h, -⟩
    exact absurd h (by simp)
  | cons c k =>
    rw [Escape.key, List.append_assoc, isDisguised_cons_iff]
    by_cases hbare : ascii = false ∧ isBareBlank c = true
    · obtain ⟨rfl, hc⟩ := hbare
      rw [Escape.keyChar_of_isBareBlank true hc, List.singleton_append,
        isCommentLine_cons (isBareBlank_eq_true.1 hc).1, isCommentLine_flatMap_iff hsu]
      exact ⟨fun h => ⟨rfl, hc, h⟩, fun h => h.2.2⟩
    · have hblank : ascii = true ∨ isBareBlank c = false := by
        rw [not_and_or, Bool.not_eq_false, Bool.not_eq_true] at hbare
        exact hbare
      obtain ⟨d, t, hd, hdblank, hdmark⟩ := Escape.keyChar_starts ascii true hblank (.inl rfl)
      rw [hd, List.cons_append, isCommentLine_cons_of_not hdblank]
      exact iff_of_false (by simp [hdmark]) fun h => hbare ⟨h.1, h.2.1⟩

/-! ## What is read -/

namespace ReadLine

/-- A comment line alone is no property. -/
theorem ofLines_comment {line : Text} (h : isCommentLine line = true) :
    Reading.ofLines [] [line] = ⟨[], .complete [line]⟩ :=
  @run_readLines [.comment line] (List.forall_mem_singleton.2 h) 1 []

/-- A property line alone is one property. -/
theorem ofLines_property {line k s v : Text} (h : IsPropertyLine line k s v) :
    Reading.ofLines [] [line] = ⟨[⟨k, v, s, [], 1⟩], .complete []⟩ :=
  @run_readLines [.property line k s v] (List.forall_mem_singleton.2 h) 1 []

end ReadLine

/-- **A text that is read as one property** with the given key and value,
and nothing else. -/
def IsReadAlone (t key value : Text) : Prop :=
  ∃ p : Property, Reading.ofLines [] (ofText t).lines = ⟨[p], .complete []⟩ ∧
    p.key = key ∧ p.value = value ∧ p.comments = []

/-- What is written for a value, without a list delimiter, is its line. -/
theorem lines_propertyText (ascii : Bool) (b : LineBreak) (singleLine final : Bool) (k v : Text)
    {s : Text} (hs : IsSeparator s) (hne : s ≠ []) :
    (ofText (Writer.propertyText ⟨⟨none, ascii⟩, b.chars, none⟩ s k [v] singleLine final)).lines
      = [(WrittenProperty.mk k s v).line ascii] := by
  rw [Writer.propertyText_eq, propertyLines_plain rfl]
  exact lines_textOfLines_singleton b final (isLine_propertyLine ascii k v hs)
    (by simp [propertyLine, hne])

/-- **A written property is read back exactly if its key is not
disguised**, or is written in ASCII. What is written is one line, which
is never blank. It is taken for a comment if the key is disguised, and
then this comment is all that is read. -/
theorem written_property_reads_back_iff (ascii : Bool) (b : LineBreak) (singleLine final : Bool)
    (k v : Text) {s : Text} (hs : IsSeparator s) (hmark : s.countP isAssign = 1) :
    let t := Writer.propertyText ⟨⟨none, ascii⟩, b.chars, none⟩ s k [v] singleLine final
    ∃ line, (ofText t).lines = [line] ∧ ¬ (∀ c ∈ line, isBlank c = true) ∧
      (isCommentLine line = true ↔ ascii = false ∧ IsDisguised k) ∧
      (ascii = false ∧ IsDisguised k → Reading.ofLines [] (ofText t).lines
        = ⟨[], .complete [line]⟩) ∧
      (IsReadAlone t k v ↔ ¬ (ascii = false ∧ IsDisguised k)) := by
  intro t
  have hany : s.any isAssign = true :=
    List.any_eq_true.2 (List.countP_pos_iff.1 (hmark ▸ Nat.zero_lt_one))
  have hne : s ≠ [] := by
    rintro rfl
    exact absurd hany Bool.false_ne_true
  have hlines : (ofText t).lines = [(WrittenProperty.mk k s v).line ascii] :=
    lines_propertyText ascii b singleLine final k v hs hne
  have hcomment : isCommentLine ((WrittenProperty.mk k s v).line ascii) = true ↔
      ascii = false ∧ IsDisguised k := isCommentLine_line_iff ascii k hs hany _
  refine ⟨_, hlines, ?_, hcomment, ?_⟩
  · -- the assignment mark of the separator is in the line
    intro hblank
    obtain ⟨a, ha, hassign⟩ := List.any_eq_true.1 hany
    have hmem : a ∈ (WrittenProperty.mk k s v).line ascii :=
      List.mem_append_left _ (List.mem_append_right _ ha)
    exact absurd ((hblank a hmem).symm.trans (isBlank_of_isAssign hassign).1) nofun
  unfold IsReadAlone
  rw [hlines]
  by_cases hdisguised : ascii = false ∧ IsDisguised k
  · have hread := ReadLine.ofLines_comment (hcomment.2 hdisguised)
    refine ⟨fun _ => hread, iff_of_false ?_ (not_not.2 hdisguised)⟩
    rintro ⟨p, hp, -⟩
    exact absurd (Reading.mk.inj (hread.symm.trans hp)).1 nofun
  · have hproperty : isCommentLine ((WrittenProperty.mk k s v).line ascii) = false :=
      Bool.not_eq_true _ ▸ hcomment.not.2 hdisguised
    obtain ⟨k', s', v', hline, hfaithful, -⟩ :=
      WrittenProperty.exists_isPropertyLine ⟨hs, fun _ => .inr hany⟩ hproperty
    obtain ⟨rfl, rfl⟩ := Prod.mk.inj (hfaithful ⟨.inl hne, hproperty⟩)
    exact ⟨fun h => absurd h hdisguised, iff_of_true
      ⟨_, ReadLine.ofLines_property hline, rfl, rfl, rfl⟩ hdisguised⟩

/-- A key that starts with a no-break space and goes on with a comment
mark is read back if it is written in ASCII. -/
theorem written_property_reads_back_ascii :
    let t := Writer.propertyText ⟨⟨none, true⟩, LineBreak.lf.chars, none⟩ defaultSeparator
      ['\u00a0', '#'] [['v']] true true
    IsSeparator defaultSeparator ∧ defaultSeparator.countP isAssign = 1 ∧
      t = "\\u00a0# = v\n".toList ∧ IsReadAlone t ['\u00a0', '#'] ['v'] := by
  intro t
  obtain ⟨line, -, -, -, -, hread⟩ := written_property_reads_back_iff true .lf true true
    ['\u00a0', '#'] ['v'] IsSeparator.default (by decide)
  exact ⟨.default, by decide, by decide +kernel, hread.2 fun h => absurd h.1 (by decide)⟩

/-- **Not every written property is read back**: the same key is taken for
a comment as it stands. -/
theorem not_written_property_reads_back :
    ¬ ∀ (ascii : Bool) (b : LineBreak) (singleLine final : Bool) (k v s : Text),
      IsSeparator s → s.countP isAssign = 1 →
        IsReadAlone (Writer.propertyText ⟨⟨none, ascii⟩, b.chars, none⟩ s k [v] singleLine final)
          k v := by
  intro h
  obtain ⟨p, hp, -⟩ := h false .lf true true ['\u00a0', '#'] ['v'] defaultSeparator .default
    (by decide)
  have hread : Reading.ofLines [] (ofText (Writer.propertyText ⟨⟨none, false⟩, LineBreak.lf.chars,
      none⟩ defaultSeparator ['\u00a0', '#'] [['v']] true true)).lines
      = ⟨[], .complete [['\u00a0', '#', ' ', '=', ' ', 'v']]⟩ := by decide
  exact absurd (Reading.mk.inj (hread.symm.trans hp)).1 nofun

end PropertyFile
