import PropertyFile.Proofs.Editing

/-!
# Reading an edited store again

A sound store can be written and read again without an error
(`exists_reread`), but what is read need not be what was written. Every
value of every key has a line of its own, and such a line is **faithful**
(`WrittenProperty.IsFaithful`) unless it is taken for a comment, or has a
value that no separator parts from its key. These two faults are the only
ones, and no two of them make up for each other: the store is read as it
was if and only if all its lines are faithful (`reread_iff`).

The reason is a count. A line that is taken for a comment makes the list
of properties shorter, and a line without a separator makes its key
longer. Two lists with the same values for every key are permutations of
each other, so neither can happen if nothing has changed.
-/

namespace PropertyFile

open Text PhysicalLines

/-! ## The line of a value -/

/-- A value with what is written on its line. -/
structure WrittenProperty where
  /-- The key. -/
  key : Text
  /-- The text between key and value. -/
  separator : Text
  /-- The value. -/
  value : Text
deriving DecidableEq, Repr

namespace WrittenProperty

/-- The line. -/
def line (ascii : Bool) (w : WrittenProperty) : Text :=
  propertyLine ascii w.key w.separator (Escape.value ascii w.separator w.value)

/-- The key and the value. -/
def pair (w : WrittenProperty) : Text × Text := (w.key, w.value)

/-- **A faithful line**: its value is parted from its key, and it is not
taken for a comment. -/
def IsFaithful (ascii : Bool) (w : WrittenProperty) : Prop :=
  (w.separator ≠ [] ∨ w.value = []) ∧ isCommentLine (w.line ascii) = false

instance (ascii : Bool) (w : WrittenProperty) : Decidable (w.IsFaithful ascii) :=
  inferInstanceAs (Decidable (_ ∧ _))

/-- What is known of a line of a sound store. -/
structure IsSound (w : WrittenProperty) : Prop where
  /-- Its separator is one. -/
  separator : IsSeparator w.separator
  /-- An empty key has an assignment mark behind it, or nothing. -/
  keyless : w.key = [] → w.separator = [] ∨ w.separator.any isAssign = true

variable {ascii : Bool} {w : WrittenProperty}

theorem noIndent_value (s v : Text) : NoIndent (Escape.value ascii s v) :=
  fun c t h => (Escape.follows_value ascii s v c t h).1

/-- A line is indented at most where its key is empty. -/
theorem noIndent_line (h : w.key ≠ [] ∨ w.separator = []) : NoIndent (w.line ascii) := by
  cases hkey : w.key with
  | nil =>
    have hs := h.resolve_left fun hne => hne hkey
    have hline : w.line ascii = Escape.value ascii [] w.value := by
      rw [line, propertyLine, hkey, hs]
      rfl
    rw [hline]
    exact noIndent_value [] w.value
  | cons c k =>
    obtain ⟨d, t, hd, hstart⟩ := Escape.key_cons ascii c k
    have hline : w.line ascii
        = d :: (t ++ w.separator ++ Escape.value ascii w.separator w.value) := by
      rw [line, propertyLine, hkey, hd]
      rfl
    rw [hline]
    intro e u heq
    rw [← (List.cons.inj heq).1]
    -- a written key starts with a backslash or an ordinary character
    obtain rfl | ⟨rfl, hordinary, -⟩ := hstart
    · rfl
    · exact hordinary.2.1

/-- The indentation of a separator with an assignment mark is dropped. -/
theorem dropWhile_append_of_any {s : Text} (h : s.any isAssign = true) (v : Text) :
    (s ++ v).dropWhile isSpacing = s.dropWhile isSpacing ++ v ∧
      (s.dropWhile isSpacing).any isAssign = true := by
  induction s with
  | nil => exact absurd h Bool.false_ne_true
  | cons c s ih =>
    by_cases hs : isSpacing c = true
    · have hrest : s.any isAssign = true := by
        rw [List.any_cons, IsSeparator.isAssign_of_isSpacing hs, Bool.false_or] at h
        exact h
      rw [List.cons_append, List.dropWhile_cons_of_pos hs, List.dropWhile_cons_of_pos hs]
      exact ih hrest
    · rw [List.cons_append, List.dropWhile_cons_of_neg hs, List.dropWhile_cons_of_neg hs]
      exact ⟨rfl, h⟩

/-- A value is written alike behind separators that both have an
assignment mark, or both have none. -/
theorem value_congr {s s' : Text} (h : s.any isAssign = s'.any isAssign) (v : Text) :
    Escape.value ascii s v = Escape.value ascii s' v := by
  cases v with
  | nil => rfl
  | cons c v => rw [Escape.value, Escape.value, h]

/-- **What a line is read as** that is not taken for a comment: its key
and value if it is faithful, a longer key if not. -/
theorem exists_isPropertyLine (hw : w.IsSound) (hcomment : isCommentLine (w.line ascii) = false) :
    ∃ k s v, IsPropertyLine (w.line ascii) k s v ∧
      (w.IsFaithful ascii → (k, v) = w.pair) ∧
      (¬ w.IsFaithful ascii → w.key.length < k.length) := by
  have hended := (LineParts.isEscaped_dropWhile
    (isEscaped_propertyLine ascii w.key w.value hw.separator)).endsWithContinuation
  by_cases hf : w.separator ≠ [] ∨ w.value = []
  · have hfaithful : w.IsFaithful ascii := ⟨hf, hcomment⟩
    by_cases hk : w.key = [] ∧ w.separator ≠ []
    · -- the separator is read without its indentation
      obtain ⟨hdrop, hany⟩ := dropWhile_append_of_any ((hw.keyless hk.1).resolve_left hk.2)
        (Escape.value ascii w.separator w.value)
      have hseparator := hw.separator.of_sublist (List.dropWhile_sublist isSpacing)
      have hne : w.separator.dropWhile isSpacing ≠ [] := by
        intro hnil
        rw [hnil] at hany
        exact absurd hany Bool.false_ne_true
      have hline : (w.line ascii).dropWhile isSpacing
          = propertyLine ascii w.key (w.separator.dropWhile isSpacing)
              (Escape.value ascii (w.separator.dropWhile isSpacing) w.value) := by
        rw [line, propertyLine, propertyLine, hk.1]
        refine hdrop.trans ?_
        rw [value_congr (((hw.keyless hk.1).resolve_left hk.2).trans hany.symm) w.value]
        rfl
      refine ⟨w.key, w.separator.dropWhile isSpacing, w.value, ⟨hcomment, hended, ?_⟩,
        fun _ => rfl, fun h => absurd hfaithful h⟩
      intro comments number
      rw [hline]
      exact ofLine_propertyLine ascii hseparator (.inl hne) comments number
    · have hindent : NoIndent (w.line ascii) := by
        refine noIndent_line ?_
        by_cases hkey : w.key = []
        · exact .inr (not_not.1 fun hs => hk ⟨hkey, hs⟩)
        · exact .inl hkey
      exact ⟨w.key, w.separator, w.value,
        isPropertyLine_propertyLine ascii hw.separator hf hindent hcomment,
        fun _ => rfl, fun h => absurd hfaithful h⟩
  · -- nothing parts the value from the key
    obtain ⟨hs, hv⟩ := not_or.1 hf
    rw [not_not] at hs
    have hindent : NoIndent (w.line ascii) := noIndent_line (.inr hs)
    have hline : w.line ascii = propertyLine ascii w.key [] (Escape.value ascii [] w.value) := by
      rw [line, hs]
    obtain ⟨p, hp, hgrows⟩ := ofLine_unseparated ascii w.key hv [] 0
    refine ⟨p.key, p.separator, p.value, ⟨hcomment, hended, ?_⟩, fun h => absurd h.1 hf,
      fun _ => hgrows⟩
    rw [dropWhile_of_noIndent hindent, hline]
    exact ofLine_elsewhere hp

end WrittenProperty

/-! ## What any line is read as -/

namespace ReadLine

/-- What a line that stands for itself is read as. -/
def ofLine (line : Text) : ReadLine :=
  if isCommentLine line then .comment line
  else
    match Property.ofLine [] [] 0 (line.dropWhile isSpacing) with
    | .ok p => .property line p.key p.separator p.value
    | .error _ => .comment line

theorem ofLine_comment {line : Text} (h : isCommentLine line = true) :
    ofLine line = .comment line :=
  if_pos h

theorem ofLine_property {line k s v : Text} (h : IsPropertyLine line k s v) :
    ofLine line = .property line k s v := by
  rw [ofLine, if_neg (by simp [h.notComment]), h.reads]

/-- A line stands for itself if it is a comment line or a property line. -/
def StandsAlone (line : Text) : Prop :=
  isCommentLine line = true ∨ ∃ k s v, IsPropertyLine line k s v

theorem reads_ofLine {line : Text} (h : StandsAlone line) :
    (ofLine line).Reads ∧ (ofLine line).text = line := by
  obtain h | ⟨k, s, v, h⟩ := h
  · rw [ofLine_comment h]
    exact ⟨h, rfl⟩
  · rw [ofLine_property h]
    exact ⟨h, rfl⟩

/-- The pairs on some lines, those of comment lines being none. -/
def pairsOf (lines : List Text) : List (Text × Text) :=
  lines.filterMap fun line => (ofLine line).pair?

theorem pairsOf_append (first second : List Text) :
    pairsOf (first ++ second) = pairsOf first ++ pairsOf second :=
  List.filterMap_append

theorem pairsOf_comments {lines : List Text} (h : ∀ l ∈ lines, isCommentLine l = true) :
    pairsOf lines = [] := by
  refine List.filterMap_eq_nil_iff.2 fun l hl => ?_
  rw [ofLine_comment (h l hl)]
  rfl

end ReadLine

/-! ## Writing and reading a sound store -/

theorem WrittenProperty.IsSound.standsAlone {w : WrittenProperty} (hw : w.IsSound) (ascii : Bool) :
    ReadLine.StandsAlone (w.line ascii) := by
  by_cases hcomment : isCommentLine (w.line ascii) = true
  · exact .inl hcomment
  · obtain ⟨k, s, v, hline, -⟩ := exists_isPropertyLine hw (Bool.not_eq_true _ ▸ hcomment)
    exact .inr ⟨k, s, v, hline⟩

/-- What is read from the line of a value. -/
def WrittenProperty.readBack (ascii : Bool) (w : WrittenProperty) : Option (Text × Text) :=
  (ReadLine.ofLine (w.line ascii)).pair?

/-- **What is read from a line**: what was written on it, if it is
faithful; nothing, or a longer key, if not. -/
theorem WrittenProperty.readBack_spec {ascii : Bool} {w : WrittenProperty} (hw : w.IsSound) :
    (w.IsFaithful ascii → w.readBack ascii = some w.pair) ∧
      (¬ w.IsFaithful ascii → w.readBack ascii = none ∨
        ∃ p, w.readBack ascii = some p ∧ w.pair.1.length < p.1.length) := by
  unfold readBack
  by_cases hcomment : isCommentLine (w.line ascii) = true
  · rw [ReadLine.ofLine_comment hcomment]
    exact ⟨fun h => absurd (hcomment.symm.trans h.2) nofun, fun _ => .inl rfl⟩
  · obtain ⟨k, s, v, hline, hfaithful, hbroken⟩ :=
      exists_isPropertyLine hw (Bool.not_eq_true _ ▸ hcomment)
    rw [ReadLine.ofLine_property hline]
    exact ⟨fun h => congrArg some (hfaithful h), fun h => .inr ⟨(k, v), rfl, hbroken h⟩⟩

namespace Store

/-- **The values of a store with what is written on their lines**, in the
order of writing. -/
def written (st : Store) : List WrittenProperty :=
  st.layout.entries.entries.flatMap fun x =>
    (st.values.list x.1).map fun v => ⟨x.1, x.2.separator, v⟩

variable {st : Store}

/-- The lines of the first of some keys, and of the others. -/
theorem flatMap_segmentsFrom_cons {l : Layout} {style : WriteStyle}
    (hstyle : style.delimiter = none) (hglobal : l.globalSeparator = none) (values : Values)
    (leading : Bool) (x : Text × Entry) (rest : List (Text × Entry)) :
    ∃ comments, (∀ c ∈ comments, c = [] ∨ c ∈ Layout.commentLines x.2.comment) ∧
      (l.segmentsFrom style values leading (x :: rest)).flatMap Layout.Segment.lines
        = comments ++ ((values.list x.1).map fun v =>
            (WrittenProperty.mk x.1 x.2.separator v).line style.ascii) ++
          (l.segmentsFrom style values false rest).flatMap Layout.Segment.lines := by
  obtain ⟨key, e⟩ := x
  rw [Layout.segmentsFrom]
  dsimp only
  cases hget : values.get? key with
  | none =>
    refine ⟨[], fun c hc => absurd hc List.not_mem_nil, ?_⟩
    rw [Values.list, hget]
    rfl
  | some vs =>
    refine ⟨List.replicate (if leading && e.blankLines == 0 then 1 else e.blankLines) []
      ++ Layout.commentLines e.comment, fun c hc => ?_, ?_⟩
    · obtain hc | hc := List.mem_append.1 hc
      · exact .inl (List.eq_of_mem_replicate hc)
      · exact .inr hc
    · rw [List.flatMap_cons, Layout.lines_segment hstyle hglobal, Values.list, hget]
      rfl

/-- A line of the segments of some keys is blank, a line of a comment, or
the line of a value. -/
theorem mem_segmentsFrom {l : Layout} {style : WriteStyle} (hstyle : style.delimiter = none)
    (hglobal : l.globalSeparator = none) {values : Values} {es : List (Text × Entry)}
    {leading : Bool} {line : Text}
    (h : line ∈ (l.segmentsFrom style values leading es).flatMap Layout.Segment.lines) :
    line = [] ∨ (∃ x ∈ es, line ∈ Layout.commentLines x.2.comment) ∨
      ∃ x ∈ es, ∃ v ∈ values.list x.1,
        line = (WrittenProperty.mk x.1 x.2.separator v).line style.ascii := by
  induction es generalizing leading with
  | nil => exact absurd h List.not_mem_nil
  | cons x rest ih =>
    obtain ⟨comments, hcomments, hlines⟩ :=
      flatMap_segmentsFrom_cons hstyle hglobal values leading x rest
    rw [hlines] at h
    obtain h | h := List.mem_append.1 h
    · obtain h | h := List.mem_append.1 h
      · exact (hcomments line h).imp_right fun h => .inl ⟨x, List.mem_cons_self, h⟩
      · obtain ⟨v, hv, rfl⟩ := List.mem_map.1 h
        exact .inr (.inr ⟨x, List.mem_cons_self, v, hv, rfl⟩)
    · obtain h | ⟨y, hy, h⟩ | ⟨y, hy, h⟩ := ih h
      · exact .inl h
      · exact .inr (.inl ⟨y, List.mem_cons_of_mem x hy, h⟩)
      · exact .inr (.inr ⟨y, List.mem_cons_of_mem x hy, h⟩)

/-- The pairs on the lines of the segments are those on the lines of the
values. -/
theorem pairsOf_segmentsFrom {l : Layout} {style : WriteStyle} (hstyle : style.delimiter = none)
    (hglobal : l.globalSeparator = none) (values : Values) (es : List (Text × Entry))
    (leading : Bool) :
    ReadLine.pairsOf ((l.segmentsFrom style values leading es).flatMap Layout.Segment.lines)
      = (es.flatMap fun x => (values.list x.1).map fun v =>
          WrittenProperty.mk x.1 x.2.separator v).filterMap
            (WrittenProperty.readBack style.ascii) := by
  induction es generalizing leading with
  | nil => rfl
  | cons x rest ih =>
    obtain ⟨comments, hcomments, hlines⟩ :=
      flatMap_segmentsFrom_cons hstyle hglobal values leading x rest
    have hnone : ReadLine.pairsOf comments = [] := by
      refine ReadLine.pairsOf_comments fun c hc => ?_
      obtain rfl | hc := hcomments c hc
      · rfl
      · exact Layout.isCommentLine_of_mem_commentLines hc
    rw [hlines, ReadLine.pairsOf_append, ReadLine.pairsOf_append, hnone, List.nil_append, ih,
      List.flatMap_cons, List.filterMap_append, ReadLine.pairsOf, List.filterMap_map,
      List.filterMap_map]
    rfl

namespace IsSound

/-- The lines of values of a sound store. -/
theorem isSound_written (h : st.IsSound) : ∀ w ∈ st.written, w.IsSound := by
  intro w hw
  obtain ⟨x, hx, hw⟩ := List.mem_flatMap.1 hw
  obtain ⟨v, -, rfl⟩ := List.mem_map.1 hw
  have hentry := h.entries x.1 x.2 (OrderedMap.get?_eq_some_iff.2 hx)
  exact ⟨hentry.separator, hentry.keyless⟩

/-- Every line of the file is a line and stands for itself. -/
theorem standsAlone_lines (h : st.IsSound) : ∀ line ∈ st.layout.lines st.style st.values,
    IsLine line ∧ ReadLine.StandsAlone line := by
  -- header, comments and footer are blocks of comment lines
  have hblock : ∀ block : Option Text, (∀ t ∈ block, '\r' ∉ t) →
      ∀ line ∈ Layout.commentLines block, IsLine line ∧ ReadLine.StandsAlone line :=
    fun block hb line hline => ⟨Layout.isLine_of_mem_commentLines hb hline,
      .inl (Layout.isCommentLine_of_mem_commentLines hline)⟩
  intro line hline
  obtain hline | hline := List.mem_append.1 hline
  · obtain hline | hline := List.mem_append.1 hline
    · exact hblock _ h.header line hline
    · rcases mem_segmentsFrom h.plain.delimiter h.globalSeparator hline with
        rfl | ⟨x, hx, hmem⟩ | ⟨x, hx, v, hv, rfl⟩
      · exact ⟨isLine_nil, .inl rfl⟩
      · exact hblock _ (h.entries x.1 x.2 (OrderedMap.get?_eq_some_iff.2 hx)).comment line hmem
      · have hw : WrittenProperty.IsSound ⟨x.1, x.2.separator, v⟩ :=
          h.isSound_written _ (List.mem_flatMap.2 ⟨x, hx, List.mem_map_of_mem hv⟩)
        exact ⟨isLine_propertyLine _ _ _ hw.separator, hw.standsAlone _⟩
  · exact hblock _ h.footer line hline

/-- The pairs on the lines of the file. -/
theorem pairsOf_lines (h : st.IsSound) :
    ReadLine.pairsOf (st.layout.lines st.style st.values)
      = st.written.filterMap (WrittenProperty.readBack st.options.escapeUnicode) := by
  have hcomments : ∀ block, ReadLine.pairsOf (Layout.commentLines block) = [] := fun block =>
    ReadLine.pairsOf_comments fun _ hc => Layout.isCommentLine_of_mem_commentLines hc
  rw [Layout.lines, ReadLine.pairsOf_append, ReadLine.pairsOf_append, hcomments, hcomments,
    List.nil_append, List.append_nil]
  exact pairsOf_segmentsFrom h.plain.delimiter h.globalSeparator _ _ _

/-- **A sound store can be read again**, and its values are then those
that are read from its lines. -/
theorem exists_reread (h : st.IsSound) {o : StoreOptions} (ho : o.IsPlain) (keep : Bool)
    (src : Sources) (source : Option Text) :
    ∃ st', (fresh o keep).read src source st.toText = (.ok (), st', []) ∧
      st'.values = Values.addPairs .empty
        (st.written.filterMap (WrittenProperty.readBack st.options.escapeUnicode)) := by
  obtain ⟨b, hb⟩ := h.lineBreak
  have hlines := h.standsAlone_lines
  obtain ⟨blank, hblank, hsplit⟩ := lines_ofText_textOfLines b st.layout.finalNewline
    fun line hline => (hlines line hline).1
  have htext : st.toText
      = textOfLines b.chars st.layout.finalNewline (st.layout.lines st.style st.values) := by
    rw [toText, Layout.save, hb]
  rw [← htext] at hsplit
  -- a store without lines is still read as one line, which is blank
  have halone : ∀ line ∈ (ofText st.toText).lines, ReadLine.StandsAlone line :=
    fun line hline => (hlines line (hsplit ▸ List.mem_append_left blank hline)).2
  have hpairs : ReadLine.pairsOf (ofText st.toText).lines
      = st.written.filterMap (WrittenProperty.readBack st.options.escapeUnicode) := by
    have hnone : ReadLine.pairsOf blank = [] := by
      obtain rfl | rfl := hblank
      · rfl
      · rfl
    rw [← h.pairsOf_lines, ← hsplit, ReadLine.pairsOf_append, hnone, List.append_nil]
  have hreads : ∀ l ∈ (ofText st.toText).lines.map ReadLine.ofLine, l.Reads := by
    intro l hl
    obtain ⟨line, hline, rfl⟩ := List.mem_map.1 hl
    exact (ReadLine.reads_ofLine (halone line hline)).1
  have htexts : ((ofText st.toText).lines.map ReadLine.ofLine).map ReadLine.text
      = (ofText st.toText).lines := by
    rw [List.map_map]
    refine (List.map_congr_left fun line hline => ?_).trans (List.map_id _)
    exact (ReadLine.reads_ofLine (halone line hline)).2
  have hreading := ReadLine.run_readLines hreads 1 []
  rw [htexts] at hreading
  refine ⟨_, read_fresh ho keep src source hreading, ?_⟩
  refine congrArg (Values.addPairs .empty) ?_
  refine (ReadLine.pairs_properties _ _ _).trans ?_
  rw [← hpairs, List.filterMap_map]
  rfl

end IsSound

end Store

/-! ## The count -/

/-- Texts that are at least as long as those of another list, and as long
all together, are as long one by one. -/
theorem length_eq_of_flatMap {ι α : Type} {l : List ι} {a b : ι → List α}
    (hle : ∀ i ∈ l, (a i).length ≤ (b i).length)
    (hsum : (l.flatMap b).length = (l.flatMap a).length) :
    ∀ i ∈ l, (b i).length = (a i).length := by
  have hbound : ∀ l : List ι, (∀ i ∈ l, (a i).length ≤ (b i).length) →
      (l.flatMap a).length ≤ (l.flatMap b).length := by
    intro l hle
    induction l with
    | nil => exact Nat.le_refl 0
    | cons i rest ih =>
      obtain ⟨hi, hrest⟩ := List.forall_mem_cons.1 hle
      rw [List.flatMap_cons, List.flatMap_cons, List.length_append, List.length_append]
      exact Nat.add_le_add hi (ih hrest)
  induction l with
  | nil => exact fun i hi => absurd hi List.not_mem_nil
  | cons i rest ih =>
    obtain ⟨hi, hrest⟩ := List.forall_mem_cons.1 hle
    have hlater := hbound rest hrest
    rw [List.flatMap_cons, List.flatMap_cons, List.length_append, List.length_append] at hsum
    exact List.forall_mem_cons.2 ⟨by omega, ih hrest (by omega)⟩

/-- Lists of pairs that have the same values for every key are
permutations of each other. -/
theorem perm_of_values_eq {ps qs : List (Text × Text)}
    (h : ∀ k, (ps.filter fun p => p.1 = k).map Prod.snd
      = (qs.filter fun p => p.1 = k).map Prod.snd) :
    ps.Perm qs := by
  have hcount : ∀ (k v : Text) (l : List (Text × Text)),
      l.count (k, v) = ((l.filter fun p => p.1 = k).map Prod.snd).count v := by
    intro k v l
    induction l with
    | nil => rfl
    | cons p rest ih =>
      obtain ⟨k', v'⟩ := p
      by_cases hk : k' = k
      · rw [List.filter_cons_of_pos (by simp [hk]), List.map_cons, List.count_cons,
          List.count_cons, ih, hk]
        simp
      · rw [List.filter_cons_of_neg (by simp [hk]), List.count_cons, ih]
        simp [hk]
  refine List.perm_iff_count.2 fun p => ?_
  rw [hcount p.1 p.2, hcount p.1 p.2, h p.1]

/-- **No two faults make up for each other.** If what is read from some
lines is a permutation of what was written on them, then from each line
is read what was written on it. -/
theorem forall_eq_some_of_perm {ι : Type} {l : List ι} {f : ι → Option (Text × Text)}
    {g : ι → Text × Text}
    (hf : ∀ i ∈ l, f i = some (g i) ∨ f i = none ∨
      ∃ p, f i = some p ∧ (g i).1.length < p.1.length)
    (hperm : (l.filterMap f).Perm (l.map g)) : ∀ i ∈ l, f i = some (g i) := by
  have hsome : ∀ i ∈ l, (f i).isSome = true :=
    List.filterMap_length_eq_length.1 (hperm.length_eq.trans (List.length_map g))
  have hread : l.filterMap f = l.map fun i => (f i).getD (g i) := by
    rw [← List.filterMap_eq_map]
    refine List.filterMap_congr fun i hi => ?_
    obtain ⟨p, hp⟩ := Option.isSome_iff_exists.1 (hsome i hi)
    rw [Function.comp_apply, hp, Option.getD_some]
  -- no key is shorter than it was, and together they are as long
  have hsum : (l.flatMap fun i => ((f i).getD (g i)).1).length
      = (l.flatMap fun i => (g i).1).length := by
    have hlengths := (hperm.flatMap_right Prod.fst).length_eq
    rw [hread, List.flatMap_map, List.flatMap_map] at hlengths
    exact hlengths
  have hle : ∀ i ∈ l, (g i).1.length ≤ ((f i).getD (g i)).1.length := by
    intro i hi
    obtain h | h | ⟨p, h, hlt⟩ := hf i hi
    · rw [h]
      exact Nat.le_refl _
    · rw [h]
      exact Nat.le_refl _
    · rw [h]
      exact Nat.le_of_lt hlt
  intro i hi
  obtain h | h | ⟨p, h, hlt⟩ := hf i hi
  · exact h
  · exact absurd (hsome i hi) (by simp [h])
  · have heq := length_eq_of_flatMap hle hsum i hi
    rw [h, Option.getD_some] at heq
    exact absurd heq (Nat.ne_of_gt hlt)

/-! ## When a store is read as it was -/

namespace Store.IsSound

variable {st : Store}

/-- The values that stand beside a key among the values of several. -/
theorem map_snd_filter_flatMap {values : Values} {es : List (Text × Entry)}
    (hkeys : (es.map Prod.fst).Nodup) (k : Text) :
    ((es.flatMap fun x => (values.list x.1).map fun v => (x.1, v)).filter
        fun p => p.1 = k).map Prod.snd
      = if k ∈ es.map Prod.fst then values.list k else [] := by
  induction es with
  | nil => rfl
  | cons x rest ih =>
    obtain ⟨hnew, hrest⟩ := List.nodup_cons.1 hkeys
    rw [List.flatMap_cons, List.filter_append, List.map_append, ih hrest]
    by_cases hk : x.1 = k
    · subst hk
      have hall : ((values.list x.1).map fun v => (x.1, v)).filter (fun p => p.1 = x.1)
          = (values.list x.1).map fun v => (x.1, v) :=
        List.filter_eq_self.2 fun p hp => by
          obtain ⟨v, -, rfl⟩ := List.mem_map.1 hp
          exact decide_eq_true rfl
      have hmem : x.1 ∈ (x :: rest).map Prod.fst := List.mem_cons_self
      rw [hall, if_neg hnew, if_pos hmem, List.append_nil, List.map_map]
      exact List.map_id _
    · have hnone : ((values.list x.1).map fun v => (x.1, v)).filter (fun p => p.1 = k) = [] :=
        List.filter_eq_nil_iff.2 fun p hp => by
          obtain ⟨v, -, rfl⟩ := List.mem_map.1 hp
          simpa using hk
      have hmem : k ∈ (x :: rest).map Prod.fst ↔ k ∈ rest.map Prod.fst :=
        List.mem_cons.trans (or_iff_right (Ne.symm hk))
      rw [hnone, List.map_nil, List.nil_append]
      exact if_congr hmem.symm rfl rfl

/-- What is written for a key are its values. -/
theorem values_written (h : st.IsSound) (k : Text) :
    ((st.written.map WrittenProperty.pair).filter fun p => p.1 = k).map Prod.snd
      = st.values.list k := by
  have hpairs : st.written.map WrittenProperty.pair
      = st.layout.entries.entries.flatMap fun x => (st.values.list x.1).map fun v => (x.1, v) := by
    rw [written, List.map_flatMap]
    refine congrArg (fun f => st.layout.entries.entries.flatMap f) (funext fun x => ?_)
    rw [List.map_map]
    rfl
  rw [hpairs, map_snd_filter_flatMap st.layout.entries.nodup]
  split
  · rfl
  · next hk =>
    have hget : st.values.get? k = none :=
      OrderedMap.get?_eq_none_iff.2 fun hmem => hk ((h.keys k).2 hmem)
    rw [Values.list, hget]
    rfl

theorem get?_eq_content (h : st.IsSound) (k : Text) :
    st.values.get? k = Values.content (st.values.list k) := by
  rw [Values.list]
  cases hget : st.values.get? k with
  | none => rfl
  | some vs =>
    obtain ⟨v, vs, rfl⟩ := List.exists_cons_of_ne_nil (h.values k vs hget)
    rfl

/-- **When the lines of a store are read as they were written**: if and
only if they are all faithful. -/
theorem get?_eq_iff (h : st.IsSound) :
    (∀ k, (Values.addPairs .empty
        (st.written.filterMap (WrittenProperty.readBack st.options.escapeUnicode))).get? k
          = st.values.get? k)
      ↔ ∀ w ∈ st.written, w.IsFaithful st.options.escapeUnicode := by
  constructor
  · intro heq
    -- equal values for every key leave a permutation of the written pairs
    have hperm : (st.written.filterMap
        (WrittenProperty.readBack st.options.escapeUnicode)).Perm
          (st.written.map WrittenProperty.pair) := by
      refine perm_of_values_eq fun k => ?_
      have hk := heq k
      rw [Values.get?_addPairs, h.get?_eq_content k] at hk
      rw [Values.content_injective hk, h.values_written]
    have hread := forall_eq_some_of_perm (fun w hw => ?_) hperm
    · intro w hw
      by_contra hbroken
      rcases (WrittenProperty.readBack_spec (h.isSound_written w hw)).2 hbroken with
        hnone | ⟨p, hp, hlt⟩
      · exact absurd ((hread w hw).symm.trans hnone) nofun
      · rw [Option.some.inj (hp.symm.trans (hread w hw))] at hlt
        exact absurd hlt (Nat.lt_irrefl _)
    · have hspec := @WrittenProperty.readBack_spec st.options.escapeUnicode w
        (h.isSound_written w hw)
      by_cases hfaithful : w.IsFaithful st.options.escapeUnicode
      · exact .inl (hspec.1 hfaithful)
      · exact .inr (hspec.2 hfaithful)
  · intro hfaithful k
    have hpairs : st.written.filterMap (WrittenProperty.readBack st.options.escapeUnicode)
        = st.written.map WrittenProperty.pair := by
      rw [← List.filterMap_eq_map]
      exact List.filterMap_congr fun w hw =>
        (WrittenProperty.readBack_spec (h.isSound_written w hw)).1 (hfaithful w hw)
    rw [Values.get?_addPairs, hpairs, h.values_written, h.get?_eq_content]

end Store.IsSound

/-- Edits leave the settings of a store as they are. -/
theorem Store.options_edit (st : Store) (edits : List KeyEdit) :
    (st.edit edits).options = st.options := by
  induction edits generalizing st with
  | nil => rfl
  | cons e rest ih => exact ih (st.mutate e.mutation)

/-- **An edited store read again.** Let a text be read without an error
into a fresh plain store, and let keys be set, added to and removed in
any number. Then the text of the store can be read again without an
error, and the two stores have the same keys with the same values if and
only if the line of every value is faithful: if it is not taken for a
comment, and if something parts its value, where it is not empty, from
its key. -/
theorem reread_iff {o : StoreOptions} (ho : o.IsPlain) {src : Sources} {source : Option Text}
    {t : Text} {st : Store} {notices : List Notice}
    (hread : (Store.fresh o true).read src source t = (.ok (), st, notices)) (edits : List KeyEdit)
    (src' : Sources) (source' : Option Text) :
    ∃ st', (Store.fresh o true).read src' source' (st.edit edits).toText = (.ok (), st', []) ∧
      ((∀ k, st'.values.get? k = (st.edit edits).values.get? k)
        ↔ ∀ w ∈ (st.edit edits).written, w.IsFaithful o.escapeUnicode) := by
  obtain ⟨properties, trailing, hreading⟩ := Store.complete_of_read_ok ho (congrArg Prod.fst hread)
  have hloaded := (Store.read_fresh ho true src source hreading).symm.trans hread
  have hst : Store.loaded o true (ofText t) properties trailing = st :=
    congrArg (fun r => r.2.1) hloaded
  have hsound : (st.edit edits).IsSound := (hst ▸ Store.isSound_loaded ho true hreading).edit edits
  have hoptions : (st.edit edits).options = o := by
    rw [Store.options_edit, ← hst]
    rfl
  obtain ⟨st', hreread, hvalues⟩ := hsound.exists_reread ho true src' source'
  refine ⟨st', hreread, ?_⟩
  have hiff := hsound.get?_eq_iff
  rw [← hvalues, hoptions] at hiff
  exact hiff

/-- The store loaded from a text with one property line. -/
def Store.debug : Store :=
  Store.loaded { includeKey := none, includeOptionalKey := none } true (ofText "k = 1".toList)
    [⟨"k".toList, "1".toList, " = ".toList, [], 1⟩] []

/-- A value set to one that has to be escaped, another one added and a key
that is not there removed. -/
theorem reread_iff_debug :
    ∃ st', (Store.fresh { includeKey := none, includeOptionalKey := none } true).read
        (Sources.inMemory [] []) none
        (Store.debug.edit [.set "k".toList " #2".toList, .add "k".toList [], .remove "x".toList]).toText
        = (.ok (), st', []) ∧
      ((∀ k, st'.values.get? k = (Store.debug.edit
          [.set "k".toList " #2".toList, .add "k".toList [], .remove "x".toList]).values.get? k)
        ↔ ∀ w ∈ (Store.debug.edit
          [.set "k".toList " #2".toList, .add "k".toList [], .remove "x".toList]).written,
            w.IsFaithful false) :=
  reread_iff (o := { includeKey := none, includeOptionalKey := none }) ⟨rfl, rfl, rfl⟩
    (Store.read_fresh ⟨rfl, rfl, rfl⟩ true (Sources.inMemory [] []) none rfl)
    [.set "k".toList " #2".toList, .add "k".toList [], .remove "x".toList]
    (Sources.inMemory [] []) none

/-- **A value without a separator is lost**: the key of the text has none,
and the value that is set is written directly behind it. -/
theorem not_reread_unseparated :
    ∃ st, (Store.fresh { includeKey := none, includeOptionalKey := none } true).read
        (Sources.inMemory [] []) none ['k'] = (.ok (), st, []) ∧
      ¬ ∃ st', (Store.fresh { includeKey := none, includeOptionalKey := none } true).read
          (Sources.inMemory [] []) none (st.edit [.set ['k'] ['v']]).toText = (.ok (), st', []) ∧
        ∀ k, st'.values.get? k = (st.edit [.set ['k'] ['v']]).values.get? k := by
  have hfirst : Reading.ofLines [] (ofText ['k']).lines
      = ⟨[⟨['k'], [], [], [], 1⟩], .complete []⟩ := rfl
  have hsecond : Reading.ofLines [] (ofText ['k', 'v']).lines
      = ⟨[⟨['k', 'v'], [], [], [], 1⟩], .complete []⟩ := rfl
  have hplain : StoreOptions.IsPlain { includeKey := none, includeOptionalKey := none } :=
    ⟨rfl, rfl, rfl⟩
  refine ⟨_, Store.read_fresh hplain true (Sources.inMemory [] []) none hfirst, ?_⟩
  rintro ⟨st', hread, hvalues⟩
  have hreread := Store.read_fresh hplain true (Sources.inMemory [] []) none hsecond
  obtain rfl : Store.loaded _ true (ofText ['k', 'v']) [⟨['k', 'v'], [], [], [], 1⟩] [] = st' :=
    congrArg (fun r => r.2.1) (hreread.symm.trans hread)
  exact absurd (hvalues ['k']) (by decide)

end PropertyFile
