import PropertyFile.Proofs.Content
import PropertyFile.Proofs.InStep
import PropertyFile.Proofs.Writing

/-!
# Comments and the values of a file

A comment is written with a mark before each of its lines, so that no text
that is set as a comment becomes a property. Its lines are cut at line
feeds only, though, and reading also cuts at carriage returns. Whether a
comment is **contained** (`Comment.IsContained`) can be told by its text:
by what reading finds on the lines it is written on.

Comments that are contained do nothing to the values of a file
(`Store.commentsAreInert`): a store is read as if its comments had not
been written, whatever its keys, values and list delimiter are. All that
is asked of its layout is that separators have no backslash, for such a
separator may ask for a further line. Comments that are not contained
change the values of some store (`Store.commentsAreInert_iff`).
-/

namespace PropertyFile

open Text PhysicalLines

/-! ## Paired texts -/

/-- A **paired** text: every backslash has its character behind it, on the
same line. -/
inductive IsPaired : Text → Prop
  | nil : IsPaired []
  | plain {c : Char} {rest : Text} : c ≠ escapeMark → IsPaired rest → IsPaired (c :: rest)
  | pair {e : Char} {rest : Text} : isBreak e = false → IsPaired rest →
      IsPaired (escapeMark :: e :: rest)

theorem isBreak_eq_false {c : Char} : isBreak c = false ↔ c ≠ '\n' ∧ c ≠ '\r' := by
  simp [isBreak]

namespace IsPaired

theorem append {t u : Text} (ht : IsPaired t) (hu : IsPaired u) : IsPaired (t ++ u) := by
  induction ht with
  | nil => exact hu
  | plain hc _ ih => exact .plain hc ih
  | pair he _ ih => exact .pair he ih

theorem of_not_mem {t : Text} (h : escapeMark ∉ t) : IsPaired t := by
  induction t with
  | nil => exact .nil
  | cons c t ih =>
    exact .plain (List.ne_of_not_mem_cons h).symm (ih (List.not_mem_of_not_mem_cons h))

/-- Escaped lines are paired. -/
theorem of_isEscaped {t : Text} (h : IsEscaped t) (hline : IsLine t) : IsPaired t := by
  induction h with
  | nil => exact .nil
  | plain hc _ ih => exact .plain hc (ih (isLine_cons.1 hline).2)
  | escape _ _ ih =>
    obtain ⟨-, hline⟩ := isLine_cons.1 hline
    obtain ⟨he, hrest⟩ := isLine_cons.1 hline
    exact .pair (isBreak_eq_false.2 he) (ih hrest)
  | @numeric a b c d code rest hd _ ih =>
    have hdigit := fun x hx => (isOrdinary_of_fourDigits? hd x hx).1
    have hrest : IsLine rest := fun x hx => hline x (by simp [hx])
    exact .pair rfl (.plain (hdigit a (by simp)) (.plain (hdigit b (by simp))
      (.plain (hdigit c (by simp)) (.plain (hdigit d (by simp)) (ih hrest)))))

/-- Putting backslashes before a character leaves a line paired. -/
theorem replace {d : Char} (hd : d ≠ escapeMark) {t : Text} (h : IsPaired t) (hline : IsLine t) :
    IsPaired (Text.replace d [escapeMark, d] t) := by
  unfold Text.replace
  induction h with
  | nil => exact .nil
  | @plain c rest hc _ ih =>
    obtain ⟨hbreak, hrest⟩ := isLine_cons.1 hline
    rw [List.flatMap_cons]
    split
    · next heq => exact .pair (heq ▸ isBreak_eq_false.2 hbreak) (ih hrest)
    · exact .plain hc (ih hrest)
  | @pair e rest he _ ih =>
    obtain ⟨-, hline⟩ := isLine_cons.1 hline
    have hrest := ih (isLine_cons.1 hline).2
    rw [List.flatMap_cons, if_neg (Ne.symm hd), List.flatMap_cons]
    split
    · -- the old backslash takes the new one for its character
      next heq => exact .pair rfl (.plain (heq ▸ hd) hrest)
    · exact .pair he hrest

theorem joinWith {d : Char} (hd : d ≠ escapeMark) {ts : List Text} (h : ∀ t ∈ ts, IsPaired t) :
    IsPaired (Text.joinWith [d] ts) := by
  induction ts with
  | nil => exact .nil
  | cons t us ih =>
    obtain ⟨ht, hus⟩ := List.forall_mem_cons.1 h
    cases us with
    | nil => exact ht
    | cons u us => exact (ht.append (.plain hd .nil)).append (ih hus)

/-- The lines of a paired text are paired. -/
theorem of_mem_splitOnP {t : Text} (h : IsPaired t) : ∀ u ∈ t.splitOnP isBreak, IsPaired u := by
  -- a character that is no break comes to the first of the lines behind it
  have hhead : ∀ {ts : List Text} {first : Text}, IsPaired first →
      (∀ u ∈ ts, IsPaired u) → ∀ u ∈ first :: ts.tail, IsPaired u := fun hfirst hts =>
    List.forall_mem_cons.2 ⟨hfirst, fun u hu => hts u (List.mem_of_mem_tail hu)⟩
  induction h with
  | nil => exact List.forall_mem_singleton.2 .nil
  | @plain c rest hc _ ih =>
    obtain ⟨first, later, hsplit⟩ :=
      List.exists_cons_of_ne_nil (List.splitOnP_ne_nil isBreak rest)
    rw [List.splitOnP_cons_eq_if_modifyHead]
    split
    · exact List.forall_mem_cons.2 ⟨.nil, ih⟩
    · rw [hsplit] at ih ⊢
      exact hhead (.plain hc (ih first List.mem_cons_self)) ih
  | @pair e rest he _ ih =>
    obtain ⟨first, later, hsplit⟩ :=
      List.exists_cons_of_ne_nil (List.splitOnP_ne_nil isBreak rest)
    rw [List.splitOnP_cons_eq_if_modifyHead, if_neg (by decide),
      List.splitOnP_cons_eq_if_modifyHead, if_neg (by simp [he]), hsplit, List.modifyHead_cons,
      List.modifyHead_cons]
    rw [hsplit] at ih
    exact hhead (.pair he (ih first List.mem_cons_self)) ih

/-- **A paired text announces no further line.** -/
theorem endsWithContinuation {t : Text} (h : IsPaired t) :
    PropertyFile.endsWithContinuation t = false := by
  induction h with
  | nil => rfl
  | plain hc _ ih => rw [endsWithContinuation_cons hc, ih]
  | pair _ _ ih => rw [endsWithContinuation_escape, ih]

end IsPaired

/-! ## Value lines -/

/-- What is written for the value of a key is paired, with its delimiters
protected. -/
theorem isPaired_protect (d : Option ListDelimiter) (ascii : Bool) (separator v : Text) :
    IsPaired (ListDelimiter.protect d (Escape.value ascii separator v)) := by
  have hline := Escape.isLine_value ascii separator v
  have hvalue := IsPaired.of_isEscaped (Escape.isEscaped_value ascii separator v) hline
  cases d with
  | none => exact hvalue
  | some d => exact hvalue.replace d.ne_escape hline

/-- **The lines of a property are paired**, whatever the list delimiter
is, if its separator has no backslash. -/
theorem isPaired_propertyLines (style : WriteStyle) {separator : Text}
    (hs : escapeMark ∉ separator) (key : Text) (values : List Text) (singleLine : Bool) :
    ∀ line ∈ propertyLines style separator key values singleLine, IsPaired line := by
  have hstart : IsPaired (Escape.key style.ascii key ++ separator) :=
    (IsPaired.of_isEscaped (Escape.isEscaped_key _ key) (Escape.isLine_key _ key)).append
      (.of_not_mem hs)
  have hprotect := isPaired_protect style.delimiter style.ascii separator
  have hseparate : ∀ line ∈ (values.map (Escape.value style.ascii separator)).map fun value =>
      propertyLine style.ascii key separator (ListDelimiter.protect style.delimiter value),
      IsPaired line := by
    rw [List.map_map]
    exact List.forall_mem_map.2 fun v _ => hstart.append (hprotect v)
  unfold propertyLines
  dsimp only
  split
  · exact fun line hline => absurd hline List.not_mem_nil
  split
  · split
    · next joined hjoined =>
      refine List.forall_mem_singleton.2 (hstart.append ?_)
      unfold ListDelimiter.join at hjoined
      split at hjoined
      · -- without a delimiter only a single value is joined
        split at hjoined
        · next value hvalue =>
          obtain rfl := Option.some.inj hjoined
          obtain ⟨v, -, hv⟩ := List.mem_map.1 (hvalue ▸ List.mem_singleton_self value)
          exact hv ▸ .of_isEscaped (Escape.isEscaped_value _ _ v) (Escape.isLine_value _ _ v)
        · exact absurd hjoined nofun
      · next d hd =>
        obtain rfl := Option.some.inj hjoined
        refine .joinWith d.ne_escape (List.forall_mem_map.2 (List.forall_mem_map.2 fun v _ => ?_))
        rw [← hd]
        exact hprotect v
    · exact hseparate
  · exact hseparate

/-! ## The content of a written file -/

/-- **A contained comment**: it is written on comment lines only. -/
def Comment.IsContained (c : Text) : Prop :=
  ∀ line ∈ (ofText (Comment.canonical true c)).lines, isCommentLine line = true

instance (c : Text) : Decidable (Comment.IsContained c) :=
  inferInstanceAs (Decidable (∀ line ∈ _, _))

namespace Layout

/-- The comments that a layout holds. -/
def comments (l : Layout) : List Text :=
  l.header.toList ++ l.entries.entries.filterMap (fun x => x.2.comment) ++ l.footer.toList

/-- **The layout without its comments**: no header, no footer, and no
comment before a key. -/
def uncommented (l : Layout) : Layout :=
  { l with
    entries := ⟨l.entries.entries.map fun x => (x.1, { x.2 with comment := none }), by
      rw [List.map_map]
      exact l.entries.nodup⟩
    header := none
    footer := none }

/-- The lines of the values of some keys. -/
def valueLines (l : Layout) (style : WriteStyle) (values : OrderedMap (List Text))
    (es : List (Text × Entry)) : List Text :=
  es.flatMap fun x =>
    match values.get? x.1 with
    | none => []
    | some vs => propertyLines style (l.globalSeparator.getD x.2.separator) x.1 vs
        (l.forceSingleLine || x.2.singleLine)

/-- Comments are contained if and only if the lines they are written on
have no content. -/
theorem flatMap_content_commentLines {c : Text} :
    (commentLines (some c)).flatMap content = [] ↔ Comment.IsContained c := by
  rw [Comment.IsContained, ← content_eq_nil_iff, Comment.canonical]
  exact Eq.congr_left (content_joinWith .lf _).symm

/-- **A comment without carriage returns is contained.** -/
theorem isContained_of_not_mem {c : Text} (h : '\r' ∉ c) : Comment.IsContained c := by
  refine flatMap_content_commentLines.1 (List.flatMap_eq_nil_iff.2 fun line hline => ?_)
  have hblock : ∀ t ∈ some c, '\r' ∉ t := fun t ht => Option.some.inj ht ▸ h
  have hbreak : ∀ d ∈ line, isBreak d = false := fun d hd =>
    isBreak_eq_false.2 (isLine_of_mem_commentLines hblock hline d hd)
  rw [content, List.splitOnP_eq_singleton hbreak,
    List.filter_cons_of_neg (by simp [isCommentLine_of_mem_commentLines hline])]
  rfl

/-- The content of segments is that of their value lines. -/
theorem flatMap_content_segmentsFrom {l : Layout} {style : WriteStyle}
    {values : OrderedMap (List Text)} {es : List (Text × Entry)}
    (h : ∀ x ∈ es, (commentLines x.2.comment).flatMap content = []) (leading : Bool) :
    ((l.segmentsFrom style values leading es).flatMap Segment.lines).flatMap content
      = (l.valueLines style values es).flatMap content := by
  induction es generalizing leading with
  | nil => rfl
  | cons x rest ih =>
    obtain ⟨key, e⟩ := x
    obtain ⟨hx, hrest⟩ := List.forall_mem_cons.1 h
    have hvalueLines : l.valueLines style values ((key, e) :: rest)
        = l.valueLines style values [(key, e)] ++ l.valueLines style values rest := by
      rw [valueLines, valueLines, valueLines, List.flatMap_cons, List.flatMap_singleton]
    rw [hvalueLines, List.flatMap_append, ← ih hrest false, segmentsFrom, valueLines,
      List.flatMap_singleton]
    cases values.get? key with
    | none => rfl
    | some vs =>
      have hblank : ∀ n, (List.replicate n ([] : Text)).flatMap content = [] := by
        intro n
        refine List.flatMap_eq_nil_iff.2 fun line hline => ?_
        rw [List.eq_of_mem_replicate hline]
        rfl
      dsimp only
      rw [List.flatMap_cons, List.flatMap_append, Segment.lines, List.flatMap_append,
        List.flatMap_append, hblank, segment, hx]
      rfl

end Layout

namespace Store

/-- The store without the comments of its layout. -/
def uncommented (st : Store) : Store := { st with layout := st.layout.uncommented }

/-- **The content of a written file** is that of its value lines, if its
comments are contained. -/
theorem content_toText {st : Store} {b : LineBreak} (hb : st.layout.lineSeparator = b.chars)
    (h : ∀ c ∈ st.layout.comments, Comment.IsContained c) :
    content st.toText = (st.layout.valueLines st.style st.values
      st.layout.entries.entries).flatMap content := by
  have hblock : ∀ block : Option Text, (∀ c ∈ block, c ∈ st.layout.comments) →
      (Layout.commentLines block).flatMap content = [] := by
    intro block hblock
    cases block with
    | none => rfl
    | some c => exact Layout.flatMap_content_commentLines.2 (h c (hblock c rfl))
  have hheader := hblock st.layout.header fun c hc =>
    List.mem_append_left _ (List.mem_append_left _ (Option.mem_toList.2 hc))
  have hfooter := hblock st.layout.footer fun c hc =>
    List.mem_append_right _ (Option.mem_toList.2 hc)
  have hentries : ∀ x ∈ st.layout.entries.entries,
      (Layout.commentLines x.2.comment).flatMap content = [] := fun x hx =>
    hblock x.2.comment fun c hc => List.mem_append_left _ (List.mem_append_right _
      (List.mem_filterMap.2 ⟨x, hx, hc⟩))
  rw [toText, Layout.save, hb, content_textOfLines, Layout.lines, List.flatMap_append,
    List.flatMap_append, hheader, hfooter, List.nil_append, List.append_nil, Layout.segments,
    Layout.flatMap_content_segmentsFrom hentries]

/-- Without comments the content is that of the same value lines. -/
theorem content_toText_uncommented {st : Store} {b : LineBreak}
    (hb : st.layout.lineSeparator = b.chars) :
    content st.uncommented.toText = (st.layout.valueLines st.style st.values
      st.layout.entries.entries).flatMap content := by
  have hnone : ∀ c ∈ st.uncommented.layout.comments, Comment.IsContained c := by
    have hcomments : st.uncommented.layout.comments = [] := by
      show [] ++ (st.layout.entries.entries.map fun x => (x.1, { x.2 with comment := none })).filterMap
        (fun x : Text × Entry => x.2.comment) ++ [] = []
      rw [List.filterMap_map]
      simp
    rw [hcomments]
    exact fun c hc => absurd hc List.not_mem_nil
  rw [@content_toText st.uncommented b hb hnone]
  refine congrArg (List.flatMap content) ?_
  show (st.layout.entries.entries.map fun x => (x.1, { x.2 with comment := none })).flatMap _ = _
  rw [List.flatMap_map]
  rfl

/-! ## Comments and values -/

/-- Whether no key is written with a backslash in its separator. -/
def HasPlainSeparators (st : Store) : Prop :=
  ∀ k ∈ st.layout.keys, escapeMark ∉ st.layout.separatorOf k

/-- **The comments of a store are inert**: if the file could be read
without them it can be read with them, with the same list delimiter and
without includes, and the keys and values are the same. -/
def CommentsAreInert (st : Store) : Prop :=
  ∀ (o : StoreOptions) (keep : Bool) (src : Sources) (source : Option Text) (st₀ : Store)
    (notices : List Notice), o.IsClosed → o.delimiter = st.options.delimiter →
    (fresh o keep).read src source st.uncommented.toText = (.ok (), st₀, notices) →
    ∃ st₁, (fresh o keep).read src source st.toText = (.ok (), st₁, []) ∧ st₁.values = st₀.values

/-- The value lines of a store announce no further line. -/
theorem HasPlainSeparators.ended {st : Store} (h : st.HasPlainSeparators) :
    ∀ line ∈ (st.layout.valueLines st.style st.values st.layout.entries.entries).flatMap content,
      endsWithContinuation (line.dropWhile isSpacing) = false := by
  intro line hline
  obtain ⟨written, hwritten, hline⟩ := List.mem_flatMap.1 hline
  obtain ⟨x, hx, hwritten⟩ := List.mem_flatMap.1 hwritten
  have hentry : st.layout.entry x.1 = x.2 := by
    rw [Layout.entry, Layout.entry?, OrderedMap.get?_eq_some_iff.2 hx]
    rfl
  have hs : escapeMark ∉ st.layout.globalSeparator.getD x.2.separator := by
    have hkey := h x.1 (List.mem_map_of_mem hx)
    rwa [Layout.separatorOf, hentry] at hkey
  have hpaired : IsPaired written := by
    split at hwritten
    · exact absurd hwritten List.not_mem_nil
    · exact isPaired_propertyLines st.style hs x.1 _ _ written hwritten
  rw [endsWithContinuation_dropWhile]
  exact (hpaired.of_mem_splitOnP line (List.mem_of_mem_filter hline)).endsWithContinuation

/-- **Contained comments are inert.** -/
theorem commentsAreInert {st : Store} {b : LineBreak} (hb : st.layout.lineSeparator = b.chars)
    (hs : st.HasPlainSeparators) (h : ∀ c ∈ st.layout.comments, Comment.IsContained c) :
    st.CommentsAreInert := by
  intro o keep src source st₀ notices ho _ hread
  have hplain := content_toText_uncommented hb
  refine exists_read_of_content_eq ho ((content_toText hb h).trans hplain.symm) ?_ hread
  rw [hplain]
  exact hs.ended

/-- Behind a backslash in a separator a comment becomes the value. -/
example : LogicalLine.cut none
    (propertyLines ⟨none, false⟩ " = \\".toList ['k'] [[]] true ++ ["# c".toList])
    = [.property ["k = \\".toList, "# c".toList] "k = # c".toList] := by
  decide

end Store

/-! ## Comments that are not contained -/

namespace LogicalLine

/-- A property that was begun is no comment. -/
theorem exists_ne_comment (b : Begun) (lines : List Text) :
    ∃ l ∈ cut (some b) lines, ∀ line, l ≠ comment line := by
  induction lines generalizing b with
  | nil => exact ⟨_, List.mem_singleton_self _, fun _ h => by cases h⟩
  | cons line rest ih =>
    rw [cut, if_neg (by simp)]
    dsimp only
    split
    · exact ih _
    · exact ⟨_, List.mem_cons_self, fun _ h => by cases h⟩

/-- Lines whose logical lines are all comments are comment lines. -/
theorem isCommentLine_of_cut {lines : List Text}
    (h : ∀ l ∈ cut none lines, ∃ line, l = comment line) :
    ∀ line ∈ lines, isCommentLine line = true := by
  induction lines with
  | nil => exact fun line hline => absurd hline List.not_mem_nil
  | cons line rest ih =>
    cases hcomment : isCommentLine line with
    | true =>
      rw [cut, if_pos (by simp [hcomment])] at h
      exact List.forall_mem_cons.2 ⟨hcomment, ih (List.forall_mem_cons.1 h).2⟩
    | false =>
      rw [cut, if_neg (by simp [hcomment])] at h
      dsimp only at h
      split at h
      · obtain ⟨l, hl, hne⟩ := exists_ne_comment ⟨_, _⟩ rest
        obtain ⟨c, rfl⟩ := h l hl
        exact absurd rfl (hne c)
      · obtain ⟨c, hc⟩ := h _ List.mem_cons_self
        cases hc

/-- Lines that can be read and hold no property are comment lines. -/
theorem isCommentLine_of_filterMap_bare? {kept : Text} {lines : List Text}
    (hreadable : ∀ l ∈ cut none lines, l.IsReadable kept)
    (h : (cut none lines).filterMap (bare? kept) = []) :
    ∀ line ∈ lines, isCommentLine line = true := by
  refine isCommentLine_of_cut fun l hl => ?_
  have hnone := List.filterMap_eq_nil_iff.1 h l hl
  cases l with
  | comment line => exact ⟨line, rfl⟩
  | unterminated ls => exact absurd (hreadable _ hl) id
  | property ls text =>
    obtain ⟨p, hp⟩ := hreadable _ hl
    rw [bare?, hp] at hnone
    cases hnone

end LogicalLine

/-- The keys of properties are keys of their values. -/
theorem Values.mem_keys_addAll {d : Option ListDelimiter} {values : Values}
    {properties : List Property} {k : Text} :
    k ∈ (values.addAll d properties).keys ↔
      k ∈ values.keys ∨ k ∈ properties.map Property.key := by
  induction properties generalizing values with
  | nil => simp [addAll]
  | cons p rest ih =>
    refine (@ih (values.add d p.key (.one p.value))).trans ?_
    have hone : (Value.one p.value).texts ≠ [] := List.cons_ne_nil p.value []
    rw [mem_keys_add hone, List.map_cons, List.mem_cons, or_assoc]

namespace Store

/-- A store without keys, with a footer. -/
def footed (b : LineBreak) (c : Text) : Store where
  options := { includeKey := none, includeOptionalKey := none }
  layout := { footer := some c, lineSeparator? := some b.chars }

/-- **If the footer of a store without keys is inert, it is contained.** -/
theorem isContained_of_footed {b : LineBreak} {c : Text} (h : (footed b c).CommentsAreInert) :
    Comment.IsContained c := by
  have ho : (footed b c).options.IsClosed := ⟨rfl, rfl⟩
  have hb : (footed b c).layout.lineSeparator = b.chars := by cases b <;> rfl
  -- without the footer there is nothing to read
  obtain ⟨st₀, hread₀, hvalues₀⟩ := exists_read_of_isClosed ho
    (t := (footed b c).uncommented.toText) (fun l hl => absurd hl List.not_mem_nil) true
    (Sources.inMemory [] []) none
  obtain ⟨st₁, hread₁, hvalues₁⟩ := h _ true _ none st₀ [] ho rfl hread₀
  obtain ⟨hreadable, hvalues⟩ := values_of_read_eq_ok ho hread₁
  -- so no property is read with it
  have hnone : (LogicalLine.cut none (ofText (footed b c).toText).lines).filterMap
      (LogicalLine.bare? (ListDelimiter.kept (footed b c).options.delimiter)) = [] := by
    have hempty := hvalues.symm.trans (hvalues₁.trans hvalues₀)
    cases hproperties : (LogicalLine.cut none (ofText (footed b c).toText).lines).filterMap
        (LogicalLine.bare? (ListDelimiter.kept (footed b c).options.delimiter)) with
    | nil => rfl
    | cons p rest =>
      rw [hproperties] at hempty
      have hkey : p.key ∈ (Values.addAll (footed b c).options.delimiter .empty (p :: rest)).keys :=
        Values.mem_keys_addAll.2 (.inr (List.mem_map_of_mem List.mem_cons_self))
      rw [hempty] at hkey
      exact absurd hkey List.not_mem_nil
  have hcontent := content_eq_nil_iff.2
    (LogicalLine.isCommentLine_of_filterMap_bare? hreadable hnone)
  rw [toText, Layout.save, hb, content_textOfLines] at hcontent
  exact Layout.flatMap_content_commentLines.1 hcontent

/-- **Which comments are inert.** Let `P` be some kind of comments. The
comments of all stores that have none but comments of this kind, and no
backslash in a separator, are inert if and only if every comment of the
kind is contained. -/
theorem commentsAreInert_iff (b : LineBreak) (P : Text → Prop) :
    (∀ st : Store, st.layout.lineSeparator = b.chars → st.HasPlainSeparators →
      (∀ c ∈ st.layout.comments, P c) → st.CommentsAreInert) ↔
      ∀ c, P c → Comment.IsContained c := by
  constructor
  · intro h c hc
    refine isContained_of_footed (b := b) (h _ (by cases b <;> rfl) ?_ ?_)
    · exact fun k hk => absurd hk List.not_mem_nil
    · exact List.forall_mem_singleton.2 hc
  · intro h st hb hs hcomments
    exact commentsAreInert hb hs fun c hc => h c (hcomments c hc)

/-- A store with the one key x, and a comment with a carriage return. -/
def returning : Store where
  options := { includeKey := none, includeOptionalKey := none }
  values := ⟨[(['x'], [['1']])], by decide⟩
  layout :=
    { entries := ⟨[(['x'], { comment := some "a\rk = v".toList })], by decide⟩
      lineSeparator? := some ['\n'] }

/-- **A comment with a carriage return sets a key**: what stands behind it
is a line of its own when it is read. -/
theorem not_commentsAreInert_returning :
    returning.layout.lineSeparator = LineBreak.lf.chars ∧ returning.HasPlainSeparators ∧
      ¬ returning.CommentsAreInert := by
  refine ⟨rfl, List.forall_mem_singleton.2 (by decide), fun h => ?_⟩
  have ho : returning.options.IsClosed := ⟨rfl, rfl⟩
  have hplain : Reading.ofLines [] (ofText returning.uncommented.toText).lines
      = ⟨[⟨['x'], ['1'], " = ".toList, [], 1⟩], .complete []⟩ := by
    decide +kernel
  have hreturning : Reading.ofLines [] (ofText returning.toText).lines
      = ⟨[⟨['k'], ['v'], " = ".toList, ["# a".toList], 2⟩,
          ⟨['x'], ['1'], " = ".toList, [], 3⟩], .complete []⟩ := by
    decide +kernel
  have hread₀ := @read_of_none returning.options (Sources.inMemory [] []) _ _ hplain
    (fun p _ => ho.directive?_eq_none p.key) true none
  have hread₁ := @read_of_none returning.options (Sources.inMemory [] []) _ _ hreturning
    (fun p _ => ho.directive?_eq_none p.key) true none
  obtain ⟨st₁, hread, hvalues⟩ := h _ true _ none _ [] ho rfl hread₀
  obtain rfl := (Prod.mk.inj (Prod.mk.inj (hread₁.symm.trans hread)).2).1
  exact absurd hvalues (by decide)

end Store

end PropertyFile
