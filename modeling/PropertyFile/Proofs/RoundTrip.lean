import PropertyFile.Proofs.Loading
import PropertyFile.Proofs.PhysicalLine
import PropertyFile.Proofs.Writing

/-!
# Saving and loading a layout

A file carries no marks that say which of its comment lines are the
header, which are the comment of a key and how many blank lines stand
before it. Reading has to tell them apart by blank lines alone. Where
that is possible (`Store.IsRestorable`), a store that is saved and loaded
again comes back as it was (`read_toText`): its keys in the order of the
layout, all their values, and a layout that differs only where the saved
one was not canonical. Comments have their marks, the first key is parted
from the header by a blank line, and a key is on a single line if and
only if it has a single value.

What is written for a key is a block of blank and comment lines and then
a line for each value (`Layout.entryLines`). The proof follows the keys:
the first of these lines makes an entry at the end of the layout
(`entries_entriesOf_entryLines`), the others leave it there.
-/

namespace PropertyFile

open Text PhysicalLines

/-- The values of a key with the key before each. -/
def Values.pairsOf (values : Values) (key : Text) : List (Text × Text) :=
  (values.list key).map fun v => (key, v)

namespace Layout

/-! ## The lines of a key -/

/-- The blank and comment lines before a key. -/
def blockLines (e : Entry) : List Text := List.replicate e.blankLines [] ++ commentLines e.comment

/-- What is written for a key: its block, and a line for each value. -/
def entryLines (ascii : Bool) (values : Values) (x : Text × Entry) : List ReadLine :=
  (blockLines x.2).map .comment ++ (values.list x.1).map fun v =>
    .property (propertyLine ascii x.1 x.2.separator (Escape.value ascii x.2.separator v))
      x.1 x.2.separator v

/-- Some entries, the first of them parted from a header if there is
one. -/
def parted (leading : Bool) : List (Text × Entry) → List (Text × Entry)
  | [] => []
  | (key, e) :: rest =>
    (key, { e with blankLines := if leading then max e.blankLines 1 else e.blankLines }) :: rest

theorem keys_parted (leading : Bool) (es : List (Text × Entry)) :
    (parted leading es).map Prod.fst = es.map Prod.fst := by
  cases es <;> rfl

/-- Only blank lines are changed where entries are parted from a
header. -/
theorem mem_of_mem_parted {leading : Bool} {es : List (Text × Entry)} {x : Text × Entry}
    (h : x ∈ parted leading es) :
    ∃ y ∈ es, x.1 = y.1 ∧ x.2.separator = y.2.separator ∧ x.2.comment = y.2.comment := by
  cases es with
  | nil => exact absurd h List.not_mem_nil
  | cons y rest =>
    obtain rfl | h := List.mem_cons.1 h
    · exact ⟨y, List.mem_cons_self, rfl, rfl, rfl⟩
    · exact ⟨x, List.mem_cons_of_mem y h, rfl, rfl, rfl⟩

/-- The first entry may get a blank line, the others stay as they are. -/
theorem mem_parted {leading : Bool} {es : List (Text × Entry)} (hkeys : (es.map Prod.fst).Nodup)
    {k : Text} {e : Entry} (h : (k, e) ∈ es) :
    (k, { e with
      blankLines := if leading ∧ (es.map Prod.fst).head? = some k then max e.blankLines 1
        else e.blankLines }) ∈ parted leading es := by
  cases es with
  | nil => exact absurd h List.not_mem_nil
  | cons x rest =>
    obtain ⟨hnew, -⟩ := List.nodup_cons.1 hkeys
    obtain rfl | h := List.mem_cons.1 h
    · refine List.mem_cons.2 (.inl ?_)
      cases leading <;> simp
    · have hne : x.1 ≠ k := fun hk => hnew (hk ▸ List.mem_map_of_mem h)
      refine List.mem_cons_of_mem _ ?_
      rw [if_neg (by simp [hne])]
      exact h

theorem blankLines_leading (leading : Bool) (blanks : Nat) :
    (if leading && blanks == 0 then 1 else blanks)
      = if leading then max blanks 1 else blanks := by
  cases leading with
  | false => rfl
  | true =>
    cases blanks with
    | zero => rfl
    | succ n => simp

/-- **The lines of some keys that all have values.** -/
theorem flatMap_segmentsFrom_parted {l : Layout} {style : WriteStyle}
    (hstyle : style.delimiter = none) (hglobal : l.globalSeparator = none) {values : Values}
    {es : List (Text × Entry)} (hvalues : ∀ x ∈ es, x.1 ∈ values.keys) (leading : Bool) :
    (l.segmentsFrom style values leading es).flatMap Segment.lines
      = ((parted leading es).flatMap (entryLines style.ascii values)).map ReadLine.text := by
  induction es generalizing leading with
  | nil => rfl
  | cons x rest ih =>
    obtain ⟨key, e⟩ := x
    obtain ⟨hkey, hrest⟩ := List.forall_mem_cons.1 hvalues
    have hrest := ih hrest false
    -- only the first key can be parted from the header
    have hparted : parted false rest = rest := by
      cases rest <;> rfl
    cases hget : values.get? key with
    | none => exact absurd hkey (OrderedMap.get?_eq_none_iff.1 hget)
    | some vs =>
      have hlist : values.list key = vs := by
        rw [Values.list, hget]
        rfl
      rw [segmentsFrom, hget]
      dsimp only
      rw [List.flatMap_cons, lines_segment hstyle hglobal, hrest, hparted, blankLines_leading,
        parted, List.flatMap_cons, List.map_append, entryLines, hlist, List.map_append,
        List.map_map, List.map_map, blockLines]
      simp only [Function.comp_def, ReadLine.text, List.map_id']

/-! ## Reading the lines of a key -/

/-- The first line of a block is not blank. -/
def StartsFilled (block : List Text) : Prop := block.head? ≠ some []

/-- **The entry that the lines before a key make.** -/
theorem firstEntry_blockLines {e : Entry} (h : StartsFilled (commentLines e.comment)) :
    firstEntry (blockLines e) e.separator
      = { comment := e.comment.map (Comment.canonical true)
          blankLines := e.blankLines
          separator := e.separator } := by
  have hblank : ∀ c ∈ List.replicate e.blankLines ([] : Text), decide (c = []) = true :=
    fun c hc => decide_eq_true (List.eq_of_mem_replicate hc)
  have hfilled : (commentLines e.comment).takeWhile (· = []) = [] ∧
      (commentLines e.comment).dropWhile (· = []) = commentLines e.comment := by
    cases hc : commentLines e.comment with
    | nil => exact ⟨rfl, rfl⟩
    | cons c cs =>
      have hne : c ≠ [] := fun hnil => h (by rw [hc, hnil]; rfl)
      simp [hne]
  unfold firstEntry blockLines
  rw [List.takeWhile_append_of_pos hblank, List.dropWhile_append_of_pos hblank, hfilled.1,
    hfilled.2, List.append_nil, List.length_replicate, ofLines_commentLines]

/-- The entry of a key that is read with some values. -/
def reread (values : Values) (x : Text × Entry) : Text × Entry :=
  (x.1, { comment := x.2.comment.map (Comment.canonical true)
          blankLines := x.2.blankLines
          separator := x.2.separator
          singleLine := (values.list x.1).length == 1 })

/-- The entry that the first value of a key makes is the one that is read,
but for the single line. -/
theorem entryFor_first {values : Values} {x : Text × Entry} {v : Text} {vs : List Text}
    (hcomment : StartsFilled (commentLines x.2.comment)) (hvs : values.list x.1 = v :: vs)
    (number : Nat) :
    (x.1, { entryFor ⟨x.1, v, x.2.separator, blockLines x.2, number⟩ none with
      singleLine := (entryFor ⟨x.1, v, x.2.separator, blockLines x.2, number⟩ none).singleLine
        && vs.isEmpty }) = reread values x := by
  have hentry : entryFor ⟨x.1, v, x.2.separator, blockLines x.2, number⟩ none
      = firstEntry (blockLines x.2) x.2.separator := rfl
  rw [hentry, firstEntry_blockLines hcomment, reread, hvs]
  cases vs <;> rfl

/-- A further value with no comment before it only puts the key on
several lines. -/
theorem entryFor_of_comments_eq_nil {p : Property} (h : p.comments = []) (e : Entry) :
    entryFor p (some e) = { e with singleLine := false } := by
  unfold entryFor laterEntry Entry.addComment
  rw [h]
  obtain ⟨comment, blankLines, separator, singleLine⟩ := e
  cases comment <;> rfl

/-- Further values of the last key leave its entry where it is. -/
theorem entries_entriesOf_values {m : OrderedMap Entry} {init : List (Text × Entry)} {key : Text}
    {e : Entry} (hm : m.entries = init ++ [(key, e)]) (line : Text → Text) (separator : Text)
    (vs : List Text) (number : Nat) (rest : List ReadLine) :
    ∃ m' number', m'.entries
        = init ++ [(key, { e with singleLine := e.singleLine && vs.isEmpty })] ∧
      entriesOf m (ReadLine.properties number []
          ((vs.map fun v => .property (line v) key separator v) ++ rest))
        = entriesOf m' (ReadLine.properties number' [] rest) := by
  induction vs generalizing m e number with
  | nil =>
    refine ⟨m, number, ?_, rfl⟩
    rw [hm, List.isEmpty_nil, Bool.and_true]
  | cons v vs ih =>
    have hupdate := OrderedMap.entries_update_of_last hm
      (entryFor ⟨key, v, separator, [], number⟩)
    rw [entryFor_of_comments_eq_nil rfl] at hupdate
    obtain ⟨m', number', hentries, hrest⟩ := ih hupdate (number + 1)
    refine ⟨m', number', hentries.trans ?_, hrest⟩
    rw [List.isEmpty_cons, Bool.and_false]
    rfl

/-- **Reading the lines of some keys makes their entries**, one behind
the other. -/
theorem entries_entriesOf_entryLines {ascii : Bool} {values : Values} {es : List (Text × Entry)}
    (hkeys : (es.map Prod.fst).Nodup) (hvalues : ∀ x ∈ es, values.list x.1 ≠ [])
    (hcomments : ∀ x ∈ es, StartsFilled (commentLines x.2.comment)) {m : OrderedMap Entry}
    (hm : ∀ x ∈ es, x.1 ∉ m.keys) (number : Nat) (footer : List Text) :
    (entriesOf m (ReadLine.properties number []
        (es.flatMap (entryLines ascii values) ++ footer.map .comment))).entries
      = m.entries ++ es.map (reread values) := by
  induction es generalizing m number with
  | nil =>
    have hnone := ReadLine.properties_comments number [] footer []
    rw [List.append_nil] at hnone
    rw [List.flatMap_nil, List.nil_append, hnone, List.map_nil, List.append_nil]
    rfl
  | cons x rest ih =>
    obtain ⟨hnew, hkeys⟩ := List.nodup_cons.1 hkeys
    obtain ⟨hvalue, hvalues⟩ := List.forall_mem_cons.1 hvalues
    obtain ⟨hcomment, hcomments⟩ := List.forall_mem_cons.1 hcomments
    obtain ⟨hfresh, hm⟩ := List.forall_mem_cons.1 hm
    obtain ⟨v, vs, hvs⟩ := List.exists_cons_of_ne_nil hvalue
    -- the first value makes the entry, the others only unset its single line
    have hfirst := OrderedMap.entries_update_of_not_mem hfresh
      (entryFor ⟨x.1, v, x.2.separator, blockLines x.2, number + (blockLines x.2).length⟩)
    obtain ⟨m', number', hentries, hlater⟩ := entries_entriesOf_values hfirst
      (fun v => propertyLine ascii x.1 x.2.separator (Escape.value ascii x.2.separator v))
      x.2.separator vs (number + (blockLines x.2).length + 1)
      (rest.flatMap (entryLines ascii values) ++ footer.map .comment)
    -- so the other keys are still new
    have hm' : ∀ y ∈ rest, y.1 ∉ m'.keys := by
      intro y hy hmem
      rw [OrderedMap.keys, hentries, List.map_append, List.mem_append] at hmem
      obtain hmem | hmem := hmem
      · exact hm y hy hmem
      · exact hnew (List.mem_singleton.1 hmem ▸ List.mem_map_of_mem hy)
    rw [List.flatMap_cons, List.append_assoc, entryLines, hvs, List.append_assoc,
      ReadLine.properties_comments, List.nil_append, List.map_cons, List.cons_append,
      ReadLine.properties]
    refine (congrArg OrderedMap.entries hlater).trans ?_
    rw [ih hkeys hvalues hcomments hm' number', hentries, List.append_assoc]
    rw [entryFor_first hcomment hvs]
    rfl

/-- Behind the lines of a key nothing is left over of what was read
before. -/
theorem trailing_entryLines {ascii : Bool} {values : Values} {x : Text × Entry}
    (hvalue : values.list x.1 ≠ []) (pending : List Text) (rest : List ReadLine) :
    ReadLine.trailing pending (entryLines ascii values x ++ rest) = ReadLine.trailing [] rest := by
  have hlater : ∀ (line : Text → Text) (vs : List Text), ReadLine.trailing []
      ((vs.map fun v => .property (line v) x.1 x.2.separator v) ++ rest)
        = ReadLine.trailing [] rest := by
    intro line vs
    induction vs with
    | nil => rfl
    | cons v vs ih => exact ih
  obtain ⟨v, vs, hvs⟩ := List.exists_cons_of_ne_nil hvalue
  rw [entryLines, hvs, List.append_assoc, ReadLine.trailing_comments, List.map_cons,
    List.cons_append, ReadLine.trailing]
  exact hlater _ vs

theorem trailing_flatMap_entryLines {ascii : Bool} {values : Values} {es : List (Text × Entry)}
    (hvalues : ∀ x ∈ es, values.list x.1 ≠ []) (footer : List Text) :
    ReadLine.trailing [] (es.flatMap (entryLines ascii values) ++ footer.map .comment)
      = footer := by
  induction es with
  | nil =>
    have hfooter := ReadLine.trailing_comments [] footer []
    rw [List.append_nil] at hfooter
    exact hfooter
  | cons x rest ih =>
    obtain ⟨hvalue, hvalues⟩ := List.forall_mem_cons.1 hvalues
    rw [List.flatMap_cons, List.append_assoc, trailing_entryLines hvalue, ih hvalues]

/-- **The header of what is read** before the first key is found there,
and the rest is read as if it had not been there. -/
theorem withoutHeader_entryLines {ascii : Bool} {values : Values} {x : Text × Entry}
    (hvalue : values.list x.1 ≠ []) {header : List Text}
    (hheader : headerLines (header ++ blockLines x.2) = header) (number : Nat)
    (rest : List ReadLine) :
    headerOf (ReadLine.properties number header (entryLines ascii values x ++ rest)) = header ∧
      withoutHeader (ReadLine.properties number header (entryLines ascii values x ++ rest))
        = ReadLine.properties number [] (entryLines ascii values x ++ rest) := by
  obtain ⟨v, vs, hvs⟩ := List.exists_cons_of_ne_nil hvalue
  rw [entryLines, hvs, List.append_assoc, ReadLine.properties_comments,
    ReadLine.properties_comments, List.map_cons, List.cons_append, ReadLine.properties,
    ReadLine.properties, headerOf, withoutHeader]
  dsimp only
  rw [hheader, List.drop_left]
  exact ⟨rfl, rfl⟩

/-- The keys and values on the lines of some keys. -/
theorem pairs_entryLines (ascii : Bool) (values : Values) (es : List (Text × Entry))
    (footer : List Text) :
    (es.flatMap (entryLines ascii values) ++ footer.map ReadLine.comment).filterMap ReadLine.pair?
      = es.flatMap fun x => values.pairsOf x.1 := by
  have hcomments : ∀ comments : List Text,
      (comments.map ReadLine.comment).filterMap ReadLine.pair? = [] := by
    intro comments
    induction comments with
    | nil => rfl
    | cons line comments ih => exact ih
  rw [List.filterMap_append, hcomments, List.append_nil]
  induction es with
  | nil => rfl
  | cons x rest ih =>
    rw [List.flatMap_cons, List.filterMap_append, ih, entryLines, List.filterMap_append,
      hcomments, List.flatMap_cons, List.filterMap_map]
    refine congrArg (· ++ _) ?_
    rw [List.nil_append]
    exact congrFun List.filterMap_eq_map (values.list x.1)

end Layout

namespace Values

/-- Further values of the last key go to its others. -/
theorem entries_addPairs_of_last {m : Values} {init : List (Text × List Text)} {key : Text}
    {ws : List Text} (hm : m.entries = init ++ [(key, ws)]) (vs : List Text) :
    (m.addPairs (vs.map fun v => (key, v))).entries = init ++ [(key, ws ++ vs)] := by
  induction vs generalizing m ws with
  | nil =>
    rw [List.append_nil]
    exact hm
  | cons v vs ih =>
    have hupdate := OrderedMap.entries_update_of_last hm fun old => old.getD [] ++ [v]
    refine (ih hupdate).trans ?_
    rw [Option.getD_some, List.append_assoc]
    rfl

/-- **Values that come in key by key** make an entry for each key. -/
theorem entries_addPairs {values : Values} {es : List (Text × Entry)}
    (hkeys : (es.map Prod.fst).Nodup) (hvalues : ∀ x ∈ es, values.list x.1 ≠ []) {m : Values}
    (hm : ∀ x ∈ es, x.1 ∉ m.keys) :
    (m.addPairs (es.flatMap fun x => values.pairsOf x.1)).entries
      = m.entries ++ es.map fun x => (x.1, values.list x.1) := by
  induction es generalizing m with
  | nil => exact (List.append_nil m.entries).symm
  | cons x rest ih =>
    obtain ⟨hnew, hkeys⟩ := List.nodup_cons.1 hkeys
    obtain ⟨hvalue, hvalues⟩ := List.forall_mem_cons.1 hvalues
    obtain ⟨hfresh, hm⟩ := List.forall_mem_cons.1 hm
    obtain ⟨v, vs, hvs⟩ := List.exists_cons_of_ne_nil hvalue
    have hfirst := OrderedMap.entries_update_of_not_mem hfresh
      fun (old : Option (List Text)) => old.getD [] ++ [v]
    have hkey : (m.addPairs (values.pairsOf x.1)).entries
        = m.entries ++ [(x.1, values.list x.1)] := by
      rw [pairsOf, hvs]
      exact entries_addPairs_of_last hfirst vs
    have hm' : ∀ y ∈ rest, y.1 ∉ (m.addPairs (values.pairsOf x.1)).keys := by
      intro y hy hmem
      rw [OrderedMap.keys, hkey, List.map_append, List.mem_append] at hmem
      obtain hmem | hmem := hmem
      · exact hm y hy hmem
      · exact hnew (List.mem_singleton.1 hmem ▸ List.mem_map_of_mem hy)
    have hrest := ih hkeys hvalues hm'
    rw [List.flatMap_cons, addPairs, List.foldl_append]
    refine hrest.trans ?_
    rw [hkey, List.append_assoc]
    rfl

end Values

/-! ## Restorable stores -/

/-- A key that is not empty and does not start with a blank is written on
a line that is no comment line and not indented. -/
theorem propertyLine_starts {ascii : Bool} {c : Char} {k : Text} (hc : isBlank c = false)
    (s v : Text) :
    NoIndent (propertyLine ascii (c :: k) s v) ∧
      isCommentLine (propertyLine ascii (c :: k) s v) = false := by
  obtain ⟨d, t, hkey, hd⟩ := Escape.key_cons ascii c k
  have hline : propertyLine ascii (c :: k) s v = d :: (t ++ s ++ v) := by
    rw [propertyLine, hkey]
    rfl
  have hstart : isBlank d = false ∧ isSpacing d = false ∧ isCommentMark d = false := by
    obtain rfl | ⟨rfl, hordinary, hmark⟩ := hd
    · decide
    · exact ⟨hc, hordinary.2.1, hmark⟩
  rw [hline]
  refine ⟨fun e u h => ?_, ?_⟩
  · exact (List.cons.inj h).1 ▸ hstart.2.1
  · unfold isCommentLine
    rw [List.dropWhile_cons_of_neg (by simp [hstart.1])]
    exact hstart.2.2

/-- **A restorable store**: one that a saved file can hold without loss.
It is plain, and its layout has the keys that have values. -/
structure Store.IsRestorable (b : LineBreak) (st : Store) : Prop where
  /-- There is no list delimiter. -/
  plain : st.options.IsPlain
  /-- The layout has the keys of the store. -/
  keys : ∀ k, k ∈ st.layout.keys ↔ k ∈ st.values.keys
  /-- There is a key. -/
  nonempty : st.layout.keys ≠ []
  /-- Every key has a value, as in every store. -/
  values : ∀ k ∈ st.values.keys, st.values.list k ≠ []
  /-- Lines are ended by a line break. -/
  lineBreak : st.layout.lineSeparator = b.chars
  /-- So is the last one. -/
  finalNewline : st.layout.finalNewline = true
  /-- No separator replaces those of the keys. -/
  globalSeparator : st.layout.globalSeparator = none
  /-- No key is empty or starts with a blank. -/
  key : ∀ k ∈ st.layout.keys, ∃ c t, k = c :: t ∧ isBlank c = false
  /-- No separator is empty. -/
  separator : ∀ x ∈ st.layout.entries.entries, IsSeparator x.2.separator ∧ x.2.separator ≠ []
  /-- No comment starts with an empty line. -/
  comment : ∀ x ∈ st.layout.entries.entries, ∀ t ∈ x.2.comment,
    '\r' ∉ t ∧ (Comment.lines t).head? ≠ some []
  /-- The first comment has no empty line at all. -/
  firstComment : ∀ x ∈ st.layout.entries.entries.head?, ∀ t ∈ x.2.comment, [] ∉ Comment.lines t
  /-- The header does not end in an empty line. -/
  header : ∀ t ∈ st.layout.header, '\r' ∉ t ∧ (Comment.lines t).getLast? ≠ some []
  /-- The footer may be anything. -/
  footer : ∀ t ∈ st.layout.footer, '\r' ∉ t

namespace Store

open Layout

/-- The entries as they are written, the first parted from the header. -/
def writtenEntries (st : Store) : List (Text × Entry) :=
  parted st.layout.header.isSome st.layout.entries.entries

/-- The lines as they are written, the header apart. -/
def writtenLines (st : Store) : List ReadLine :=
  st.writtenEntries.flatMap (entryLines st.options.escapeUnicode st.values)
    ++ (commentLines st.layout.footer).map ReadLine.comment

/-- The properties as they are read, the header before the first. -/
def writtenProperties (st : Store) : List Property :=
  ReadLine.properties (1 + (commentLines st.layout.header).length)
    (commentLines st.layout.header) st.writtenLines

namespace IsRestorable

variable {b : LineBreak} {st : Store} (h : st.IsRestorable b)

include h

theorem values_written : ∀ x ∈ st.writtenEntries, st.values.list x.1 ≠ [] := by
  intro x hx
  obtain ⟨y, hy, hkey, -, -⟩ := mem_of_mem_parted hx
  rw [hkey]
  exact h.values y.1 ((h.keys y.1).1 (List.mem_map_of_mem hy))

/-- The lines of the file are those of the header and the others. -/
theorem lines_eq :
    st.layout.lines st.style st.values
      = ((commentLines st.layout.header).map ReadLine.comment ++ st.writtenLines).map
          ReadLine.text := by
  have hvalues : ∀ x ∈ st.layout.entries.entries, x.1 ∈ st.values.keys :=
    fun x hx => (h.keys x.1).1 (List.mem_map_of_mem hx)
  have hcomments : ∀ comments : List Text,
      (comments.map ReadLine.comment).map ReadLine.text = comments := by
    intro comments
    rw [List.map_map]
    exact List.map_id comments
  unfold Layout.lines segments
  rw [flatMap_segmentsFrom_parted h.plain.delimiter h.globalSeparator hvalues, writtenLines,
    List.map_append, List.map_append, hcomments, hcomments, List.append_assoc]
  rfl

/-- Every line that is written is a line, and stands for itself. -/
theorem reads_written : ∀ l ∈ (commentLines st.layout.header).map ReadLine.comment
    ++ st.writtenLines, l.Reads ∧ IsLine l.text := by
  have hblock : ∀ block : Option Text, (∀ t ∈ block, '\r' ∉ t) →
      ∀ l ∈ (commentLines block).map ReadLine.comment, l.Reads ∧ IsLine l.text := by
    intro block hb l hl
    obtain ⟨line, hline, rfl⟩ := List.mem_map.1 hl
    exact ⟨isCommentLine_of_mem_commentLines hline, isLine_of_mem_commentLines hb hline⟩
  intro l hl
  obtain hl | hl := List.mem_append.1 hl
  · exact hblock _ (fun t ht => (h.header t ht).1) l hl
  obtain hl | hl := List.mem_append.1 hl
  · obtain ⟨x, hx, hl⟩ := List.mem_flatMap.1 hl
    -- an entry that was parted from the header has only more blank lines
    obtain ⟨y, hy, hkey, hseparator, hcomment⟩ := mem_of_mem_parted hx
    obtain hl | hl := List.mem_append.1 hl
    · rw [blockLines, List.map_append] at hl
      obtain hl | hl := List.mem_append.1 hl
      · obtain ⟨line, hline, rfl⟩ := List.mem_map.1 hl
        rw [List.eq_of_mem_replicate hline]
        exact ⟨rfl, isLine_nil⟩
      · exact hblock _ (fun t ht => (h.comment y hy t (hcomment ▸ ht)).1) l hl
    · obtain ⟨v, -, rfl⟩ := List.mem_map.1 hl
      obtain ⟨hs, hne⟩ := hseparator ▸ h.separator y hy
      obtain ⟨c, t, hk, hc⟩ := h.key x.1 (hkey ▸ List.mem_map_of_mem hy)
      rw [hk]
      obtain ⟨hindent, hline⟩ := propertyLine_starts hc x.2.separator
        (Escape.value st.options.escapeUnicode x.2.separator v)
      exact ⟨isPropertyLine_propertyLine _ hs (.inl hne) hindent hline,
        isLine_propertyLine _ _ v hs⟩
  · exact hblock _ h.footer l hl

/-- The first entry that is written: the blank lines before its comment
are the last ones in front of the key. -/
theorem exists_first : ∃ x rest, st.writtenEntries = x :: rest ∧
    headerLines (commentLines st.layout.header ++ blockLines x.2)
      = commentLines st.layout.header := by
  obtain ⟨⟨key, e⟩, rest, hentries⟩ : ∃ x rest, st.layout.entries.entries = x :: rest := by
    refine List.exists_cons_of_ne_nil fun hnil => h.nonempty ?_
    rw [Layout.keys, OrderedMap.keys, hnil]
    rfl
  have hbody : ∀ l ∈ commentLines e.comment, l ≠ [] := by
    intro l hl hnil
    cases hcomment : e.comment with
    | none => rw [hcomment] at hl; exact absurd hl List.not_mem_nil
    | some t =>
      rw [hcomment] at hl
      obtain ⟨line, hline, hmark⟩ := List.mem_map.1 hl
      have hempty : line = [] := withMark_eq_nil_iff.1 (hmark.trans hnil)
      exact h.firstComment (key, e) (by rw [hentries]; rfl) t hcomment (hempty ▸ hline)
  rw [writtenEntries, hentries, parted]
  refine ⟨_, _, rfl, ?_⟩
  rw [blockLines, ← List.append_assoc]
  -- the header ends at the last blank line: its own last line is none, the
  -- comment has none, and between them there is one if there is a header
  refine headerLines_append ?_ hbody ?_
  · intro l hl hnil
    cases hheader : st.layout.header with
    | none => rw [hheader] at hl; exact absurd hl (Option.some_ne_none l).symm
    | some t =>
      rw [hheader] at hl
      have hmap : (((Comment.lines t).map Comment.withMark).getLast?) = some l := hl
      rw [List.getLast?_map] at hmap
      obtain ⟨line, hline, hmark⟩ := Option.map_eq_some_iff.1 hmap
      rw [withMark_eq_nil_iff.1 (hmark.trans hnil)] at hline
      exact (h.header t hheader).2 hline
  · cases st.layout.header with
    | none => exact .inl rfl
    | some t =>
      refine .inr ?_
      show max e.blankLines 1 ≠ 0
      omega

/-- What the file is read as. -/
theorem reading_eq :
    Reading.ofLines [] (ofText st.toText).lines
      = ⟨st.writtenProperties, .complete (commentLines st.layout.footer)⟩ ∧
      (ofText st.toText).firstBreak = some b := by
  obtain ⟨x, rest, hentries, -⟩ := h.exists_first
  have hvalues := h.values_written
  rw [hentries] at hvalues
  obtain ⟨hvalue, hvalues⟩ := List.forall_mem_cons.1 hvalues
  have hlines : st.writtenLines = entryLines st.options.escapeUnicode st.values x
      ++ (rest.flatMap (entryLines st.options.escapeUnicode st.values)
        ++ (commentLines st.layout.footer).map ReadLine.comment) := by
    rw [writtenLines, hentries, List.flatMap_cons, List.append_assoc]
  have hne : st.layout.lines st.style st.values ≠ [] := by
    rw [h.lines_eq, hlines, entryLines]
    simp [hvalue]
  have hline : ∀ l ∈ st.layout.lines st.style st.values, IsLine l := by
    rw [h.lines_eq]
    intro l hl
    obtain ⟨r, hr, rfl⟩ := List.mem_map.1 hl
    exact (h.reads_written r hr).2
  have htext : ofText st.toText = ⟨st.layout.lines st.style st.values, some b, true⟩ := by
    rw [toText, Layout.save, h.lineBreak, h.finalNewline]
    exact ofText_textOfLines b hne hline
  refine ⟨?_, by rw [htext]⟩
  rw [htext]
  dsimp only
  rw [h.lines_eq, Reading.ofLines, ReadLine.run_readLines fun l hl => (h.reads_written l hl).1,
    ReadLine.properties_comments, ReadLine.trailing_comments, List.nil_append]
  refine congrArg (Reading.mk _) (congrArg Ending.complete ?_)
  rw [hlines, trailing_entryLines hvalue, trailing_flatMap_entryLines hvalues]

omit h in
theorem keys_written : (st.writtenEntries.map Prod.fst).Nodup := by
  rw [writtenEntries, keys_parted]
  exact st.layout.entries.nodup

/-- The header is found again. -/
theorem header_written : headerOf st.writtenProperties = commentLines st.layout.header ∧
    withoutHeader st.writtenProperties
      = ReadLine.properties (1 + (commentLines st.layout.header).length) [] st.writtenLines := by
  obtain ⟨x, rest, hentries, hheader⟩ := h.exists_first
  have hvalue := h.values_written x (hentries ▸ List.mem_cons_self)
  rw [writtenProperties, writtenLines, hentries, List.flatMap_cons, List.append_assoc]
  exact withoutHeader_entryLines hvalue hheader _ _

/-- The entries are those that were written. -/
theorem entries_written : (entriesOf .empty (withoutHeader st.writtenProperties)).entries
    = st.writtenEntries.map (reread st.values) := by
  have hcomments : ∀ x ∈ st.writtenEntries, StartsFilled (commentLines x.2.comment) := by
    intro x hx hhead
    obtain ⟨y, hy, -, -, hcomment⟩ := mem_of_mem_parted hx
    rw [hcomment] at hhead
    cases hblock : y.2.comment with
    | none => rw [hblock] at hhead; exact absurd hhead nofun
    | some t =>
      rw [hblock] at hhead
      have hmap : ((Comment.lines t).map Comment.withMark).head? = some [] := hhead
      rw [List.head?_map] at hmap
      obtain ⟨line, hline, hmark⟩ := Option.map_eq_some_iff.1 hmap
      rw [withMark_eq_nil_iff.1 hmark] at hline
      exact (h.comment y hy t hblock).2 hline
  rw [h.header_written.2, writtenLines]
  exact entries_entriesOf_entryLines keys_written h.values_written hcomments
    (fun _ _ => List.not_mem_nil) _ _

/-- The values are those that were written. -/
theorem addPairs_written : (Values.addPairs .empty (st.writtenProperties.map Property.pair)).entries
    = st.writtenEntries.map fun x => (x.1, st.values.list x.1) := by
  have hpairs : st.writtenProperties.map Property.pair
      = st.writtenEntries.flatMap fun x => st.values.pairsOf x.1 :=
    (ReadLine.pairs_properties _ _ _).trans (pairs_entryLines _ _ _ _)
  rw [hpairs]
  exact Values.entries_addPairs keys_written h.values_written fun _ _ => List.not_mem_nil

end IsRestorable

end Store

/-- **Saving and loading a layout.** A restorable store that is saved and
read into a fresh plain store comes back with its keys in the order of
the layout and all their values. Every key has its separator, its comment
with marks and its blank lines, at least one if it is the first behind a
header, and a single line if and only if it has a single value. Header
and footer have their marks, and the line break is the same. -/
theorem read_toText {b : LineBreak} {st : Store} (h : st.IsRestorable b) {o : StoreOptions}
    (ho : o.IsPlain) (src : Sources) (source : Option Text) :
    ∃ st', (Store.fresh o true).read src source st.toText = (.ok (), st', []) ∧
      st'.values.keys = st.layout.keys ∧ st'.layout.keys = st.layout.keys ∧
      (∀ k, st'.values.get? k = st.values.get? k) ∧
      (∀ k e, st.layout.entry? k = some e → st'.layout.entry? k = some
        { comment := e.comment.map (Comment.canonical true)
          blankLines :=
            if st.layout.header.isSome ∧ st.layout.keys.head? = some k then max e.blankLines 1
            else e.blankLines
          separator := e.separator
          singleLine := (st.values.list k).length == 1 }) ∧
      st'.layout.header = st.layout.canonicalHeader true ∧
      st'.layout.footer = st.layout.canonicalFooter true ∧
      st'.layout.lineSeparator = st.layout.lineSeparator := by
  obtain ⟨hreading, hbreak⟩ := h.reading_eq
  have hkeys : st.writtenEntries.map Prod.fst = st.layout.keys := Layout.keys_parted _ _
  have hvalueKeys : (Values.addPairs .empty (st.writtenProperties.map Property.pair)).keys
      = st.layout.keys := by
    rw [← hkeys, OrderedMap.keys, h.addPairs_written, List.map_map]
    rfl
  refine ⟨_, Store.read_fresh ho true src source hreading, ?_, ?_, ?_, ?_, ?_, ?_, ?_⟩
  · exact hvalueKeys
  · rw [← hkeys]
    refine (congrArg (List.map Prod.fst) h.entries_written).trans ?_
    rw [List.map_map]
    rfl
  · intro k
    show (Values.addPairs .empty (st.writtenProperties.map Property.pair)).get? k = _
    cases hget : st.values.get? k with
    | none =>
      rw [OrderedMap.get?_eq_none_iff, hvalueKeys, h.keys]
      exact OrderedMap.get?_eq_none_iff.1 hget
    | some vs =>
      have hk : k ∈ st.values.keys := List.mem_map_of_mem (OrderedMap.get?_eq_some_iff.1 hget)
      obtain ⟨x, hx, rfl⟩ := List.mem_map.1 (hkeys ▸ (h.keys k).2 hk)
      rw [OrderedMap.get?_eq_some_iff, h.addPairs_written]
      refine List.mem_map.2 ⟨x, hx, ?_⟩
      rw [Values.list, hget]
      rfl
  · intro k e hk
    have hmem : (k, e) ∈ st.layout.entries.entries := OrderedMap.get?_eq_some_iff.1 hk
    refine OrderedMap.get?_eq_some_iff.2 ?_
    show _ ∈ (Layout.entriesOf .empty (Layout.withoutHeader st.writtenProperties)).entries
    rw [h.entries_written]
    exact List.mem_map.2 ⟨_, Layout.mem_parted st.layout.entries.nodup hmem, rfl⟩
  · show Comment.ofLines (Layout.headerOf st.writtenProperties) = _
    rw [h.header_written.1]
    exact Layout.ofLines_commentLines st.layout.header
  · exact Layout.ofLines_commentLines st.layout.footer
  · rw [h.lineBreak]
    show Layout.lineSeparator
        { lineSeparator? := (ofText st.toText).firstBreak.map LineBreak.chars }
      = b.chars
    rw [hbreak]
    cases b <;> rfl

/-- A store with a header without a mark, a commented key with one value
and a key with two. -/
def Store.ports : Store where
  options := { includeKey := none, includeOptionalKey := none }
  values := ⟨[("port".toList, ["80".toList, "443".toList]), ("host".toList, [[]])], by decide⟩
  layout :=
    { entries := ⟨[("host".toList, { comment := some "! name".toList, separator := [':'] }),
        ("port".toList, { blankLines := 2 })], by decide⟩
      header := some "ports".toList
      lineSeparator? := some ['\r', '\n'] }

theorem Store.isRestorable_ports : Store.ports.IsRestorable .crlf where
  plain := ⟨rfl, rfl, rfl⟩
  keys k := (List.Perm.swap "port".toList "host".toList []).mem_iff
  nonempty := by decide
  values := by decide
  lineBreak := rfl
  finalNewline := rfl
  globalSeparator := rfl
  key := by
    refine List.forall_mem_cons.2 ⟨⟨'h', "ost".toList, rfl, by decide⟩, ?_⟩
    exact List.forall_mem_cons.2 ⟨⟨'p', "ort".toList, rfl, by decide⟩, fun _ h => absurd h nofun⟩
  separator := by
    refine List.forall_mem_cons.2 ⟨⟨by decide, by decide⟩, ?_⟩
    exact List.forall_mem_cons.2 ⟨⟨.default, by decide⟩, fun _ h => absurd h nofun⟩
  comment := by decide
  firstComment := by decide
  header := by decide
  footer := by decide

/-- The header and the comment get their marks and the first key a blank
line; the key with two values is on several lines. -/
theorem read_toText_ports :
    ∃ st', (Store.fresh { includeKey := none, includeOptionalKey := none } true).read
        (Sources.inMemory [] []) none Store.ports.toText = (.ok (), st', []) ∧
      st'.values.keys = ["host".toList, "port".toList] ∧
      st'.values.get? "port".toList = some ["80".toList, "443".toList] ∧
      st'.layout.entry? "host".toList = some
        { comment := some "! name".toList, blankLines := 1, separator := [':'], singleLine := true } ∧
      st'.layout.entry? "port".toList = some { blankLines := 2, singleLine := false } ∧
      st'.layout.header = some "# ports".toList := by
  obtain ⟨st', hread, hkeys, -, hvalues, hentries, hheader, -, -⟩ :=
    read_toText Store.isRestorable_ports (o := { includeKey := none, includeOptionalKey := none })
      ⟨rfl, rfl, rfl⟩ (Sources.inMemory [] []) none
  refine ⟨st', hread, hkeys, hvalues _, ?_, ?_, hheader⟩
  · exact hentries "host".toList { comment := some "! name".toList, separator := [':'] } rfl
  · exact hentries "port".toList { blankLines := 2 } rfl

end PropertyFile
