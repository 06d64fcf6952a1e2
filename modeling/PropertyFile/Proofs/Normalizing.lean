import PropertyFile.Proofs.Editing
import PropertyFile.Proofs.Identity
import PropertyFile.Proofs.LogicalLine
import PropertyFile.Proofs.RoundTrip

/-!
# Saving normalizes once

A text that is loaded and saved comes out changed: continued lines are
joined, escapes are written the common way, and all values of a key stand
together, with the comments of its occurrences in one block before them.
The text that was saved is not changed again (`toText_read_toText`).

This does not mean that the second load finds the layout of the first.
Where the comment of a key is put together from several, it may have blank
lines inside or start with one, and these are counted differently then:
the second load draws the bounds between header, blank lines and comment
where it finds blank lines. The lines remain the same, though. So the
proof is about files whose bounds are drawn as reading draws them
(`FileParts.IsSettled`): such a file is read and written back unchanged
(`FileParts.IsSettled.read_unchanged`), and any file can be settled without
a change of its lines (`FileParts.isSettled_settle`, `FileParts.lines_settle`).
-/

namespace PropertyFile

open Text PhysicalLines

/-- Comment lines stand for themselves. -/
theorem ReadLine.map_text_comments (comments : List Text) :
    (comments.map comment).map text = comments := by
  rw [List.map_map]
  exact List.map_id comments

theorem ReadLine.trailing_concat (pending : List Text) (lines : List ReadLine) (line : Text) :
    trailing pending (lines ++ [.comment line]) = trailing pending lines ++ [line] := by
  induction lines generalizing pending with
  | nil => rfl
  | cons l rest ih =>
    cases l with
    | comment first => exact ih (pending ++ [first])
    | property first key separator value => exact ih []

/-- The text of some lines is uniform. -/
theorem PhysicalLines.uniform_textOfLines (b : LineBreak) (final : Bool) {lines : List Text}
    (h : ∀ l ∈ lines, IsLine l) : Uniform b (textOfLines b.chars final lines) := by
  cases lines with
  | nil => exact fun e he => absurd he List.not_mem_nil
  | cons line rest =>
    have hall : ∀ l ∈ line :: (rest ++ if final then [[]] else []), IsLine l := by
      intro l hl
      rw [← List.cons_append] at hl
      obtain hl | hl := List.mem_append.1 hl
      · exact h l hl
      · cases final with
        | false => exact absurd hl List.not_mem_nil
        | true => exact List.mem_singleton.1 hl ▸ isLine_nil
    rw [Uniform, textOfLines_eq_joinWith _ _ (List.cons_ne_nil line rest), List.cons_append,
      cut_joinWith b hall]
    exact List.forall_mem_map.2 fun _ _ => rfl

/-! ## Settled files -/

/-- The parts of a file. -/
structure FileParts where
  /-- The lines of the header. -/
  header : List Text
  /-- The keys with their entries, in the order of writing. -/
  entries : List (Text × Entry)
  /-- The values of the keys. -/
  values : Values
  /-- The lines of the footer. -/
  footer : List Text

namespace FileParts

open Layout

/-- The lines of the file, as what they are read as. -/
def lines (ascii : Bool) (d : FileParts) : List ReadLine :=
  d.header.map .comment ++
    (d.entries.flatMap (entryLines ascii d.values) ++ d.footer.map .comment)

/-- The properties on these lines. -/
def properties (ascii : Bool) (d : FileParts) : List Property :=
  ReadLine.properties 1 [] (d.lines ascii)

/-- The values that reading gives. -/
def readValues (ascii : Bool) (d : FileParts) : Values :=
  Values.addPairs .empty ((d.properties ascii).map Property.pair)

/-- **A settled file**: its parts are bounded where reading finds the
bounds. -/
structure IsSettled (ascii : Bool) (d : FileParts) : Prop where
  /-- No key occurs twice. -/
  keys : (d.entries.map Prod.fst).Nodup
  /-- Every key has a value. -/
  values : ∀ x ∈ d.entries, d.values.list x.1 ≠ []
  /-- Comments do not start with a blank line. -/
  comments : ∀ x ∈ d.entries, StartsFilled (commentLines x.2.comment)
  /-- Without a key there is no header. -/
  headless : d.entries = [] → d.header = []
  /-- The header ends where it is cut off. -/
  header : ∀ x ∈ d.entries.head?, headerLines (d.header ++ blockLines x.2) = d.header
  /-- Every line is read by itself. -/
  reads : ∀ l ∈ d.lines ascii, l.Reads

variable {ascii : Bool} {d : FileParts}

/-- The block of an entry has the lines that make the entry. -/
theorem blockLines_firstEntry {block : List Text}
    (h : ∀ c ∈ block, isCommentLine c = true ∧ IsLine c) (separator : Text) :
    blockLines (firstEntry block separator) = block :=
  lines_firstEntry h separator

/-- The comment of an entry that is made of lines does not start with a
blank one. -/
theorem startsFilled_firstEntry {block : List Text}
    (h : ∀ c ∈ block, isCommentLine c = true ∧ IsLine c) (separator : Text) :
    StartsFilled (commentLines (firstEntry block separator).comment) := by
  have hsub := List.dropWhile_subset (l := block) (· = [])
  have hcomment : commentLines (firstEntry block separator).comment
      = block.dropWhile (· = []) :=
    commentLines_ofLines (fun c hc => (h c (hsub hc)).1) fun c hc => (h c (hsub hc)).2
  rw [StartsFilled, hcomment]
  intro hhead
  obtain ⟨rest, hrest⟩ := List.head?_eq_some_iff.1 hhead
  have hne : block.dropWhile (· = []) ≠ [] := by
    rw [hrest]
    exact List.cons_ne_nil _ _
  have hfirst := List.head_dropWhile_not (fun c : Text => decide (c = [])) hne
  simp [hrest] at hfirst

/-! ## Reading settled files -/

/-- Reading again finds the same lines before a key. -/
theorem blockLines_reread {values : Values} {x : Text × Entry}
    (h : ∀ l ∈ commentLines x.2.comment, IsLine l) :
    blockLines (reread values x).2 = blockLines x.2 := by
  have hcomment : commentLines (reread values x).2.comment = commentLines x.2.comment := by
    show commentLines (x.2.comment.map (Comment.canonical true)) = _
    rw [← ofLines_commentLines]
    exact commentLines_ofLines (fun _ hc => isCommentLine_of_mem_commentLines hc) h
  rw [blockLines, hcomment]
  rfl

/-- What is written for a key depends on its block, its separator and its
values. -/
theorem entryLines_congr {values values' : Values} {x y : Text × Entry} (hkey : y.1 = x.1)
    (hblock : blockLines y.2 = blockLines x.2) (hseparator : y.2.separator = x.2.separator)
    (hvalues : values'.list x.1 = values.list x.1) :
    entryLines ascii values' y = entryLines ascii values x := by
  rw [entryLines, entryLines, hkey, hblock, hseparator, hvalues]

namespace IsSettled

variable (h : d.IsSettled ascii)

include h

/-- The footer is what is left over. -/
theorem trailing_eq : ReadLine.trailing [] (d.lines ascii) = d.footer := by
  rw [lines, ReadLine.trailing_comments, List.nil_append]
  cases hentries : d.entries with
  | nil =>
    have hfooter := ReadLine.trailing_comments d.header d.footer []
    rw [List.append_nil, h.headless hentries] at hfooter
    rw [h.headless hentries]
    exact hfooter
  | cons x rest =>
    have hvalues := h.values
    rw [hentries] at hvalues
    obtain ⟨hvalue, hvalues⟩ := List.forall_mem_cons.1 hvalues
    rw [List.flatMap_cons, List.append_assoc, trailing_entryLines hvalue,
      trailing_flatMap_entryLines hvalues]

/-- The properties and the footer are read as such. -/
theorem reading_eq : Reading.ofLines [] ((d.lines ascii).map ReadLine.text)
    = ⟨d.properties ascii, .complete d.footer⟩ := by
  rw [Reading.ofLines, ReadLine.run_readLines h.reads, h.trailing_eq, properties]

/-- The header is found, and the properties behind it. -/
theorem header_eq : headerOf (d.properties ascii) = d.header ∧
    withoutHeader (d.properties ascii)
      = ReadLine.properties (1 + d.header.length) []
          (d.entries.flatMap (entryLines ascii d.values) ++ d.footer.map .comment) := by
  rw [properties, lines, ReadLine.properties_comments, List.nil_append]
  cases hentries : d.entries with
  | nil =>
    have hnone := fun pending => ReadLine.properties_comments (1 + d.header.length) pending
      d.footer []
    simp only [List.append_nil] at hnone
    rw [List.flatMap_nil, List.nil_append, hnone, hnone, h.headless hentries]
    exact ⟨rfl, rfl⟩
  | cons x rest =>
    have hvalue := h.values x (hentries ▸ List.mem_cons_self)
    rw [List.flatMap_cons, List.append_assoc]
    exact withoutHeader_entryLines hvalue (h.header x (by rw [hentries]; rfl)) _ _

/-- The entries are found. -/
theorem entries_eq :
    (entriesOf .empty (withoutHeader (d.properties ascii))).entries
      = d.entries.map (reread d.values) := by
  rw [h.header_eq.2]
  exact entries_entriesOf_entryLines h.keys h.values h.comments (fun _ _ => List.not_mem_nil) _ _

/-- The values are found. -/
theorem list_eq : ∀ x ∈ d.entries,
    x.1 ∈ (d.readValues ascii).keys ∧ (d.readValues ascii).list x.1 = d.values.list x.1 := by
  have hpairs : (d.properties ascii).map Property.pair
      = d.entries.flatMap fun x => d.values.pairsOf x.1 := by
    rw [properties, lines, ReadLine.properties_comments]
    exact (ReadLine.pairs_properties _ _ _).trans (pairs_entryLines _ _ _ _)
  have hentries := Values.entries_addPairs h.keys h.values (m := .empty)
    fun _ _ => List.not_mem_nil
  intro x hx
  have hget : (d.readValues ascii).get? x.1 = some (d.values.list x.1) := by
    rw [readValues, hpairs, OrderedMap.get?_eq_some_iff, hentries]
    exact List.mem_map.2 ⟨x, hx, rfl⟩
  refine ⟨List.mem_map_of_mem (OrderedMap.get?_eq_some_iff.1 hget), ?_⟩
  rw [Values.list, hget]
  rfl

/-- Behind a header the first key has a blank line already. -/
theorem parted_eq (leading : Bool) (hleading : leading = true → d.header ≠ []) :
    parted leading (d.entries.map (reread d.values)) = d.entries.map (reread d.values) := by
  cases hentries : d.entries with
  | nil => rfl
  | cons x rest =>
    cases leading with
    | false => rfl
    | true =>
      have hheader := h.header x (by rw [hentries]; rfl)
      have hhead : ((d.header ++ blockLines x.2).drop
          (headerLines (d.header ++ blockLines x.2)).length).head? = some [] :=
        head?_drop_headerLines (by rw [hheader]; exact hleading rfl)
      rw [hheader, List.drop_left] at hhead
      have hblank : 1 ≤ x.2.blankLines := by
        by_contra hzero
        refine h.comments x (hentries ▸ List.mem_cons_self) ?_
        rw [blockLines, Nat.eq_zero_of_not_pos hzero] at hhead
        exact hhead
      rw [List.map_cons, reread, parted, if_pos rfl, Nat.max_eq_left hblank]

/-- The lines of the entries that are found. -/
theorem flatMap_segmentsFrom_eq (hline : ∀ l ∈ d.lines ascii, IsLine l.text) {l : Layout}
    {style : WriteStyle} (hstyle : style.delimiter = none) (hglobal : l.globalSeparator = none)
    (hascii : style.ascii = ascii) :
    (l.segmentsFrom style (d.readValues ascii) (Comment.ofLines d.header).isSome
        (d.entries.map (reread d.values))).flatMap Segment.lines
      = (d.entries.flatMap (entryLines ascii d.values)).map ReadLine.text := by
  have hkeys : ∀ y ∈ d.entries.map (reread d.values), y.1 ∈ (d.readValues ascii).keys := by
    intro y hy
    obtain ⟨x, hx, rfl⟩ := List.mem_map.1 hy
    exact (h.list_eq x hx).1
  have hleading : (Comment.ofLines d.header).isSome = true → d.header ≠ [] := by
    intro hsome hnil
    rw [hnil] at hsome
    exact absurd hsome Bool.false_ne_true
  -- an entry is written as it was, with the same values
  have hentry : ∀ x ∈ d.entries, entryLines ascii (d.readValues ascii) (reread d.values x)
      = entryLines ascii d.values x := by
    intro x hx
    refine entryLines_congr rfl (blockLines_reread fun l hl => ?_) rfl (h.list_eq x hx).2
    refine hline (.comment l) (List.mem_append_right _ (List.mem_append_left _ ?_))
    exact List.mem_flatMap.2 ⟨x, hx, List.mem_append_left _
      (List.mem_map_of_mem (List.mem_append_right _ hl))⟩
  rw [flatMap_segmentsFrom_parted hstyle hglobal hkeys, h.parted_eq _ hleading, hascii,
    List.flatMap_map, List.flatMap_congr hentry]

/-- **A settled file is read and written back unchanged.** -/
theorem read_unchanged {o : StoreOptions} (ho : o.IsPlain) (hascii : o.escapeUnicode = ascii)
    (src : Sources) (source : Option Text) {b : LineBreak} {t : Text} (hbreak : Uniform b t)
    (ht : (ofText t).lines = (d.lines ascii).map ReadLine.text) :
    ∃ st, (Store.fresh o true).read src source t = (.ok (), st, []) ∧ st.toText = t := by
  have hline : ∀ l ∈ d.lines ascii, IsLine l.text :=
    fun l hl => isLine_of_mem_lines (ht ▸ List.mem_map_of_mem hl)
  have hblock : ∀ block : List Text, (∀ c ∈ block, .comment c ∈ d.lines ascii) →
      commentLines (Comment.ofLines block) = block :=
    fun block hc => commentLines_ofLines (fun c hmem => h.reads _ (hc c hmem))
      fun c hmem => hline _ (hc c hmem)
  have hheader : commentLines (Comment.ofLines d.header) = d.header :=
    hblock _ fun c hc => List.mem_append_left _ (List.mem_map_of_mem hc)
  have hfooter : commentLines (Comment.ofLines d.footer) = d.footer :=
    hblock _ fun c hc => List.mem_append_right _ (List.mem_append_right _ (List.mem_map_of_mem hc))
  refine ⟨_, Store.read_fresh ho true src source (ht ▸ h.reading_eq), ?_⟩
  generalize hst : Store.loaded o true (ofText t) (d.properties ascii) d.footer = st
  have hstyle : st.style = ⟨o.delimiter, o.escapeUnicode⟩ := hst ▸ rfl
  have hlayout : st.layout.header = Comment.ofLines d.header ∧
      st.layout.entries.entries = d.entries.map (reread d.values) ∧
      st.layout.footer = Comment.ofLines d.footer := by
    rw [← hst]
    exact ⟨congrArg Comment.ofLines h.header_eq.1, h.entries_eq, rfl⟩
  obtain ⟨hhead, hentries, hfoot⟩ := hlayout
  have hlines : st.layout.lines st.style st.values = (ofText t).lines := by
    rw [Layout.lines, Layout.segments, hhead, hentries, hfoot, hheader, hfooter,
      show st.values = d.readValues ascii from hst ▸ rfl,
      h.flatMap_segmentsFrom_eq hline (by rw [hstyle]; exact ho.delimiter) (hst ▸ rfl)
        (by rw [hstyle]; exact hascii), ht, lines, List.map_append, List.map_append,
      ReadLine.map_text_comments, ReadLine.map_text_comments, List.append_assoc]
  have htext := textOfLines_lineSeparator hbreak (List.Sublist.refl (ofText t).lines)
  rw [textOfLines_ofText hbreak] at htext
  rw [Store.toText, Layout.save, hlines]
  exact hst ▸ htext

end IsSettled

/-! ## Settling a file -/

/-- The key with the entry that the lines before it make. -/
def settledEntry (x : Text × Entry) (block : List Text) : Text × Entry :=
  (x.1, firstEntry block x.2.separator)

/-- **The file with its bounds drawn anew**: the header ends where it is
cut off, and comments begin behind the blank lines. Without a key every
line belongs to the footer. -/
def settle (d : FileParts) : FileParts :=
  match d.entries with
  | [] => { d with header := [], footer := d.header ++ d.footer }
  | x :: rest =>
    let block := d.header ++ blockLines x.2
    { d with
      header := headerLines block
      entries := settledEntry x (block.drop (headerLines block).length)
        :: rest.map fun y => settledEntry y (blockLines y.2) }

/-- What is written for a key whose block was divided anew. -/
theorem entryLines_settledEntry {values : Values} {x : Text × Entry} {block : List Text}
    (h : ∀ c ∈ block, isCommentLine c = true ∧ IsLine c) :
    entryLines ascii values (settledEntry x block)
      = block.map .comment ++ (values.list x.1).map fun v =>
          .property (propertyLine ascii x.1 x.2.separator (Escape.value ascii x.2.separator v))
            x.1 x.2.separator v := by
  rw [entryLines, settledEntry, blockLines_firstEntry h]
  rfl

section

variable (hreads : ∀ l ∈ d.lines ascii, l.Reads ∧ IsLine l.text)

include hreads

/-- The lines before a key are comment lines. -/
theorem isCommentLine_blockLines : ∀ x ∈ d.entries, ∀ c ∈ blockLines x.2,
    isCommentLine c = true ∧ IsLine c :=
  fun x hx c hc => hreads (.comment c) (List.mem_append_right _ (List.mem_append_left _
    (List.mem_flatMap.2 ⟨x, hx, List.mem_append_left _ (List.mem_map_of_mem hc)⟩)))

/-- So are those before the first key, with the header. -/
theorem isCommentLine_header_append : ∀ x ∈ d.entries, ∀ c ∈ d.header ++ blockLines x.2,
    isCommentLine c = true ∧ IsLine c := by
  intro x hx c hc
  obtain hc | hc := List.mem_append.1 hc
  · exact hreads (.comment c) (List.mem_append_left _ (List.mem_map_of_mem hc))
  · exact isCommentLine_blockLines hreads x hx c hc

/-- The bounds between its parts are no lines of the file. -/
theorem lines_settle : d.settle.lines ascii = d.lines ascii := by
  have hblock := isCommentLine_blockLines hreads
  have hfirst := isCommentLine_header_append hreads
  unfold settle lines
  cases hentries : d.entries with
  | nil => simp
  | cons x rest =>
    rw [hentries] at hblock hfirst
    have hdrop : ∀ c ∈ (d.header ++ blockLines x.2).drop
        (headerLines (d.header ++ blockLines x.2)).length, isCommentLine c = true ∧ IsLine c :=
      fun c hc => hfirst x List.mem_cons_self c (List.mem_of_mem_drop hc)
    have hrest : ∀ y ∈ rest, entryLines ascii d.values (settledEntry y (blockLines y.2))
        = entryLines ascii d.values y :=
      fun y hy => entryLines_settledEntry (hblock y (List.mem_cons_of_mem x hy))
    have hheader := congrArg (List.map ReadLine.comment)
      (headerLines_append_drop (d.header ++ blockLines x.2))
    rw [List.map_append, List.map_append] at hheader
    dsimp only
    rw [List.flatMap_cons, List.flatMap_map, List.flatMap_congr hrest,
      entryLines_settledEntry hdrop, List.flatMap_cons, entryLines]
    simp only [← List.append_assoc]
    rw [hheader]

/-- **Every file whose lines are read by themselves can be settled.** -/
theorem isSettled_settle (hkeys : (d.entries.map Prod.fst).Nodup)
    (hvalues : ∀ x ∈ d.entries, d.values.list x.1 ≠ []) : d.settle.IsSettled ascii := by
  have hlines := lines_settle hreads
  have hblock := isCommentLine_blockLines hreads
  have hfirst := isCommentLine_header_append hreads
  have hread : ∀ l ∈ d.settle.lines ascii, l.Reads := fun l hl => (hreads l (hlines ▸ hl)).1
  revert hread
  unfold settle
  cases hentries : d.entries with
  | nil =>
    exact fun hread => ⟨List.nodup_nil, fun x hx => absurd hx List.not_mem_nil,
      fun x hx => absurd hx List.not_mem_nil, fun _ => rfl, fun x hx => absurd hx nofun, hread⟩
  | cons x rest =>
    rw [hentries] at hkeys hvalues hblock hfirst
    obtain ⟨hvalue, hvalues⟩ := List.forall_mem_cons.1 hvalues
    have hdrop : ∀ c ∈ (d.header ++ blockLines x.2).drop
        (headerLines (d.header ++ blockLines x.2)).length, isCommentLine c = true ∧ IsLine c :=
      fun c hc => hfirst x List.mem_cons_self c (List.mem_of_mem_drop hc)
    intro hread
    refine ⟨?_, ?_, ?_, fun hnil => absurd hnil (List.cons_ne_nil _ _), ?_, hread⟩
    · rw [List.map_cons, List.map_map]
      exact hkeys
    · refine List.forall_mem_cons.2 ⟨hvalue, List.forall_mem_map.2 fun y hy => ?_⟩
      exact hvalues y hy
    · refine List.forall_mem_cons.2 ⟨startsFilled_firstEntry hdrop _, List.forall_mem_map.2 ?_⟩
      exact fun y hy => startsFilled_firstEntry (hblock y (List.mem_cons_of_mem x hy)) _
    · intro y hy
      obtain rfl := Option.some.inj hy
      dsimp only [settledEntry]
      rw [blockLines_firstEntry hdrop, headerLines_append_drop]

end

/-- A settled file is still settled without a blank line at its end. -/
theorem IsSettled.dropLast (h : d.IsSettled ascii) {ls : List Text}
    (hblank : (d.lines ascii).map ReadLine.text = ls ++ [[]]) :
    ∃ d' : FileParts, d'.IsSettled ascii ∧ (d'.lines ascii).map ReadLine.text = ls := by
  obtain ⟨init, last, hsplit, rfl, hlast⟩ := List.map_eq_append_iff.1 hblank
  obtain ⟨l, rfl, hl⟩ := List.map_eq_singleton_iff.1 hlast
  -- only a comment line can be blank, and it was left over
  have hcomment : l = .comment [] := by
    have hread := h.reads l (hsplit ▸ List.mem_append_right _ List.mem_cons_self)
    cases l with
    | comment line => exact congrArg ReadLine.comment hl
    | property line key separator value =>
      obtain rfl : line = [] := hl
      exact absurd hread.notComment nofun
  have htrailing := h.trailing_eq
  rw [hsplit, hcomment, ReadLine.trailing_concat] at htrailing
  have hlines : d.lines ascii
      = ({ d with footer := ReadLine.trailing [] init } : FileParts).lines ascii ++ [l] := by
    rw [lines, lines, ← htrailing, hcomment]
    simp
  have hinit := (List.append_inj' (hsplit.symm.trans hlines) rfl).1
  refine ⟨{ d with footer := ReadLine.trailing [] init },
    ⟨h.keys, h.values, h.comments, h.headless, h.header, fun l hl => h.reads l ?_⟩, ?_⟩
  · rw [hlines]
    exact List.mem_append_left _ hl
  · exact congrArg (List.map ReadLine.text) hinit.symm

end FileParts

/-! ## Lines of loaded stores -/

/-- A key and a separator that a property line can start with. -/
structure IsLineStart (k s : Text) : Prop where
  /-- The separator is one. -/
  separator : IsSeparator s
  /-- It is not empty. -/
  ne_nil : s ≠ []
  /-- The key does not start with a blank. -/
  key : ∀ c rest, k = c :: rest → isBlank c = false
  /-- An empty key leaves the line to an assignment mark. -/
  keyless : k = [] → NoIndent s ∧ s.any isAssign = true

/-- **The line of a value is read as the value.** -/
theorem IsLineStart.isPropertyLine {k s : Text} (h : IsLineStart k s) (ascii : Bool) (v : Text) :
    IsPropertyLine (propertyLine ascii k s (Escape.value ascii s v)) k s v := by
  suffices hstart : NoIndent (propertyLine ascii k s (Escape.value ascii s v)) ∧
      isCommentLine (propertyLine ascii k s (Escape.value ascii s v)) = false from
    isPropertyLine_propertyLine ascii h.separator (.inl h.ne_nil) hstart.1 hstart.2
  cases k with
  | cons c rest => exact propertyLine_starts (h.key c rest rfl) _ _
  | nil =>
    obtain ⟨hindent, hany⟩ := h.keyless rfl
    obtain ⟨a, rest, rfl⟩ := List.exists_cons_of_ne_nil h.ne_nil
    have hassign : a = '=' ∨ a = ':' := by
      have ha := (h.separator.chars a List.mem_cons_self).resolve_left
        (Bool.not_eq_true _ ▸ hindent a rest rfl)
      simpa [isAssign] using ha
    refine ⟨fun d t hline => ?_, ?_⟩
    · obtain ⟨rfl, -⟩ := List.cons.inj hline
      exact hindent a rest rfl
    · obtain rfl | rfl := hassign
      · rfl
      · rfl

/-- The separator behind an empty key starts its line. -/
theorem Property.noIndent_separator {kept text : Text} {pending : List Text} {number : Nat}
    {p : Property} (htext : NoIndent text)
    (h : Property.ofLine kept pending number text = .ok p) (hkey : p.key = []) :
    NoIndent p.separator := by
  unfold Property.ofLine at h
  dsimp only at h
  cases hk : unescape [] (LineParts.ofLine text).key with
  | error e => rw [hk] at h; exact absurd h nofun
  | ok key =>
    cases hv : unescape kept (LineParts.ofLine text).value with
    | error e => rw [hk, hv] at h; exact absurd h nofun
    | ok value =>
      rw [hk, hv] at h
      obtain rfl := Except.ok.inj h
      have hempty : (LineParts.ofLine text).key = [] :=
        Unescape.eq_nil_of_unescape_eq_nil (hk.trans (congrArg Except.ok hkey))
      have happend := LineParts.ofLine_append text
      rw [hempty, List.nil_append] at happend
      intro c rest hseparator
      refine htext c (rest ++ (LineParts.ofLine text).value) (happend.symm.trans ?_)
      exact congrArg (· ++ (LineParts.ofLine text).value) hseparator

/-- What is read can be written at the start of a line, if its separator
is not empty and its key does not start with a blank. -/
theorem Reading.isLineStart_ofLines {kept : Text} {lines : List Text} {properties : List Property}
    {trailing : List Text} (h : Reading.ofLines kept lines = ⟨properties, .complete trailing⟩)
    (hplain : ∀ p ∈ properties,
      p.separator ≠ [] ∧ ∀ c rest, p.key = c :: rest → isBlank c = false) :
    ∀ p ∈ properties, IsLineStart p.key p.separator := by
  have hread := (Reading.isRead_ofLines kept lines).1
  rw [h] at hread
  rw [LogicalLine.ofLines_eq_read] at h
  have hbare := (LogicalLine.isReadable_of_read h).2
  intro p hp
  obtain ⟨hne, hkey⟩ := hplain p hp
  refine ⟨(hread p hp).separator, hne, hkey, fun hnil => ⟨?_, ?_⟩⟩
  · -- the property is on a logical line, which is not indented
    have hmem : p.bare ∈ (LogicalLine.cut none lines).filterMap (LogicalLine.bare? kept) :=
      hbare ▸ List.mem_map_of_mem hp
    obtain ⟨l, hl, hlp⟩ := List.mem_filterMap.1 hmem
    cases l with
    | comment line => exact absurd hlp nofun
    | unterminated ls => exact absurd hlp nofun
    | property ls text =>
      have htext := @LogicalLine.noIndent_text none (fun b hb => absurd hb nofun) _ _ _ hl
      cases hline : Property.ofLine kept [] 0 text with
      | error e =>
        rw [LogicalLine.bare?, hline] at hlp
        cases hlp
      | ok q =>
        rw [LogicalLine.bare?, hline] at hlp
        obtain rfl := Option.some.inj hlp
        exact Property.noIndent_separator (p := p.bare) htext hline hnil
  · exact ((hread p hp).keyless hnil).resolve_left hne

namespace Layout

/-- What holds of the keys and separators of properties holds of those of
their entries. -/
theorem separator_entriesOf {Q : Text → Text → Prop} {properties : List Property}
    (h : ∀ p ∈ properties, Q p.key p.separator) {m : OrderedMap Entry}
    (hm : ∀ k e, m.get? k = some e → Q k e.separator) :
    ∀ k e, (entriesOf m properties).get? k = some e → Q k e.separator := by
  induction properties generalizing m with
  | nil => exact hm
  | cons p rest ih =>
    obtain ⟨hp, hrest⟩ := List.forall_mem_cons.1 h
    refine ih hrest fun k e he => ?_
    rw [OrderedMap.get?_update] at he
    by_cases hk : k = p.key
    · subst hk
      rw [if_pos rfl] at he
      obtain rfl := Option.some.inj he
      -- the separator is that of the first occurrence
      cases hget : m.get? p.key with
      | none => exact hp
      | some old => exact hm p.key old hget
    · rw [if_neg hk] at he
      exact hm k e he

theorem separator_withoutHeader {Q : Text → Text → Prop} {properties : List Property}
    (h : ∀ p ∈ properties, Q p.key p.separator) :
    ∀ p ∈ withoutHeader properties, Q p.key p.separator := by
  cases properties with
  | nil => exact h
  | cons p rest => exact List.forall_mem_cons.2 (List.forall_mem_cons.1 h)

end Layout

namespace Store

open Layout

/-- The parts of the file of a store. -/
def parts (st : Store) : FileParts where
  header := commentLines st.layout.header
  entries := parted st.layout.header.isSome st.layout.entries.entries
  values := st.values
  footer := commentLines st.layout.footer

namespace IsSound

variable {st : Store} (h : st.IsSound)

include h

/-- The lines of the file are those of its parts. -/
theorem lines_parts : st.layout.lines st.style st.values
    = (st.parts.lines st.options.escapeUnicode).map ReadLine.text := by
  have hvalues : ∀ x ∈ st.layout.entries.entries, x.1 ∈ st.values.keys :=
    fun x hx => (h.keys x.1).1 (List.mem_map_of_mem hx)
  unfold Layout.lines segments
  rw [flatMap_segmentsFrom_parted h.plain.delimiter h.globalSeparator hvalues, FileParts.lines,
    List.map_append, List.map_append, ReadLine.map_text_comments, ReadLine.map_text_comments,
    List.append_assoc]
  rfl

theorem values_parts : ∀ x ∈ st.parts.entries, st.parts.values.list x.1 ≠ [] := by
  intro x hx
  obtain ⟨y, hy, hkey, -, -⟩ := mem_of_mem_parted hx
  have hmem : y.1 ∈ st.values.keys := (h.keys y.1).1 (List.mem_map_of_mem hy)
  cases hget : st.values.get? x.1 with
  | none => exact absurd (hkey ▸ hmem) (OrderedMap.get?_eq_none_iff.1 hget)
  | some vs =>
    show (st.values.get? x.1).getD [] ≠ []
    rw [hget]
    exact h.values x.1 vs hget

/-- Every line of the file is read by itself. -/
theorem reads_parts (hstart : ∀ x ∈ st.layout.entries.entries, IsLineStart x.1 x.2.separator) :
    ∀ l ∈ st.parts.lines st.options.escapeUnicode, l.Reads ∧ IsLine l.text := by
  have hblock : ∀ block : Option Text, (∀ t ∈ block, '\r' ∉ t) →
      ∀ l ∈ (commentLines block).map ReadLine.comment, l.Reads ∧ IsLine l.text := by
    intro block hb l hl
    obtain ⟨line, hline, rfl⟩ := List.mem_map.1 hl
    exact ⟨isCommentLine_of_mem_commentLines hline, isLine_of_mem_commentLines hb hline⟩
  intro l hl
  obtain hl | hl := List.mem_append.1 hl
  · exact hblock _ h.header l hl
  obtain hl | hl := List.mem_append.1 hl
  · obtain ⟨x, hx, hl⟩ := List.mem_flatMap.1 hl
    obtain ⟨y, hy, hkey, hseparator, hcomment⟩ := mem_of_mem_parted hx
    have hentry := h.entries y.1 y.2 (OrderedMap.get?_eq_some_iff.2 hy)
    obtain hl | hl := List.mem_append.1 hl
    · rw [blockLines, List.map_append] at hl
      obtain hl | hl := List.mem_append.1 hl
      · obtain ⟨line, hline, rfl⟩ := List.mem_map.1 hl
        rw [List.eq_of_mem_replicate hline]
        exact ⟨rfl, isLine_nil⟩
      · exact hblock _ (fun t ht => hentry.comment t (hcomment ▸ ht)) l hl
    · obtain ⟨v, -, rfl⟩ := List.mem_map.1 hl
      have hline := hstart y hy
      rw [← hkey, ← hseparator] at hline
      exact ⟨hline.isPropertyLine _ v, isLine_propertyLine _ _ v hline.separator⟩
  · exact hblock _ h.footer l hl

/-- **What a sound store is saved as is saved unchanged**, if the line of
every value is read as the value. -/
theorem exists_toText_eq (hstart : ∀ x ∈ st.layout.entries.entries, IsLineStart x.1 x.2.separator)
    {o : StoreOptions} (ho : o.IsPlain) (hascii : o.escapeUnicode = st.options.escapeUnicode)
    (src : Sources) (source : Option Text) :
    ∃ st', (fresh o true).read src source st.toText = (.ok (), st', []) ∧
      st'.toText = st.toText := by
  have hreads := h.reads_parts hstart
  have hkeys : (st.parts.entries.map Prod.fst).Nodup := by
    rw [parts, keys_parted]
    exact st.layout.entries.nodup
  have hsettled := FileParts.isSettled_settle hreads hkeys h.values_parts
  have hlines : st.layout.lines st.style st.values
      = (st.parts.settle.lines st.options.escapeUnicode).map ReadLine.text := by
    rw [FileParts.lines_settle hreads, h.lines_parts]
  have hline : ∀ line ∈ st.layout.lines st.style st.values, IsLine line := by
    rw [h.lines_parts]
    exact List.forall_mem_map.2 fun l hl => (hreads l hl).2
  obtain ⟨b, hb⟩ := h.lineBreak
  have htext : st.toText
      = textOfLines b.chars st.layout.finalNewline (st.layout.lines st.style st.values) := by
    rw [toText, Layout.save, hb]
  have hbreak : Uniform b st.toText := htext ▸ uniform_textOfLines b _ hline
  obtain ⟨blank, hblank, hsplit⟩ := lines_ofText_textOfLines b st.layout.finalNewline hline
  rw [← htext, hlines] at hsplit
  obtain rfl | rfl := hblank
  · rw [List.append_nil] at hsplit
    exact hsettled.read_unchanged ho hascii src source hbreak hsplit
  · obtain ⟨d, hd, hdlines⟩ := hsettled.dropLast hsplit.symm
    exact hd.read_unchanged ho hascii src source hbreak hdlines.symm

end IsSound

/-- **Saving normalizes once.** A text that reads into a fresh plain
store, with a separator behind every key and no key that starts with a
blank, is saved as a text that reads again and is saved unchanged. -/
theorem toText_read_toText {o : StoreOptions} (ho : o.IsPlain) {src : Sources}
    {source : Option Text} {t : Text} {st : Store} {notices : List Notice}
    (h : (fresh o true).read src source t = (.ok (), st, notices))
    (hproperties : ∀ p ∈ (Reading.ofLines [] (ofText t).lines).properties,
      p.separator ≠ [] ∧ ∀ c rest, p.key = c :: rest → isBlank c = false)
    (src' : Sources) (source' : Option Text) :
    ∃ st', (fresh o true).read src' source' st.toText = (.ok (), st', []) ∧
      st'.toText = st.toText := by
  have hok : ((fresh o true).read src source t).1 = .ok () := congrArg Prod.fst h
  obtain ⟨properties, trailing, hreading⟩ := complete_of_read_ok ho hok
  rw [hreading] at hproperties
  obtain rfl : st = loaded o true (ofText t) properties trailing := by
    rw [read_fresh ho true src source hreading] at h
    exact (Prod.mk.inj (Prod.mk.inj h).2).1.symm
  generalize hst : loaded o true (ofText t) properties trailing = st
  have hsound : st.IsSound := hst ▸ isSound_loaded ho true hreading
  have hstart : ∀ x ∈ st.layout.entries.entries, IsLineStart x.1 x.2.separator := by
    intro x hx
    rw [← hst] at hx
    exact Layout.separator_entriesOf (Q := IsLineStart) (m := .empty)
      (Layout.separator_withoutHeader (Reading.isLineStart_ofLines hreading hproperties))
      (fun k e he => absurd he nofun) x.1 x.2 (OrderedMap.get?_eq_some_iff.2 hx)
  have hoptions : st.options.escapeUnicode = o.escapeUnicode := hst ▸ rfl
  exact hsound.exists_toText_eq hstart ho hoptions.symm src' source'

/-- The comment of the second occurrence has a blank line inside: the
second load takes what is in front of it for the header. -/
theorem toText_read_toText_merged :
    ∃ st, (fresh { includeKey := none, includeOptionalKey := none } true).read
        (Sources.inMemory [] []) none "k = 1\r\n\n# b\n\n# c\nk : \\\n  2\n=e".toList
        = (.ok (), st, []) ∧
      st.toText = "# b\r\n\r\n# c\r\nk = 1\r\nk = 2\r\n=e".toList ∧
      ∃ st', (fresh { includeKey := none, includeOptionalKey := none } true).read
          (Sources.inMemory [] []) none st.toText = (.ok (), st', []) ∧
        st'.toText = st.toText := by
  have hreading : Reading.ofLines []
      (ofText "k = 1\r\n\n# b\n\n# c\nk : \\\n  2\n=e".toList).lines
      = ⟨[⟨['k'], ['1'], " = ".toList, [], 1⟩,
          ⟨['k'], ['2'], " : ".toList, [[], "# b".toList, [], "# c".toList], 6⟩,
          ⟨[], ['e'], ['='], [], 8⟩], .complete []⟩ := by
    decide +kernel
  have hproperties : ∀ p ∈ (Reading.ofLines []
      (ofText "k = 1\r\n\n# b\n\n# c\nk : \\\n  2\n=e".toList).lines).properties,
      p.separator ≠ [] ∧ ∀ c rest, p.key = c :: rest → isBlank c = false := by
    have hk : ∀ c rest, ['k'] = c :: rest → isBlank c = false := by
      rintro c rest h
      obtain ⟨rfl, -⟩ := List.cons.inj h
      rfl
    rw [hreading]
    simp only [List.forall_mem_cons]
    exact ⟨⟨by decide, hk⟩, ⟨by decide, hk⟩, ⟨by decide, fun _ _ h => by cases h⟩,
      fun _ h => absurd h List.not_mem_nil⟩
  have hread := read_fresh (o := { includeKey := none, includeOptionalKey := none })
    ⟨rfl, rfl, rfl⟩ true (Sources.inMemory [] []) none hreading
  exact ⟨_, hread, by decide +kernel,
    toText_read_toText ⟨rfl, rfl, rfl⟩ hread hproperties (Sources.inMemory [] []) none⟩

end Store

end PropertyFile
