import PropertyFile.Proofs.Loading
import PropertyFile.Proofs.PhysicalLine
import PropertyFile.Proofs.Writing

/-!
# Loading and saving a canonical text

A text is **canonical** if every one of its lines is a comment line or
the line that some property is written on, if no key occurs twice and if
all its line breaks are alike. Loading such a text into a fresh store
and writing the store gives the text back, character by character
(`toText_read`). Where blank lines at the end are not kept, it gives the
text without them.

The proof has two halves that meet at the list of properties that are
read. Reading gives every line a place: before a property, on it, or
behind the last one (`lines_properties`). Writing puts the lines at
these places down again in the same order (`lines_loaded`): the header
and the comment of the first key are parted by a blank line, so none has
to be added, and no key has more than one line.
-/

namespace PropertyFile

open Text PhysicalLines

/-! ## Canonical texts -/

/-- What a line of a canonical text stands for. -/
inductive DocumentLine where
  /-- A comment or blank line. -/
  | comment (line : Text)
  /-- A property. -/
  | property (key separator value : Text)
deriving DecidableEq, Repr

namespace DocumentLine

/-- The line as it is written. -/
def text (ascii : Bool) : DocumentLine → Text
  | comment line => line
  | property key separator value =>
    propertyLine ascii key separator (Escape.value ascii separator value)

/-- The key on the line, if it is a property. -/
def key? : DocumentLine → Option Text
  | comment _ => none
  | property key _ _ => some key

/-- **A canonical line**: a comment line, or a property whose separator
is one and is not empty unless the value is, on a line that is no comment
line and does not start with spacing. -/
def IsCanonical (ascii : Bool) : DocumentLine → Prop
  | comment line => isCommentLine line = true
  | property key separator value =>
    IsSeparator separator ∧ (separator ≠ [] ∨ value = []) ∧
      isCommentLine (text ascii (property key separator value)) = false ∧
      NoIndent (text ascii (property key separator value))

/-- What the line is read as. -/
def readLine (ascii : Bool) : DocumentLine → ReadLine
  | comment line => .comment line
  | property key separator value =>
    .property (text ascii (property key separator value)) key separator value

theorem text_readLine (ascii : Bool) (l : DocumentLine) :
    (l.readLine ascii).text = l.text ascii := by
  cases l <;> rfl

theorem IsCanonical.reads {ascii : Bool} {l : DocumentLine} (h : l.IsCanonical ascii) :
    (l.readLine ascii).Reads := by
  cases l with
  | comment line => exact h
  | property key separator value =>
    obtain ⟨hs, hv, hcomment, hindent⟩ := h
    exact isPropertyLine_propertyLine ascii hs hv hindent hcomment

end DocumentLine

/-! ## Reading gives every line a place -/

/-- The line that a property is written on. -/
def Property.written (ascii : Bool) (p : Property) : Text :=
  propertyLine ascii p.key p.separator (Escape.value ascii p.separator p.value)

namespace ReadLine

variable {ascii : Bool}

/-- **Reading gives every line a place**: before a property, on it, or
behind the last one. -/
theorem lines_properties (doc : List DocumentLine) (number : Nat) (pending : List Text) :
    (properties number pending (doc.map (DocumentLine.readLine ascii))).flatMap
        (fun p => p.comments ++ [p.written ascii])
      ++ trailing pending (doc.map (DocumentLine.readLine ascii))
      = pending ++ doc.map (DocumentLine.text ascii) := by
  induction doc generalizing number pending with
  | nil => exact (List.append_nil pending).symm
  | cons l rest ih =>
    cases l with
    | comment line =>
      refine (ih (number + 1) (pending ++ [line])).trans ?_
      rw [List.append_assoc]
      rfl
    | property key separator value =>
      have hrest := ih (number + 1) []
      rw [List.nil_append] at hrest
      rw [List.map_cons, List.map_cons, DocumentLine.readLine, properties, trailing,
        List.flatMap_cons, List.append_assoc, hrest, List.append_assoc]
      rfl

/-- The keys that are read are those of the document. -/
theorem keys_properties (doc : List DocumentLine) (number : Nat) (pending : List Text) :
    (properties number pending (doc.map (DocumentLine.readLine ascii))).map Property.key
      = doc.filterMap DocumentLine.key? := by
  induction doc generalizing number pending with
  | nil => rfl
  | cons l rest ih =>
    cases l with
    | comment line => exact ih (number + 1) (pending ++ [line])
    | property key separator value => exact congrArg (key :: ·) (ih (number + 1) [])

end ReadLine

/-! ## Writing puts the lines down again -/

namespace Layout

/-- The entries of properties with different keys. -/
theorem entries_entriesOf {properties : List Property}
    (hkeys : (properties.map Property.key).Nodup) :
    (entriesOf .empty properties).entries
      = properties.map fun p => (p.key, firstEntry p.comments p.separator) :=
  OrderedMap.entries_foldl_update Property.key entryFor hkeys fun _ _ => List.not_mem_nil

/-- No blank line has to be added before a property that has one. -/
theorem blankLines_of_leading {leading : Bool} {block : List Text} (separator : Text)
    (h : leading = true → block.head? = some []) :
    (if leading && (firstEntry block separator).blankLines == 0 then 1
      else (firstEntry block separator).blankLines) = (firstEntry block separator).blankLines := by
  refine if_neg fun hzero => ?_
  obtain ⟨hleading, hzero⟩ := Bool.and_eq_true_iff.1 hzero
  obtain ⟨rest, rfl⟩ := List.head?_eq_some_iff.1 (h hleading)
  exact absurd (beq_iff_eq.1 hzero) (by simp [firstEntry])

/-- The segments of properties with different keys are their lines. -/
theorem flatMap_segmentsFrom {l : Layout} {style : WriteStyle} (hstyle : style.delimiter = none)
    (hglobal : l.globalSeparator = none) {values : Values} {properties : List Property}
    (hvalues : ∀ p ∈ properties, values.get? p.key = some [p.value])
    (hcomments : ∀ p ∈ properties, ∀ c ∈ p.comments, isCommentLine c = true ∧ IsLine c)
    {leading : Bool}
    (hleading : leading = true → ∀ p ∈ properties.head?, p.comments.head? = some []) :
    (l.segmentsFrom style values leading
        (properties.map fun p => (p.key, firstEntry p.comments p.separator))).flatMap Segment.lines
      = properties.flatMap fun p => p.comments ++ [p.written style.ascii] := by
  induction properties generalizing leading with
  | nil => rfl
  | cons p rest ih =>
    obtain ⟨hvalue, hvalues⟩ := List.forall_mem_cons.1 hvalues
    obtain ⟨hcomment, hcomments⟩ := List.forall_mem_cons.1 hcomments
    have hrest := @ih hvalues hcomments false nofun
    rw [List.map_cons, segmentsFrom, hvalue]
    dsimp only
    rw [List.flatMap_cons, lines_segment hstyle hglobal,
      blankLines_of_leading p.separator fun h => hleading h p rfl, lines_firstEntry hcomment,
      hrest, List.flatMap_cons]
    rfl

/-- The properties without the header, and the header before them. -/
theorem lines_withoutHeader (ascii : Bool) (properties : List Property) :
    headerOf properties
        ++ (withoutHeader properties).flatMap (fun p => p.comments ++ [p.written ascii])
      = properties.flatMap fun p => p.comments ++ [p.written ascii] := by
  cases properties with
  | nil => rfl
  | cons p rest =>
    have hcomments := headerLines_append_drop p.comments
    rw [withoutHeader, headerOf, List.flatMap_cons, List.flatMap_cons, ← List.append_assoc,
      ← List.append_assoc, hcomments]
    rfl

theorem mem_of_mem_withoutHeader {properties : List Property} {q : Property}
    (h : q ∈ withoutHeader properties) :
    ∃ p ∈ properties, q.key = p.key ∧ q.value = p.value ∧ ∀ c ∈ q.comments, c ∈ p.comments := by
  cases properties with
  | nil => exact absurd h List.not_mem_nil
  | cons p rest =>
    obtain rfl | h := List.mem_cons.1 h
    · exact ⟨p, List.mem_cons_self, rfl, rfl, fun c hc => List.mem_of_mem_drop hc⟩
    · exact ⟨q, List.mem_cons_of_mem p h, rfl, rfl, fun c hc => hc⟩

end Layout

namespace Store

variable {o : StoreOptions} {properties : List Property} {trailing : List Text}

/-- Each key of properties with different keys has one value. -/
theorem get?_loaded (hkeys : (properties.map Property.key).Nodup) {p : Property}
    (hp : p ∈ properties) :
    (Values.addPairs .empty (properties.map Property.pair)).get? p.key = some [p.value] := by
  have hpairs : ((properties.map Property.pair).map Prod.fst).Nodup := by
    rw [List.map_map]
    exact hkeys
  refine OrderedMap.get?_eq_some_iff.2 ?_
  rw [Values.addPairs, OrderedMap.entries_foldl_update Prod.fst
    (fun (p : Text × Text) (old : Option (List Text)) => old.getD [] ++ [p.2]) hpairs
    fun _ _ => List.not_mem_nil]
  exact List.mem_map.2 ⟨p.pair, List.mem_map_of_mem hp, rfl⟩

/-- The segments of a loaded store, the header in front of them. -/
theorem flatMap_segments_loaded (ho : o.IsPlain) (keep : Bool) (physical : PhysicalLines)
    (trailing : List Text) (hkeys : (properties.map Property.key).Nodup)
    (hcomments : ∀ p ∈ properties, ∀ c ∈ p.comments, isCommentLine c = true ∧ IsLine c) :
    Layout.headerOf properties ++ ((loaded o keep physical properties trailing).layout.segments
        (loaded o keep physical properties trailing).style
        (loaded o keep physical properties trailing).values).flatMap Layout.Segment.lines
      = properties.flatMap fun p => p.comments ++ [p.written o.escapeUnicode] := by
  have hdistinct : ((Layout.withoutHeader properties).map Property.key).Nodup := by
    rw [Layout.keys_withoutHeader]
    exact hkeys
  have hentries := Layout.entries_entriesOf hdistinct
  rw [← Layout.lines_withoutHeader]
  refine congrArg (Layout.headerOf properties ++ ·) ?_
  unfold Layout.segments
  rw [show (loaded o keep physical properties trailing).layout.entries.entries = _ from hentries]
  -- the header only takes comment lines away: keys, values and the
  -- comment lines that stay are those of the properties
  refine Layout.flatMap_segmentsFrom ho.delimiter rfl ?_ ?_ ?_
  · intro q hq
    obtain ⟨p, hp, hkey, hvalue, -⟩ := Layout.mem_of_mem_withoutHeader hq
    rw [hkey, hvalue]
    exact get?_loaded hkeys hp
  · intro q hq c hc
    obtain ⟨p, hp, -, -, hsub⟩ := Layout.mem_of_mem_withoutHeader hq
    exact hcomments p hp c (hsub c hc)
  · -- a header is parted from the first key by a blank line of the text
    intro hsome q hq
    cases properties with
    | nil => exact absurd hq nofun
    | cons p rest =>
      obtain rfl := Option.some.inj hq
      refine Layout.head?_drop_headerLines fun hnil => ?_
      have hnone : (loaded o keep physical (p :: rest) trailing).layout.header = none := by
        show Comment.ofLines (Layout.headerLines p.comments) = none
        rw [hnil]
        rfl
      rw [hnone] at hsome
      exact absurd hsome Bool.false_ne_true

/-- **The lines of a loaded store**: those of the text, without the blank
lines at its end if they are not kept. -/
theorem lines_loaded (ho : o.IsPlain) (keep : Bool) (physical : PhysicalLines)
    (hkeys : (properties.map Property.key).Nodup)
    (hcomments : ∀ p ∈ properties, ∀ c ∈ p.comments, isCommentLine c = true ∧ IsLine c)
    (htrailing : ∀ c ∈ trailing, isCommentLine c = true ∧ IsLine c) :
    (loaded o keep physical properties trailing).layout.lines
        (loaded o keep physical properties trailing).style
        (loaded o keep physical properties trailing).values
      = (properties.flatMap fun p => p.comments ++ [p.written o.escapeUnicode])
        ++ if keep then trailing else trailing.rdropWhile (· = []) := by
  have hheader : ∀ c ∈ Layout.headerOf properties, isCommentLine c = true ∧ IsLine c := by
    intro c hc
    cases properties with
    | nil => exact absurd hc List.not_mem_nil
    | cons p rest =>
      refine hcomments p List.mem_cons_self c ?_
      rw [← Layout.headerLines_append_drop p.comments]
      exact List.mem_append_left _ hc
  have hfooter : ∀ c ∈ (if keep then trailing else trailing.rdropWhile (· = [])),
      isCommentLine c = true ∧ IsLine c := by
    intro c hc
    refine htrailing c ?_
    cases keep with
    | true => exact hc
    | false => exact (List.rdropWhile_prefix (· = []) trailing).subset hc
  rw [← flatMap_segments_loaded ho keep physical trailing hkeys hcomments]
  unfold Layout.lines
  rw [show (loaded o keep physical properties trailing).layout.header
      = Comment.ofLines (Layout.headerOf properties) from rfl,
    show (loaded o keep physical properties trailing).layout.footer
      = Comment.ofLines (if keep then trailing else trailing.rdropWhile (· = [])) from rfl,
    Layout.commentLines_ofLines (fun c hc => (hheader c hc).1) fun c hc => (hheader c hc).2,
    Layout.commentLines_ofLines (fun c hc => (hfooter c hc).1) fun c hc => (hfooter c hc).2]

end Store

/-! ## The text of a loaded store -/

/-- The line break that a store takes over from a uniform text is that of
the text, if it matters at all. -/
theorem textOfLines_lineSeparator {b : LineBreak} {t : Text} (h : Uniform b t) {lines : List Text}
    (hlines : lines.Sublist (ofText t).lines) :
    textOfLines (Layout.lineSeparator
        { lineSeparator? := (ofText t).firstBreak.map LineBreak.chars }) (ofText t).finalBreak lines
      = textOfLines b.chars (ofText t).finalBreak lines := by
  cases hcut : (cut t).2 with
  | nil =>
    -- without a break there is at most one line, and it is not ended
    have hone : (ofText t).finalBreak = false ∧ (ofText t).lines.length = 1
        ∨ (ofText t).lines = [] := by
      unfold ofText
      dsimp only
      rw [hcut]
      by_cases hfirst : (cut t).1 = []
      · exact .inr (by simp [hfirst])
      · exact .inl (by simp [hfirst])
    obtain ⟨hfinal, hlength⟩ | hnil := hone
    · rw [hfinal]
      match lines, hlines.length_le with
      | [], _ => rfl
      | [_], _ => rfl
      | _ :: _ :: _, hle => exact absurd (hlength ▸ hle) (by simp)
    · rw [hnil] at hlines
      rw [List.sublist_nil.1 hlines]
      rfl
  | cons e later =>
    have hfirst : (ofText t).firstBreak = some b := by
      show firstBreak? t = some b
      rw [firstBreak?_eq, hcut, ← h e (hcut ▸ List.mem_cons_self)]
      rfl
    rw [hfirst]
    cases b <;> rfl

/-- Blank lines at the end come off behind a property as they come off
alone. -/
theorem rdropWhile_append_trailing {lines trailing : List Text} (h : [] ∉ lines.getLast?) :
    (lines ++ trailing).rdropWhile (· = []) = lines ++ trailing.rdropWhile (· = []) := by
  induction trailing using List.reverseRecOn with
  | nil =>
    rw [List.append_nil, List.rdropWhile_nil, List.append_nil, List.rdropWhile_eq_self_iff]
    intro hne hlast
    refine h ?_
    rw [List.getLast?_eq_some_getLast hne, of_decide_eq_true hlast]
    rfl
  | append_singleton trailing line ih =>
    rw [← List.append_assoc]
    by_cases hline : line = []
    · rw [List.rdropWhile_concat_pos _ _ _ (by simp [hline]), ih,
        List.rdropWhile_concat_pos _ _ _ (by simp [hline])]
    · rw [List.rdropWhile_concat_neg _ _ _ (by simp [hline]),
        List.rdropWhile_concat_neg _ _ _ (by simp [hline]), List.append_assoc]

namespace ReadLine

/-- A property that is read from a document is one of its lines. -/
theorem mem_of_mem_properties {ascii : Bool} {doc : List DocumentLine} {number : Nat}
    {pending : List Text} {p : Property}
    (h : p ∈ properties number pending (doc.map (DocumentLine.readLine ascii))) :
    DocumentLine.property p.key p.separator p.value ∈ doc := by
  induction doc generalizing number pending with
  | nil => exact absurd h List.not_mem_nil
  | cons l rest ih =>
    cases l with
    | comment line => exact List.mem_cons_of_mem _ (ih h)
    | property key separator value =>
      obtain rfl | h := List.mem_cons.1 h
      · exact List.mem_cons_self
      · exact List.mem_cons_of_mem _ (ih h)

end ReadLine

/-- **The text of a store loaded from a canonical text.** -/
theorem toText_loaded {o : StoreOptions} (ho : o.IsPlain) (keep : Bool) {b : LineBreak} {t : Text}
    (hbreak : Uniform b t) {properties : List Property} {trailing : List Text}
    (hlines : (ofText t).lines
      = (properties.flatMap fun p => p.comments ++ [p.written o.escapeUnicode]) ++ trailing)
    (hwritten : ∀ p ∈ properties, p.written o.escapeUnicode ≠ [])
    (hkeys : (properties.map Property.key).Nodup)
    (hcomments : (∀ p ∈ properties, ∀ c ∈ p.comments, isCommentLine c = true) ∧
      ∀ c ∈ trailing, isCommentLine c = true) :
    (Store.loaded o keep (ofText t) properties trailing).toText
      = textOfLines b.chars (ofText t).finalBreak
          (if keep then (ofText t).lines else (ofText t).lines.rdropWhile (· = [])) := by
  have hline : ∀ l ∈ (ofText t).lines, IsLine l := fun l hl => isLine_of_mem_lines hl
  rw [hlines] at hline
  have hproperty : ∀ p ∈ properties, ∀ c ∈ p.comments, isCommentLine c = true ∧ IsLine c :=
    fun p hp c hc => ⟨hcomments.1 p hp c hc, hline c (List.mem_append_left _
      (List.mem_flatMap.2 ⟨p, hp, List.mem_append_left _ hc⟩))⟩
  have htrailing : ∀ c ∈ trailing, isCommentLine c = true ∧ IsLine c :=
    fun c hc => ⟨hcomments.2 c hc, hline c (List.mem_append_right _ hc)⟩
  have hkept : (if keep then (ofText t).lines else (ofText t).lines.rdropWhile (· = []))
      = (properties.flatMap fun p => p.comments ++ [p.written o.escapeUnicode])
        ++ if keep then trailing else trailing.rdropWhile (· = []) := by
    rw [hlines]
    cases keep with
    | true => rfl
    | false =>
      -- the line of the last property is not empty, so nothing is dropped
      -- but blank lines behind it
      refine rdropWhile_append_trailing fun hlast => ?_
      obtain rfl | ⟨init, p, rfl⟩ := List.eq_nil_or_concat properties
      · exact absurd hlast nofun
      · rw [List.concat_eq_append, List.flatMap_append, List.flatMap_singleton,
          ← List.append_assoc, List.getLast?_concat] at hlast
        exact hwritten p (by simp) (Option.some.inj hlast)
  have hsublist : (if keep then (ofText t).lines else (ofText t).lines.rdropWhile (· = [])).Sublist
      (ofText t).lines := by
    cases keep with
    | true => exact List.Sublist.refl _
    | false => exact (List.rdropWhile_prefix (· = []) _).sublist
  rw [← textOfLines_lineSeparator hbreak hsublist, hkept,
    ← Store.lines_loaded ho keep (ofText t) hkeys hproperty htrailing]
  rfl

/-- **Loading and saving a canonical text.** Reading it into a fresh
plain store succeeds, and the store is written as the same text; where
blank lines at the end are not kept, as the text without the empty lines
at its end. -/
theorem toText_read {o : StoreOptions} (ho : o.IsPlain) (src : Sources) (source : Option Text)
    {b : LineBreak} {t : Text} (hbreak : Uniform b t) {doc : List DocumentLine}
    (hdoc : (ofText t).lines = doc.map (DocumentLine.text o.escapeUnicode))
    (hlines : ∀ l ∈ doc, l.IsCanonical o.escapeUnicode)
    (hkeys : (doc.filterMap DocumentLine.key?).Nodup) :
    (∃ st, (Store.fresh o true).read src source t = (.ok (), st, []) ∧ st.toText = t) ∧
      ∃ st, (Store.fresh o false).read src source t = (.ok (), st, []) ∧
        st.toText = textOfLines b.chars (ofText t).finalBreak
          ((ofText t).lines.rdropWhile (· = [])) := by
  -- the document lines are what the reader makes of the text, and what
  -- the writer puts down again
  have hreads : ∀ l ∈ doc.map (DocumentLine.readLine o.escapeUnicode), l.Reads := by
    intro l hl
    obtain ⟨d, hd, rfl⟩ := List.mem_map.1 hl
    exact (hlines d hd).reads
  have hreading := ReadLine.run_readLines hreads 1 []
  have htext : ReadLine.text ∘ DocumentLine.readLine o.escapeUnicode
      = DocumentLine.text o.escapeUnicode := funext (DocumentLine.text_readLine _)
  rw [List.map_map, htext, ← hdoc] at hreading
  have hplaces := @ReadLine.lines_properties o.escapeUnicode doc 1 []
  rw [List.nil_append, ← hdoc] at hplaces
  have hcomments := @ReadLine.isCommentLine_of_mem_properties _ hreads 1 []
    fun c hc => absurd hc List.not_mem_nil
  have hdistinct := @ReadLine.keys_properties o.escapeUnicode doc 1 [] ▸ hkeys
  have hwritten : ∀ p ∈ ReadLine.properties 1 [] (doc.map (DocumentLine.readLine o.escapeUnicode)),
      p.written o.escapeUnicode ≠ [] := by
    intro p hp hnil
    obtain ⟨-, -, hcomment, -⟩ := hlines _ (ReadLine.mem_of_mem_properties hp)
    have hempty : DocumentLine.text o.escapeUnicode (.property p.key p.separator p.value) = [] :=
      hnil
    rw [hempty] at hcomment
    exact absurd hcomment (by decide)
  refine ⟨⟨_, Store.read_fresh ho true src source hreading, ?_⟩,
    ⟨_, Store.read_fresh ho false src source hreading, ?_⟩⟩
  · rw [toText_loaded ho true hbreak hplaces.symm hwritten hdistinct hcomments]
    exact textOfLines_ofText hbreak
  · exact toText_loaded ho false hbreak hplaces.symm hwritten hdistinct hcomments

/-- A file with a header, a commented key, Windows line breaks and a
blank line at its end. -/
theorem toText_read_port :
    (∃ st, (Store.fresh { includeKey := none, includeOptionalKey := none } true).read
        (Sources.inMemory [] []) none "# head\r\n\r\n! p\r\nport : 80\r\n\r\n".toList
        = (.ok (), st, []) ∧
      st.toText = "# head\r\n\r\n! p\r\nport : 80\r\n\r\n".toList) ∧
    ∃ st, (Store.fresh { includeKey := none, includeOptionalKey := none } false).read
        (Sources.inMemory [] []) none "# head\r\n\r\n! p\r\nport : 80\r\n\r\n".toList
        = (.ok (), st, []) ∧
      st.toText = textOfLines LineBreak.crlf.chars
        (ofText "# head\r\n\r\n! p\r\nport : 80\r\n\r\n".toList).finalBreak
        ((ofText "# head\r\n\r\n! p\r\nport : 80\r\n\r\n".toList).lines.rdropWhile
          (· = [])) := by
  have hbreak : Uniform .crlf "# head\r\n\r\n! p\r\nport : 80\r\n\r\n".toList := by
    unfold Uniform
    decide
  have hseparator : IsSeparator " : ".toList := by decide
  have hindent : NoIndent (DocumentLine.text false
      (.property "port".toList " : ".toList "80".toList)) := by
    intro c t h
    obtain ⟨rfl, -⟩ := List.cons.inj h
    rfl
  have hlines : ∀ l ∈ [DocumentLine.comment "# head".toList, .comment [], .comment "! p".toList,
      .property "port".toList " : ".toList "80".toList, .comment []], l.IsCanonical false := by
    simp only [List.forall_mem_cons]
    exact ⟨rfl, rfl, rfl, ⟨hseparator, .inl (by decide), rfl, hindent⟩, rfl,
      fun _ h => absurd h List.not_mem_nil⟩
  exact toText_read ⟨rfl, rfl, rfl⟩ (Sources.inMemory [] []) none hbreak rfl hlines (by decide)

end PropertyFile
