import PropertyFile.CommandLine.CodeCheck
import PropertyFile.Proofs.CodePoint
import PropertyFile.Proofs.Writing

/-!
# Saving and reading halves

Stores of characters are among those that may hold halves of surrogate
pairs (`CodeStore.ofStore`), and there the two kinds agree: a store of
characters is saved as the same text (`CodeStore.toText_ofStore`), and a
text of characters is read into the same store (`CodeStore.read_points`).
So what is proved of stores of characters is proved of all stores without
halves, and a check says of a text of characters what it would say of its
code points (`Verdict.ofCodeText_points`).

With a half it is otherwise. A half is written as it is, and it is read as
it is from a value without a backslash only. So a value that holds a half
and something to be escaped does not come back as it was saved, and the
text that it was saved as is not saved unchanged.
-/

namespace PropertyFile

open Text

/-! ## Writing -/

theorem CodePoint.flatMap_written (ascii : Bool) (write : Char → Text) (t : Text) :
    t.points.flatMap (written ascii write) = points (t.flatMap write) := by
  rw [points, List.flatMap_map, points, List.map_flatMap]
  rfl

namespace CodeText

theorem escapedKey_points (ascii : Bool) (key : Text) :
    escapedKey ascii key.points = points (Escape.key ascii key) := by
  cases key with
  | nil => rfl
  | cons c rest =>
    rw [points_cons, escapedKey, CodePoint.flatMap_written, Escape.key, points_append]
    rfl

theorem escapedValue_points (ascii : Bool) (separator v : Text) :
    escapedValue ascii separator v.points = points (Escape.value ascii separator v) := by
  cases v with
  | nil => rfl
  | cons c rest =>
    rw [points_cons, escapedValue, CodePoint.flatMap_written, Escape.value, points_append]
    rfl

theorem ofLines_points (terminator : Text) (final : Bool) (lines : List Text) :
    ofLines terminator final (lines.map points) = points (textOfLines terminator final lines) := by
  rw [textOfLines]
  fun_induction writtenPieces terminator final lines with
  | case1 => rfl
  | case2 => simp_all [ofLines]
  | case3 => simp_all [ofLines]
  | case4 line next rest ih =>
    simp only [List.map_cons] at ih
    simp [ofLines, ih]

theorem blockLines_points (block : Text) :
    blockLines block.points = (Comment.lines block).map points := by
  rw [Comment.lines]
  induction block with
  | nil => rfl
  | cons c rest ih =>
    rw [points_cons, blockLines, splitOn, ih]
    by_cases hc : c = '\n'
    · rw [if_pos hc, if_pos (congrArg CodePoint.char hc)]
      rfl
    · rw [if_neg hc, if_neg fun h => hc (CodePoint.char.inj h)]
      cases splitOn '\n' rest <;> rfl

theorem withMark_points (line : Text) : withMark line.points = points (Comment.withMark line) := by
  rw [withMark, Comment.withMark, shape_points]
  split <;> rfl

theorem commentLines_points (comment : Option Text) :
    commentLines (comment.map points) = (Layout.commentLines comment).map points := by
  cases comment with
  | none => rfl
  | some block =>
    rw [Option.map_some, commentLines, blockLines_points, List.map_map, Layout.commentLines,
      List.map_map]
    exact List.map_congr_left fun line _ => withMark_points line

theorem blockOfLines_points (lines : List Text) :
    blockOfLines (lines.map points) = (Comment.ofLines lines).map points := by
  cases lines with
  | nil => rfl
  | cons line rest =>
    rw [List.map_cons, blockOfLines, ← List.map_cons, ofLines_points, textOfLines_eq]
    exact congrArg (fun t => some (points t)) (List.append_nil _)

theorem appendBlock_points (first second : Option Text) :
    appendBlock (first.map points) (second.map points)
      = (Comment.append first second).map points := by
  cases first with
  | none => cases second <;> rfl
  | some block =>
    cases second with
    | none => rfl
    | some later => simp [appendBlock, Comment.append]

end CodeText

/-! ## Entries by their keys -/

/-- Entries by keys of characters. -/
def pointEntries {α β : Type} (f : α → β) (l : List (Text × α)) : List (CodeText × β) :=
  l.map fun x => (x.1.points, f x.2)

section
variable {α β : Type} (f : α → β) (key : Text) (content : α) (l : List (Text × α))

theorem lookup_pointEntries :
    (pointEntries f l).lookup key.points = (l.lookup key).map f := by
  induction l with
  | nil => rfl
  | cons e rest ih =>
    have hkey : (key.points == e.1.points) = (key == e.1) := by
      rw [Bool.eq_iff_iff, beq_iff_eq, beq_iff_eq, points_injective.eq_iff]
    rw [pointEntries, List.map_cons, List.lookup_cons, List.lookup_cons, hkey]
    cases key == e.1 with
    | true => rfl
    | false => exact ih

theorem put_pointEntries :
    OrderedMap.put key.points (f content) (pointEntries f l)
      = pointEntries f (OrderedMap.put key content l) := by
  induction l with
  | nil => rfl
  | cons e rest ih =>
    rw [pointEntries, List.map_cons, OrderedMap.put, OrderedMap.put]
    by_cases hkey : e.1 = key
    · rw [if_pos hkey, if_pos (congrArg points hkey)]
      rfl
    · rw [if_neg hkey, if_neg fun h => hkey (points_injective h)]
      exact congrArg (_ :: ·) ih

end

/-! ## Stores of characters -/

/-- An entry of characters. -/
def CodeEntry.ofEntry (e : Entry) : CodeEntry :=
  { comment := e.comment.map points, blankLines := e.blankLines, separator := e.separator
    singleLine := e.singleLine }

namespace CodeStore

open CodeText

/-- A plain store of characters. -/
def ofStore (st : Store) : CodeStore where
  ascii := st.options.escapeUnicode
  values := pointEntries (List.map points) st.values.entries
  entries := pointEntries .ofEntry st.layout.entries.entries
  header := st.layout.header.map points
  footer := st.layout.footer.map points
  lineSeparator := st.layout.lineSeparator
  finalNewline := st.layout.finalNewline

section
variable {st : Store} (hdelimiter : st.options.delimiter = none)
  (hglobal : st.layout.globalSeparator = none)
include hdelimiter hglobal

theorem keyLines_ofStore (leading : Bool) (key : Text) (e : Entry) (values : List Text) :
    (ofStore st).keyLines leading key.points (.ofEntry e) (values.map points)
      = (st.layout.segment st.style leading key e values).lines.map points := by
  have hline : ∀ v : Text, escapedKey (ofStore st).ascii key.points ++ e.separator.points
        ++ escapedValue (ofStore st).ascii e.separator v.points
      = points (propertyLine st.style.ascii key e.separator
          (Escape.value st.style.ascii e.separator v)) := by
    intro v
    rw [escapedKey_points, escapedValue_points, propertyLine, points_append, points_append]
    rfl
  rw [Layout.lines_segment hdelimiter hglobal, keyLines, List.map_append, List.map_append,
    List.map_replicate, List.map_map, List.map_map]
  refine congrArg₂ (· ++ ·) (congrArg (_ ++ ·) (commentLines_points e.comment)) ?_
  exact List.map_congr_left fun v _ => hline v

theorem linesFrom_ofStore (leading : Bool) (entries : List (Text × Entry)) :
    (ofStore st).linesFrom leading (pointEntries .ofEntry entries)
      = ((st.layout.segmentsFrom st.style st.values leading entries).flatMap
          Layout.Segment.lines).map points := by
  induction entries generalizing leading with
  | nil => rfl
  | cons x rest ih =>
    obtain ⟨key, e⟩ := x
    have hlookup : (ofStore st).values.lookup key.points
        = (st.values.get? key).map (List.map points) := lookup_pointEntries _ _ _
    rw [pointEntries, List.map_cons, linesFrom, hlookup, Layout.segmentsFrom]
    cases st.values.get? key with
    | none => exact ih false
    | some vs =>
      show (ofStore st).keyLines leading key.points (.ofEntry e) (vs.map points)
        ++ (ofStore st).linesFrom false (pointEntries .ofEntry rest) = _
      rw [keyLines_ofStore hdelimiter hglobal, ih, List.flatMap_cons, List.map_append]

/-- **A plain store of characters** is saved as the text that it is. -/
theorem toText_ofStore : (ofStore st).toText = st.toText.points := by
  have hlines := linesFrom_ofStore hdelimiter hglobal st.layout.header.isSome
    st.layout.entries.entries
  have hheader : (ofStore st).header.isSome = st.layout.header.isSome := Option.isSome_map
  rw [toText, hheader]
  show ofLines st.layout.lineSeparator st.layout.finalNewline
    (commentLines (st.layout.header.map points) ++
      (ofStore st).linesFrom st.layout.header.isSome
        (pointEntries .ofEntry st.layout.entries.entries) ++
      commentLines (st.layout.footer.map points)) = _
  rw [hlines, commentLines_points, commentLines_points, ← List.map_append, ← List.map_append,
    ofLines_points]
  rfl

end

/-! ## Reading -/

theorem headerLines_points (lines : List Text) :
    headerLines (lines.map points) = (Layout.headerLines lines).map points := by
  simp only [headerLines, Layout.headerLines, ← List.map_reverse, List.dropWhile_map,
    Function.comp_def, ne_eq, points_eq_nil_iff]

theorem entryFor_points (p : Property) (old : Option Entry) :
    entryFor (.ofProperty p) (old.map .ofEntry) = .ofEntry (Layout.entryFor p old) := by
  have hblock : blockOfLines ((p.comments.map points).dropWhile (· = []))
      = (Comment.ofLines (p.comments.dropWhile (· = []))).map points := by
    rw [← blockOfLines_points]
    simp only [List.dropWhile_map, Function.comp_def, points_eq_nil_iff]
  have hblank : ((p.comments.map points).takeWhile (· = [])).length
      = (p.comments.takeWhile (· = [])).length := by
    simp only [List.takeWhile_map, Function.comp_def, points_eq_nil_iff, List.length_map]
  cases old with
  | none => simp only [Option.map_none, entryFor, CodeProperty.ofProperty, hblock, hblank,
      Layout.entryFor, Layout.firstEntry, CodeEntry.ofEntry]
  | some e => simp only [Option.map_some, entryFor, CodeProperty.ofProperty, hblock,
      Layout.entryFor, Layout.laterEntry, Entry.addComment, CodeEntry.ofEntry, appendBlock_points]

/-- A store with values and entries of characters. -/
def withMaps (st : CodeStore) (values : Values) (entries : OrderedMap Entry) : CodeStore :=
  { st with
    values := pointEntries (List.map points) values.entries
    entries := pointEntries .ofEntry entries.entries }

theorem place_points (st : CodeStore) (values : Values) (entries : OrderedMap Entry)
    (p : Property) :
    (st.withMaps values entries).place (.ofProperty p)
      = st.withMaps (values.update p.key fun old => old.getD [] ++ [p.value])
          (entries.update p.key (Layout.entryFor p)) := by
  have hvalues : ((pointEntries (List.map points) values.entries).lookup p.key.points).getD []
        ++ [p.value.points]
      = ((values.get? p.key).getD [] ++ [p.value]).map points := by
    rw [lookup_pointEntries, OrderedMap.get?]
    cases values.entries.lookup p.key <;> simp
  have hentry : entryFor (.ofProperty p)
        ((pointEntries .ofEntry entries.entries).lookup p.key.points)
      = .ofEntry (Layout.entryFor p (entries.get? p.key)) := by
    rw [lookup_pointEntries, entryFor_points, OrderedMap.get?]
  refine congrArg₂ (fun v e => ({ st with values := v, entries := e } : CodeStore)) ?_ ?_
  · exact (congrArg (OrderedMap.put _ · _) hvalues).trans (put_pointEntries _ _ _ _)
  · exact (congrArg (OrderedMap.put _ · _) hentry).trans (put_pointEntries _ _ _ _)

theorem foldl_place_points (st : CodeStore) (values : Values) (entries : OrderedMap Entry)
    (properties : List Property) :
    (properties.map CodeProperty.ofProperty).foldl place (st.withMaps values entries)
      = st.withMaps (values.addPairs (properties.map Property.pair))
          (Layout.entriesOf entries properties) := by
  induction properties generalizing values entries with
  | nil => rfl
  | cons p rest ih =>
    rw [List.map_cons, List.foldl_cons, place_points]
    exact ih _ _

theorem ofProperties_points (ascii : Bool) (properties : List Property) :
    ofProperties ascii (properties.map .ofProperty)
      = withMaps
          { ascii, header := (Comment.ofLines (Layout.headerOf properties)).map points }
          (Values.addPairs .empty (properties.map Property.pair))
          (Layout.entriesOf .empty (Layout.withoutHeader properties)) := by
  cases properties with
  | nil => rfl
  | cons p rest =>
    have hheader : headerLines (CodeProperty.ofProperty p).comments
        = (Layout.headerLines p.comments).map points := headerLines_points p.comments
    have hfirst : ({ CodeProperty.ofProperty p with
          comments := (CodeProperty.ofProperty p).comments.drop
            (Layout.headerLines p.comments).length } : CodeProperty)
        = .ofProperty { p with
            comments := p.comments.drop (Layout.headerLines p.comments).length } := by
      simp only [CodeProperty.ofProperty, List.map_drop]
    rw [List.map_cons, ofProperties, hheader, List.length_map, hfirst, ← List.map_cons,
      blockOfLines_points]
    exact foldl_place_points
      { ascii, header := (Comment.ofLines (Layout.headerLines p.comments)).map points }
      .empty .empty _

/-- **A text of characters** is read into the plain store that it makes
of a fresh one, or into none if it is malformed. -/
theorem read_points {o : StoreOptions} (h : o.IsPlain) (src : Sources) (source : Option Text)
    (t : Text) :
    read o.escapeUnicode t.points
      = match (Store.fresh o true).read src source t with
        | (.ok (), st, _) => some (ofStore st)
        | (.error _, _, _) => none := by
  rw [read, CodeReading.ofText_points, shape_points, finalBreak_points]
  cases hreading : Reading.ofLines [] (PhysicalLines.ofText t).lines with
  | mk properties ending =>
    cases ending with
    | failed pending fault line =>
      rw [Store.read_fresh_eq h true src source hreading]
      rfl
    | complete trailing =>
      have hbreak : (Store.loaded o true (PhysicalLines.ofText t) properties
            trailing).layout.lineSeparator
          = ((PhysicalLines.firstBreak? t).map LineBreak.chars).getD ['\n'] := by
        show Layout.lineSeparator { lineSeparator? := (PhysicalLines.firstBreak? t).map _ } = _
        cases PhysicalLines.firstBreak? t with
        | none => rfl
        | some b => cases b <;> rfl
      rw [Store.read_fresh h true src source hreading]
      simp only [CodeReading.ofReading, CodeEnding.ofEnding, ofProperties_points,
        blockOfLines_points, ofStore, hbreak]
      rfl

end CodeStore

/-! ## Verdicts -/

/-- **A text of characters is judged by its code points as it is judged**:
by what the plain store that it is read into is saved as, or as malformed,
with what is said of that. -/
theorem CommandLine.Verdict.ofCodeText_points {o : StoreOptions} (h : o.IsPlain) (src : Sources)
    (source t : Text) :
    ofCodeText source o.escapeUnicode t.points
      = match (Store.fresh o true).read src (some source) t with
        | (.ok (), st, _) => ofTexts t st.toText
        | (.error e, _, _) => .faulty ⟨.encodingError, e.message.toList⟩ := by
  have hstore := CodeStore.read_points h src (some source) t
  rw [ofCodeText, CodeReading.ofText_points]
  cases hreading : Reading.ofLines [] (PhysicalLines.ofText t).lines with
  | mk properties ending =>
    cases ending with
    | failed pending fault line =>
      have hplace : ∀ text, (Place.mk (some source) (some line)).message text
          = (Place.mk (Store.sourceName (some source) (Store.stackOf (some source)))
              (some line)).message text := by
        intro text
        cases source <;> rfl
      rw [Store.read_fresh_eq h true src (some source) hreading]
      dsimp only [CodeReading.ofReading, CodeEnding.ofEnding]
      rw [CodeFault.message_ofFault, hplace]
      rfl
    | complete trailing =>
      have hsaved : (CodeStore.ofStore
            (Store.loaded o true (PhysicalLines.ofText t) properties trailing)).toText
          = (Store.loaded o true (PhysicalLines.ofText t) properties trailing).toText.points :=
        CodeStore.toText_ofStore h.delimiter rfl
      rw [Store.read_fresh h true src (some source) hreading] at hstore ⊢
      dsimp only [CodeReading.ofReading, CodeEnding.ofEnding] at hstore ⊢
      rw [hstore, Option.map_some, Option.getD_some, hsaved, shape_points, shape_points, ofTexts]
      simp only [points_injective.eq_iff]

namespace CodeStore

/-! ## Halves -/

/-- A store with one key, whose value is half of a pair and a line
feed. -/
def halfStore : CodeStore where
  values := [(points ['k'], [[.half 0, .char '\n']])]
  entries := [(points ['k'], {})]

/-- **A half need not come back**: the store is read again as one with
another value, and is the same in all else. -/
theorem not_read_toText_half :
    halfStore.toText = points "k = ".toList ++ .half 0 :: points "\\n\n".toList ∧
      read halfStore.ascii halfStore.toText
        = some { halfStore with values := [(points ['k'], [points "\ufffd\n".toList])] } ∧
      points "\ufffd\n".toList ≠ [.half 0, .char '\n'] := by
  decide +kernel

/-- A text of one property, whose value holds half of a pair and a tab. -/
def halfText : CodeText := points "k = ".toList ++ .half 0 :: points "\tx\n".toList

/-- **A text with a half need not be saved unchanged.** It is read and
saved with the tab escaped; that text is read and saved again, and comes
out changed. -/
theorem not_toText_read_toText_half :
    let saved := points "k = ".toList ++ .half 0 :: points "\\tx\n".toList
    (∀ p ∈ (CodeReading.ofText halfText).properties,
        p.separator ≠ [] ∧ p.key = points ['k']) ∧
      (read false halfText).map toText = some saved ∧
      (read false saved).map toText = some (points "k = \ufffd\\tx\n".toList) ∧
      points "k = \ufffd\\tx\n".toList ≠ saved := by
  decide +kernel

end CodeStore

end PropertyFile
