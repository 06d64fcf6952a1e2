import PropertyFile.Proofs.Comments
import PropertyFile.Proofs.Including

/-!
# Where the comments of a text go

Loading cuts the lines before a property into up to three parts: the
header, if it is the first property of all, blank lines, which are only
counted, and the comment. What a key already has as its comment stays in
front. Nothing is lost by this but empty lines, and nothing is added:
the lines of the comments of a layout are those that were read
(`read_conserves_comments`).

One property at a time, placing adds the lines of its block to those of
the entries and takes none away (`linesOf_update`); the whole text then
is an induction on its properties (`linesOf_entriesOf`). Which key has
which lines is told by the blocks of the properties with that key
(`comment_entriesOf`).
-/

namespace PropertyFile

/-- A separator between two texts is cut at like every other one. -/
theorem Text.splitOn_append_sep (sep : Char) (t u : Text) :
    splitOn sep (t ++ sep :: u) = splitOn sep t ++ splitOn sep u := by
  induction t with
  | nil => exact if_pos rfl
  | cons c t ih =>
    rw [List.cons_append, splitOn, splitOn, ih]
    by_cases hc : c = sep
    · rw [if_pos hc, if_pos hc]
      rfl
    · rw [if_neg hc, if_neg hc]
      obtain ⟨first, later, hsplit⟩ := List.exists_cons_of_ne_nil (splitOn_ne_nil sep t)
      rw [hsplit]
      rfl

namespace Comment

/-! ## Blocks and their lines -/

/-- The lines of a comment that may be missing. -/
def linesOf (comment : Option Text) : List Text := comment.toList.flatMap lines

/-- A block has the lines it was made of. -/
theorem linesOf_ofLines {block : List Text} (h : ∀ line ∈ block, Text.IsLine line) :
    linesOf (ofLines block) = block := by
  cases block with
  | nil => rfl
  | cons line rest =>
    show [Text.joinWith ['\n'] (line :: rest)].flatMap lines = line :: rest
    rw [List.flatMap_singleton]
    exact Text.splitOn_joinWith (List.cons_ne_nil line rest) fun l hl => (h l hl).not_mem

/-- **One block behind another** has the lines of both. -/
theorem linesOf_append (first second : Option Text) :
    linesOf (append first second) = linesOf first ++ linesOf second := by
  cases first with
  | none =>
    cases second with
    | none => rfl
    | some second => rfl
  | some first =>
    cases second with
    | none => exact (List.append_nil _).symm
    | some second =>
      show [first ++ '\n' :: second].flatMap lines = [first].flatMap lines ++ [second].flatMap lines
      simp only [List.flatMap_singleton]
      exact Text.splitOn_append_sep '\n' first second

/-- Two blocks of lines make one of all the lines. -/
theorem append_ofLines (first second : List Text) :
    append (ofLines first) (ofLines second) = ofLines (first ++ second) := by
  cases first with
  | nil =>
    cases second with
    | nil => rfl
    | cons line rest => rfl
  | cons line rest =>
    cases second with
    | nil => rw [List.append_nil]; rfl
    | cons line' rest' =>
      show some (Text.joinWith ['\n'] (line :: rest)
          ++ '\n' :: Text.joinWith ['\n'] (line' :: rest'))
        = some (Text.joinWith ['\n'] (line :: (rest ++ line' :: rest')))
      simp only [Text.joinWith_cons_eq_flatMap, List.flatMap_append, List.flatMap_cons,
        List.append_assoc, List.cons_append, List.nil_append]

end Comment

/-- Empty lines apart, nothing is lost with the empty lines at the start. -/
theorem filter_dropWhile_empty (lines : List Text) :
    (lines.dropWhile (· = [])).filter (· ≠ []) = lines.filter (· ≠ []) := by
  induction lines with
  | nil => rfl
  | cons line rest ih =>
    by_cases h : line = []
    · rw [List.dropWhile_cons_of_pos (by simpa using h), ih,
        List.filter_cons_of_neg (by simpa using h)]
    · rw [List.dropWhile_cons_of_neg (by simpa using h)]

/-- Nor with those at the end. -/
theorem filter_rdropWhile_empty (lines : List Text) :
    (lines.rdropWhile (· = [])).filter (· ≠ []) = lines.filter (· ≠ []) := by
  rw [List.rdropWhile, List.filter_reverse, filter_dropWhile_empty, List.filter_reverse,
    List.reverse_reverse]

namespace OrderedMap

variable {α β : Type}

/-- Where a content gets a list longer, so do all contents together. -/
theorem perm_flatMap_put (g : α → List β) {added : List β} {key : Text} {content : α}
    {l : List (Text × α)}
    (h : (g content).Perm ((l.lookup key).toList.flatMap g ++ added)) :
    ((put key content l).flatMap fun x => g x.2).Perm
      ((l.flatMap fun x => g x.2) ++ added) := by
  induction l with
  | nil =>
    rw [put, List.flatMap_singleton]
    exact h
  | cons e rest ih =>
    rw [lookup_cons_eq_ite] at h
    rw [put, List.flatMap_cons]
    by_cases he : e.1 = key
    · rw [if_pos he.symm, Option.toList_some, List.flatMap_singleton] at h
      rw [if_pos he, List.flatMap_cons, List.append_assoc]
      refine (h.append_right _).trans ?_
      rw [List.append_assoc]
      exact List.perm_append_comm.append_left _
    · rw [if_neg (Ne.symm he)] at h
      rw [if_neg he, List.flatMap_cons, List.append_assoc]
      exact (ih h).append_left _

theorem perm_flatMap_update (g : α → List β) {added : List β} {m : OrderedMap α} {key : Text}
    {f : Option α → α} (h : (g (f (m.get? key))).Perm ((m.get? key).toList.flatMap g ++ added)) :
    ((m.update key f).entries.flatMap fun x => g x.2).Perm
      ((m.entries.flatMap fun x => g x.2) ++ added) :=
  perm_flatMap_put g h

end OrderedMap

namespace Property

/-- **The comment block of a property**: the lines before it, without
the empty ones they start with. -/
def block (p : Property) : List Text := p.comments.dropWhile (· = [])

end Property

namespace Layout

variable {p : Property} {properties : List Property}

/-! ## Entries -/

/-- What a property makes of the comment of its key. -/
theorem comment_entryFor (p : Property) (old : Option Entry) :
    (entryFor p old).comment
      = Comment.append (old.bind Entry.comment) (Comment.ofLines p.block) := by
  cases old with
  | none =>
    show Comment.ofLines p.block = Comment.append none (Comment.ofLines p.block)
    cases Comment.ofLines p.block <;> rfl
  | some e => rfl

/-- **A property adds the lines of its block** to those of the entries. -/
theorem linesOf_update (h : ∀ line ∈ p.comments, Text.IsLine line) (m : OrderedMap Entry) :
    ((m.update p.key (entryFor p)).entries.flatMap fun x => Comment.linesOf x.2.comment).Perm
      ((m.entries.flatMap fun x => Comment.linesOf x.2.comment) ++ p.block) := by
  have hblock : ∀ line ∈ p.block, Text.IsLine line := fun line hline =>
    h line (List.dropWhile_subset (· = []) hline)
  refine OrderedMap.perm_flatMap_update (fun e : Entry => Comment.linesOf e.comment) (.of_eq ?_)
  rw [comment_entryFor, Comment.linesOf_append, Comment.linesOf_ofLines hblock]
  cases m.get? p.key with
  | none => rfl
  | some e => simp

/-- **Some properties add the lines of their blocks.** -/
theorem linesOf_entriesOf (h : ∀ p ∈ properties, ∀ line ∈ p.comments, Text.IsLine line)
    (m : OrderedMap Entry) :
    ((entriesOf m properties).entries.flatMap fun x => Comment.linesOf x.2.comment).Perm
      ((m.entries.flatMap fun x => Comment.linesOf x.2.comment)
        ++ properties.flatMap Property.block) := by
  induction properties generalizing m with
  | nil => exact .of_eq (List.append_nil _).symm
  | cons p rest ih =>
    obtain ⟨hp, hrest⟩ := List.forall_mem_cons.1 h
    refine (ih hrest (m.update p.key (entryFor p))).trans ?_
    rw [List.flatMap_cons, ← List.append_assoc]
    exact (linesOf_update hp m).append_right _

/-- The blocks before the occurrences of a key, in order. -/
def blocksOf (properties : List Property) (k : Text) : List (List Text) :=
  (properties.filter fun p => p.key = k).map Property.block

/-- Occurrences of a key put their blocks behind its comment. -/
theorem comment_foldl_entryFor (properties : List Property) {old : Option Entry}
    {block : List Text} (h : old.bind Entry.comment = Comment.ofLines block) :
    (properties.foldl (fun old p => some (entryFor p old)) old).bind Entry.comment
      = Comment.ofLines (block ++ (properties.map Property.block).flatten) := by
  induction properties generalizing old block with
  | nil =>
    rw [List.map_nil, List.flatten_nil, List.append_nil]
    exact h
  | cons p rest ih =>
    have hnext : (some (entryFor p old)).bind Entry.comment
        = Comment.ofLines (block ++ p.block) := by
      rw [Option.bind_some, comment_entryFor, h, Comment.append_ofLines]
    rw [List.foldl_cons, ih hnext, List.map_cons, List.flatten_cons, List.append_assoc]

/-- **The comment of a key** is made of the blocks before its
occurrences. -/
theorem comment_entriesOf (properties : List Property) (k : Text) :
    ((entriesOf .empty properties).get? k).bind Entry.comment
      = Comment.ofLines (blocksOf properties k).flatten := by
  have hnone : (none : Option Entry).bind Entry.comment = Comment.ofLines [] := rfl
  rw [entriesOf, OrderedMap.get?_foldl_update]
  exact comment_foldl_entryFor _ hnone

/-- The lines of all comments of a layout, those of the header first. -/
theorem flatMap_lines_comments (l : Layout) :
    l.comments.flatMap Comment.lines
      = Comment.linesOf l.header
        ++ (l.entries.entries.flatMap fun x => Comment.linesOf x.2.comment)
        ++ Comment.linesOf l.footer := by
  rw [comments, List.flatMap_append, List.flatMap_append, List.filterMap_eq_flatMap_toList,
    List.flatMap_assoc]
  rfl

/-! ## The header -/

/-- The header and the blocks behind it are, empty lines apart, the
lines before the properties. -/
theorem filter_header_blocks (properties : List Property) :
    (headerOf properties ++ (withoutHeader properties).flatMap Property.block).filter (· ≠ [])
      = (properties.flatMap Property.comments).filter (· ≠ []) := by
  have hblocks : ∀ ps : List Property, (ps.flatMap Property.block).filter (· ≠ [])
      = (ps.flatMap Property.comments).filter (· ≠ []) := by
    intro ps
    rw [List.filter_flatMap, List.filter_flatMap]
    exact List.flatMap_congr fun p _ => filter_dropWhile_empty p.comments
  rw [List.filter_append, hblocks, ← List.filter_append]
  cases properties with
  | nil => rfl
  | cons p rest =>
    rw [headerOf, withoutHeader, List.flatMap_cons, List.flatMap_cons, ← List.append_assoc,
      headerLines_append_drop]

/-- Parting the header from the first property leaves lines as they
are. -/
theorem isLine_header_blocks (h : ∀ p ∈ properties, ∀ line ∈ p.comments, Text.IsLine line) :
    (∀ line ∈ headerOf properties, Text.IsLine line) ∧
      ∀ p ∈ withoutHeader properties, ∀ line ∈ p.comments, Text.IsLine line := by
  cases properties with
  | nil => exact ⟨fun _ hl => absurd hl List.not_mem_nil, fun _ hp => absurd hp List.not_mem_nil⟩
  | cons p rest =>
    obtain ⟨hp, hrest⟩ := List.forall_mem_cons.1 h
    rw [← headerLines_append_drop p.comments, List.forall_mem_append] at hp
    exact ⟨hp.1, List.forall_mem_cons.2 ⟨hp.2, hrest⟩⟩

/-- The footer has the lines behind the last property, empty lines
apart. -/
theorem filter_linesOf_footer {trailing : List Text} (h : ∀ line ∈ trailing, Text.IsLine line)
    (keep : Bool) :
    (Comment.linesOf (Comment.ofLines
        (if keep then trailing else trailing.rdropWhile (· = [])))).filter (· ≠ [])
      = trailing.filter (· ≠ []) := by
  cases keep with
  | true => rw [if_pos rfl, Comment.linesOf_ofLines h]
  | false =>
    have hsub := (List.rdropWhile_prefix (fun line : Text => decide (line = [])) trailing).subset
    rw [if_neg Bool.false_ne_true, Comment.linesOf_ofLines fun line hline => h line (hsub hline),
      filter_rdropWhile_empty]

end Layout

/-- The comment and blank lines of a text, in order: those before each
property, and those behind the last one. -/
def Reading.comments (r : Reading) : List Text :=
  r.properties.flatMap Property.comments ++
    match r.ending with
    | .complete trailing => trailing
    | .failed pending _ _ => pending

namespace Store

variable {o : StoreOptions} {keep : Bool} {src : Sources} {source : Option Text} {t : Text}
  {st : Store} {notices : List Notice}

/-- **The layout that a text without directives leaves** in a fresh
store, where reading it succeeds. -/
theorem layout_of_read_ok {reading : Reading}
    (hreading : Reading.ofLines (ListDelimiter.kept o.delimiter) (PhysicalLines.ofText t).lines
      = reading)
    (hnone : ∀ p ∈ reading.properties, o.directive? p.key = none)
    (hread : (fresh o keep).read src source t = (.ok (), st, notices)) :
    ∃ trailing, reading.ending = .complete trailing ∧
      st.layout.header = Comment.ofLines (Layout.headerOf reading.properties) ∧
      st.layout.entries
        = Layout.entriesOf .empty (Layout.withoutHeader reading.properties) ∧
      st.layout.footer
        = Comment.ofLines (if keep then trailing else trailing.rdropWhile (· = [])) := by
  have hentries : ((fresh o keep).layout.enter (PhysicalLines.ofText t)).entries = .empty := rfl
  rw [read_of_none hreading hnone, Layout.foldl_place hentries] at hread
  cases hending : reading.ending with
  | failed pending fault line =>
    rw [hending] at hread
    exact absurd (congrArg Prod.fst hread) nofun
  | complete trailing =>
    rw [hending] at hread
    obtain rfl : _ = st := congrArg (fun result => result.2.1) hread
    exact ⟨trailing, rfl, rfl, rfl, rfl⟩

/-- **Loading loses no comment and adds none.** The lines of the header,
of the comments of the keys and of the footer are, empty ones apart, the
comment lines of the text, each as often as it was read. The comment of
a key is made of the blocks before its occurrences, one behind the
other, the header taken away from the first block of all. -/
theorem read_conserves_comments
    (hnone : ∀ p ∈ (Reading.ofLines (ListDelimiter.kept o.delimiter)
      (PhysicalLines.ofText t).lines).properties, o.directive? p.key = none)
    (hread : (fresh o keep).read src source t = (.ok (), st, notices)) :
    let reading := Reading.ofLines (ListDelimiter.kept o.delimiter) (PhysicalLines.ofText t).lines
    ((st.layout.comments.flatMap Comment.lines).filter (· ≠ [])).Perm
        (reading.comments.filter (· ≠ [])) ∧
      st.layout.header = Comment.ofLines (Layout.headerOf reading.properties) ∧
      ∀ k, (st.layout.entry k).comment
        = Comment.ofLines
            (Layout.blocksOf (Layout.withoutHeader reading.properties) k).flatten := by
  intro reading
  obtain ⟨trailing, hending, hheader, hentries, hfooter⟩ := layout_of_read_ok rfl hnone hread
  refine ⟨?_, hheader, fun k => ?_⟩
  · obtain ⟨hproperties, htrailing⟩ := Reading.isRead_ofLines (ListDelimiter.kept o.delimiter)
      (PhysicalLines.ofText t).lines
    have hlines : ∀ p ∈ reading.properties, ∀ line ∈ p.comments, Text.IsLine line :=
      fun p hp line hline =>
        PhysicalLines.isLine_of_mem_lines ((hproperties p hp).comments line hline)
    obtain ⟨hheaderLines, hblockLines⟩ := Layout.isLine_header_blocks hlines
    have hfooterLines := Layout.filter_linesOf_footer (fun line hline =>
      PhysicalLines.isLine_of_mem_lines (htrailing trailing hending line hline)) keep
    rw [← hfooter] at hfooterLines
    have hentryLines := Layout.linesOf_entriesOf hblockLines .empty
    rw [← hentries] at hentryLines
    have hreported : reading.comments.filter (· ≠ [])
        = (Layout.headerOf reading.properties
            ++ (Layout.withoutHeader reading.properties).flatMap Property.block).filter (· ≠ [])
          ++ trailing.filter (· ≠ []) := by
      rw [Layout.filter_header_blocks, ← List.filter_append, Reading.comments, hending]
    rw [hreported, Layout.flatMap_lines_comments, hheader, Comment.linesOf_ofLines hheaderLines,
      List.filter_append, hfooterLines]
    exact ((hentryLines.append_left _).filter _).append_right _
  · rw [← Layout.comment_entriesOf, ← hentries, Layout.entry, Layout.entry?]
    cases st.layout.entries.get? k <;> rfl

/-- A text with a header, a key that occurs twice, and a footer. -/
theorem read_conserves_comments_ports :
    let o : StoreOptions := { delimiter := (ListDelimiter.ofText [',']).toOption }
    let t := "# H\n\n# a\nk = 1\n# b\nj = 2\n\n# c\nk : 3\n# F\n".toList
    ∃ st, (fresh o true).read (Sources.inMemory [] []) none t = (.ok (), st, []) ∧
      st.layout.header = some "# H".toList ∧
      (st.layout.entry ['k']).comment = some "# a\n# c".toList := by
  intro o t
  have hreading : Reading.ofLines (ListDelimiter.kept o.delimiter) (PhysicalLines.ofText t).lines
      = ⟨[⟨['k'], ['1'], " = ".toList, ["# H".toList, [], "# a".toList], 4⟩,
          ⟨['j'], ['2'], " = ".toList, ["# b".toList], 6⟩,
          ⟨['k'], ['3'], " : ".toList, [[], "# c".toList], 9⟩], .complete ["# F".toList]⟩ := by
    decide +kernel
  have hnone : ∀ p ∈ (Reading.ofLines (ListDelimiter.kept o.delimiter)
      (PhysicalLines.ofText t).lines).properties, o.directive? p.key = none := by
    rw [hreading]
    decide +kernel
  have hread : (fresh o true).read (Sources.inMemory [] []) none t = _ :=
    read_of_none hreading (hreading ▸ hnone) true none
  obtain ⟨-, hheader, hcomment⟩ := read_conserves_comments hnone hread
  refine ⟨_, hread, hheader.trans ?_, (hcomment ['k']).trans ?_⟩
  · rw [hreading]
    decide
  · rw [hreading]
    decide

end Store

end PropertyFile
