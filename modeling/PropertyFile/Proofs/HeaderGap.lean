import PropertyFile.Proofs.InStep

/-!
# The blank line behind the header

A header is told from the comment of the first property by the blank
lines between them, so writing a file adds one where there is none. It
is added for the first key of the layout. That is the first property of
the file only if the key has values: a key without values is passed over
in writing, and takes the blank line with it. So a header is kept apart
from the first property if and only if that belongs to the first key of
the layout, or has blank lines of its own (`keepsHeaderApart_iff`). In a
store in step with its layout no key is passed over, and its header is
always kept apart (`InStep.keepsHeaderApart`).
-/

namespace PropertyFile

namespace Layout

/-- Whether an entry is written: its key has values. -/
def isWritten (values : Values) (x : Text × Entry) : Bool := (values.get? x.1).isSome

/-- The first entry that is written. -/
def firstWritten? (l : Layout) (values : Values) : Option (Text × Entry) :=
  l.entries.entries.find? (isWritten values)

/-- A segment has blank lines if its entry has, or if it is to lead. -/
theorem blankLines_segment_pos {l : Layout} {style : WriteStyle} {leading : Bool} {key : Text}
    {e : Entry} {vs : List Text} :
    0 < (l.segment style leading key e vs).blankLines ↔ leading = true ∨ 0 < e.blankLines := by
  rw [segment]
  cases leading with
  | false => simp
  | true =>
    cases hblank : e.blankLines with
    | zero => simp
    | succ n => simp

/-- **The first segment** is that of the first entry with values, and a
header is kept apart from it only where the entry is the first of all. -/
theorem head?_segmentsFrom (l : Layout) (style : WriteStyle) (values : Values) (leading : Bool)
    (es : List (Text × Entry)) :
    (l.segmentsFrom style values leading es).head?
      = (es.find? (isWritten values)).map fun x =>
          l.segment style (leading && decide (es.head? = some x)) x.1 x.2 (values.list x.1) := by
  induction es generalizing leading with
  | nil => rfl
  | cons x rest ih =>
    rw [segmentsFrom]
    cases hvalues : values.get? x.1 with
    | some vs =>
      have hlist : values.list x.1 = vs := by rw [Values.list, hvalues, Option.getD_some]
      have hwritten : isWritten values x = true := by rw [isWritten, hvalues, Option.isSome_some]
      rw [List.find?_cons_of_pos hwritten, Option.map_some, hlist]
      simp
    | none =>
      have hskipped : ¬ isWritten values x = true := by simp [isWritten, hvalues]
      rw [List.find?_cons_of_neg hskipped]
      refine (ih false).trans (Option.map_congr fun y hy => ?_)
      have hne : x ≠ y := by
        rintro rfl
        exact hskipped (List.find?_some hy)
      simp [hne]

end Layout

namespace Store

/-- **A header that is kept apart**: if there is one, and a property is
written, the lines of the file are those of the header, then blank lines,
at least one, then the comment and the values of the first property, and
whatever follows. -/
def KeepsHeaderApart (st : Store) : Prop :=
  ∀ header first rest, st.layout.header = some header →
    st.layout.segments st.style st.values = first :: rest →
    ∃ n, 0 < n ∧ st.layout.lines st.style st.values
      = Layout.commentLines (some header) ++ List.replicate n [] ++
          (first.comments ++ first.properties) ++
          (rest.flatMap Layout.Segment.lines ++ Layout.commentLines st.layout.footer)

variable {st : Store}

/-- The blank lines in front of the first property are those of its
segment. -/
theorem keepsHeaderApart_iff_blankLines :
    st.KeepsHeaderApart ↔ st.layout.header.isSome = true →
      ∀ first, (st.layout.segments st.style st.values).head? = some first →
        0 < first.blankLines := by
  have hlines : ∀ header first rest, st.layout.header = some header →
      st.layout.segments st.style st.values = first :: rest →
      st.layout.lines st.style st.values
        = Layout.commentLines (some header) ++ List.replicate first.blankLines [] ++
            (first.comments ++ first.properties) ++
            (rest.flatMap Layout.Segment.lines ++ Layout.commentLines st.layout.footer) := by
    intro header first rest hheader hsegments
    rw [Layout.lines, hheader, hsegments, List.flatMap_cons, Layout.Segment.lines]
    simp only [List.append_assoc]
  constructor
  · intro h hsome first hfirst
    obtain ⟨header, hheader⟩ := Option.isSome_iff_exists.1 hsome
    obtain ⟨rest, hsegments⟩ := List.head?_eq_some_iff.1 hfirst
    obtain ⟨n, hn, heq⟩ := h header first rest hheader hsegments
    -- the lines determine how many of them are blank in this place
    have hlength :=
      congrArg List.length ((hlines header first rest hheader hsegments).symm.trans heq)
    simp only [List.length_append, List.length_replicate] at hlength
    omega
  · intro h header first rest hheader hsegments
    have hsome : st.layout.header.isSome = true := by rw [hheader, Option.isSome_some]
    have hfirst : (st.layout.segments st.style st.values).head? = some first := by
      rw [hsegments, List.head?_cons]
    exact ⟨first.blankLines, h hsome first hfirst, hlines header first rest hheader hsegments⟩

/-- Whether the first entry that is written is the first of all, or has
blank lines of its own. -/
def LeadsWritten (st : Store) : Prop :=
  ∀ x, st.layout.firstWritten? st.values = some x →
    st.layout.entries.entries.head? = some x ∨ 0 < x.2.blankLines

/-- Behind a header, the first segment has blank lines where the first
entry that is written leads, or brings its own. -/
theorem blankLines_head_iff (hsome : st.layout.header.isSome = true) :
    (∀ first, (st.layout.segments st.style st.values).head? = some first → 0 < first.blankLines)
      ↔ st.LeadsWritten := by
  rw [Layout.segments, hsome, Layout.head?_segmentsFrom, LeadsWritten, Layout.firstWritten?]
  cases st.layout.entries.entries.find? (Layout.isWritten st.values) with
  | none => exact ⟨fun _ => nofun, fun _ => nofun⟩
  | some x =>
    simp only [Option.map_some, Option.some.injEq, forall_eq', Layout.blankLines_segment_pos,
      Bool.true_and, decide_eq_true_eq]

/-- **When the header is kept apart** from the first property that is
written: if and only if there is no header, or no property is written, or
the first one belongs to the first key of the layout or has blank lines
of its own. -/
theorem keepsHeaderApart_iff (st : Store) :
    st.KeepsHeaderApart ↔ (st.layout.header.isSome = true → st.LeadsWritten) :=
  keepsHeaderApart_iff_blankLines.trans (imp_congr_right blankLines_head_iff)

/-- A store whose first key has no values, with a header. -/
def headed : Store :=
  let st := ((fresh {} true).mutate (.set "a".toList (.many []))).mutate
    (.set "b".toList (.one "v".toList))
  { st with layout := { st.layout with header := some "H".toList } }

/-- **A key without values takes the blank line with it.** The header
stands right before the first property. -/
theorem not_keepsHeaderApart_headed :
    headed.toText = "# H\nb = v\n".toList ∧ ¬ headed.KeepsHeaderApart := by
  refine ⟨by decide, fun h => ?_⟩
  have hblank := keepsHeaderApart_iff_blankLines.1 h rfl _ rfl
  exact absurd hblank (by decide)

/-- In a store in step with its layout no key is passed over. -/
theorem InStep.leadsWritten (h : st.InStep) : st.LeadsWritten := by
  intro x hx
  rw [Layout.firstWritten?] at hx
  cases hentries : st.layout.entries.entries with
  | nil => cases hentries ▸ hx
  | cons y rest =>
    have hkey : y.1 ∈ st.layout.keys := by
      rw [Layout.keys, OrderedMap.keys, hentries]
      exact List.mem_cons_self
    obtain ⟨vs, hvs⟩ := OrderedMap.exists_get?_of_mem_keys ((h.matched.keys y.1).1 hkey)
    have hwritten : Layout.isWritten st.values y = true := by
      rw [Layout.isWritten, hvs, Option.isSome_some]
    rw [hentries, List.find?_cons_of_pos hwritten] at hx
    exact .inl hx

/-- **The header of a store in step with its layout is kept apart** from
the first property. -/
theorem InStep.keepsHeaderApart (h : st.InStep) : st.KeepsHeaderApart :=
  keepsHeaderApart_iff_blankLines.2 fun hsome => (blankLines_head_iff hsome).2 h.leadsWritten

end Store

end PropertyFile
