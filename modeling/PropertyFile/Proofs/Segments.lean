import PropertyFile.Proofs.InStep
import PropertyFile.Proofs.PhysicalLine

/-!
# The segments of a saved file

A saved file is its header, one segment for each key, and its footer
(`SavedFile`); its text is the lines of these parts, joined around the
line break of the file. What a change of one key does to the text can be
told part by part: the value lines of the key become others, or a
segment comes in behind the last one, or a segment goes
(`saved_mutate`). Everything else stays as it was, with one exception.
The first segment may owe its only blank line to the header in front of
it, and when that segment goes, the next one may come to owe it one.

Where all keys of a layout have values, the segments are those of the
keys by themselves, the first of them kept apart from the header
(`keyedSegments_eq`). So a change is followed by what it does to the
entries of the layout and to the values of one key.
-/

namespace PropertyFile

open Text

namespace Layout

/-- The segments of some entries, each with its key. -/
def keyedSegmentsFrom (l : Layout) (style : WriteStyle) (values : Values) (leading : Bool) :
    List (Text × Entry) → List (Text × Segment)
  | [] => []
  | (key, e) :: rest =>
    let later := l.keyedSegmentsFrom style values false rest
    match values.get? key with
    | none => later
    | some vs => (key, l.segment style leading key e vs) :: later

theorem map_keyedSegmentsFrom (l : Layout) (style : WriteStyle) (values : Values)
    (leading : Bool) (es : List (Text × Entry)) :
    (l.keyedSegmentsFrom style values leading es).map Prod.snd
      = l.segmentsFrom style values leading es := by
  induction es generalizing leading with
  | nil => rfl
  | cons x rest ih =>
    obtain ⟨key, e⟩ := x
    rw [keyedSegmentsFrom, segmentsFrom, ← ih]
    cases values.get? key <;> rfl

/-- The segment with a blank line before it, if it has none. -/
def Segment.apart (s : Segment) : Segment :=
  { s with blankLines := if s.blankLines = 0 then 1 else s.blankLines }

/-- The segment of a key by itself. -/
def keyedSegment (l : Layout) (style : WriteStyle) (values : Values) (x : Text × Entry) :
    Text × Segment :=
  (x.1, l.segment style false x.1 x.2 (values.list x.1))

/-- Some segments behind a header, if there is one: the first is kept
apart from it. -/
def behindHeader (header : Bool) (segments : List (Text × Segment)) : List (Text × Segment) :=
  if header then segments.modifyHead (Prod.map id Segment.apart) else segments

/-- **The segments of keys that all have values** are those of the keys by
themselves. -/
theorem keyedSegments_eq {l : Layout} {style : WriteStyle} {values : Values}
    {es : List (Text × Entry)} (h : ∀ x ∈ es, x.1 ∈ values.keys) (leading : Bool) :
    l.keyedSegmentsFrom style values leading es
      = behindHeader leading (es.map (l.keyedSegment style values)) := by
  induction es generalizing leading with
  | nil => cases leading <;> rfl
  | cons x rest ih =>
    obtain ⟨key, e⟩ := x
    obtain ⟨hkey, hrest⟩ := List.forall_mem_cons.1 h
    obtain ⟨vs, hvs⟩ := OrderedMap.exists_get?_of_mem_keys hkey
    have hlist : values.list key = vs := by
      rw [Values.list, hvs]
      rfl
    rw [keyedSegmentsFrom, hvs, ih hrest, List.map_cons, keyedSegment]
    dsimp only
    rw [hlist]
    cases leading with
    | false => rfl
    | true =>
      refine congrArg (fun s => (key, s) :: rest.map (l.keyedSegment style values)) ?_
      cases hblank : e.blankLines with
      | zero => simp [segment, Segment.apart, hblank]
      | succ n => simp [segment, Segment.apart, hblank]

end Layout

/-! ## Saved files -/

/-- **A saved file in its parts.** -/
structure SavedFile where
  /-- The lines of the header. -/
  header : List Text
  /-- The segments of the keys, in the order of writing. -/
  segments : List (Text × Layout.Segment)
  /-- The lines of the footer. -/
  footer : List Text
  /-- The line break. -/
  terminator : Text
  /-- Whether the last line is ended by one. -/
  final : Bool

namespace SavedFile

/-- The lines of the file. -/
def lines (f : SavedFile) : List Text :=
  f.header ++ f.segments.flatMap (fun x => x.2.lines) ++ f.footer

/-- The text of the file: its lines with a line break between each two of
them, and one behind the last if it is to be ended. -/
def text (f : SavedFile) : Text :=
  joinWith f.terminator f.lines ++ if f.final && !f.lines.isEmpty then f.terminator else []

/-- The file with the value lines of a key replaced. -/
def withProperties (f : SavedFile) (key : Text) (properties : List Text) : SavedFile :=
  { f with segments := f.segments.map fun x =>
      if x.1 = key then (x.1, { x.2 with properties }) else x }

/-- The file with a further segment, behind all others. -/
def insert (f : SavedFile) (key : Text) (s : Layout.Segment) : SavedFile :=
  { f with segments := f.segments ++ [(key, s)] }

/-- The file without the segment of a key; `apart` asks for a blank line
before the segment that is the first then. -/
def delete (f : SavedFile) (key : Text) (apart : Bool) : SavedFile :=
  { f with segments := Layout.behindHeader apart (f.segments.filter (·.1 ≠ key)) }

end SavedFile

namespace Store

/-- The parts of the file that a store is saved to. -/
def saved (st : Store) : SavedFile where
  header := Layout.commentLines st.layout.header
  segments := st.layout.keyedSegmentsFrom st.style st.values st.layout.header.isSome
    st.layout.entries.entries
  footer := Layout.commentLines st.layout.footer
  terminator := st.layout.lineSeparator
  final := st.layout.finalNewline

/-- **The text of a store is that of its parts.** -/
theorem toText_eq_saved (st : Store) : st.toText = st.saved.text := by
  have hlines : st.layout.lines st.style st.values = st.saved.lines := by
    rw [Layout.lines, Layout.segments, ← Layout.map_keyedSegmentsFrom, List.flatMap_map]
    rfl
  rw [toText, Layout.save, hlines]
  exact textOfLines_eq _ _ _

end Store

/-! ## What a change keeps -/

namespace Values

variable {d : Option ListDelimiter} {values : Values} {key k : Text}

theorem list_add_of_ne (h : k ≠ key) (v : Value) : (values.add d key v).list k = values.list k := by
  unfold add
  cases parts d v with
  | nil => rfl
  | cons part rest => rw [list, list, OrderedMap.get?_update, if_neg h]

theorem list_erase_of_ne (h : k ≠ key) : Values.list (values.erase key) k = values.list k := by
  rw [list, list, OrderedMap.get?_erase, if_neg h]

end Values

namespace Store

variable {st : Store} {k v : Text} {m : Mutation}

/-- **What setting or adding a value does**: the entry of the key is made
or changed, but neither its comment nor its blank lines; the other keys
keep their values, and all keys have some. -/
theorem mutate_value (hkeys : ∀ k, k ∈ st.layout.keys ↔ k ∈ st.values.keys)
    (hidle : st.layout.loadDepth = 0) (hm : m = .set k (.one v) ∨ m = .add k (.one v)) :
    ∃ g : Entry → Entry, (∀ e, (g e).comment = e.comment ∧ (g e).blankLines = e.blankLines) ∧
      (st.mutate m).layout = st.layout.modifyEntry k g ∧
      (∀ k', k' ≠ k → (st.mutate m).values.list k' = st.values.list k') ∧
      ∀ k' ∈ (st.layout.modifyEntry k g).keys, k' ∈ (st.mutate m).values.keys := by
  have hloading : st.layout.isLoading = false := by
    rw [Layout.isLoading, hidle]
    rfl
  have hone : (Value.one v).texts ≠ [] := List.cons_ne_nil v []
  have hentry : ∀ (g : Entry → Entry), ∀ k' ∈ (st.layout.modifyEntry k g).keys,
      k' ∈ st.values.keys ∨ k' = k := fun g k' hk' =>
    (OrderedMap.mem_keys_update.1 hk').imp_left (hkeys k').1
  unfold Store.mutate Layout.observe
  rw [hloading]
  obtain rfl | rfl := hm
  · refine ⟨id, fun e => ⟨rfl, rfl⟩, rfl, fun k' hk' => ?_, fun k' hk' => ?_⟩
    · exact (Values.list_add_of_ne hk' _).trans (Values.list_erase_of_ne hk')
    · refine (Values.mem_keys_add hone).2 ?_
      rw [OrderedMap.mem_keys_erase]
      by_cases h : k' = k
      · exact .inr h
      · exact .inl ⟨(hentry id k' hk').resolve_right h, h⟩
  · exact ⟨fun e => { e with singleLine := !st.layout.contains k }, fun e => ⟨rfl, rfl⟩, rfl,
      fun k' hk' => Values.list_add_of_ne hk' _,
      fun k' hk' => (Values.mem_keys_add hone).2 (hentry _ k' hk')⟩

/-- **What removing a key does.** -/
theorem mutate_remove (hkeys : ∀ k, k ∈ st.layout.keys ↔ k ∈ st.values.keys)
    (hidle : st.layout.loadDepth = 0) (k : Text) :
    (st.mutate (.remove k)).layout = st.layout.remove k ∧
      (st.mutate (.remove k)).values = st.values.erase k ∧
      ∀ k' ∈ (st.layout.remove k).keys, k' ∈ (st.mutate (.remove k)).values.keys := by
  have hloading : st.layout.isLoading = false := by
    rw [Layout.isLoading, hidle]
    rfl
  unfold Store.mutate Layout.observe
  rw [hloading]
  refine ⟨rfl, rfl, fun k' hk' => ?_⟩
  obtain ⟨hmem, hne⟩ := OrderedMap.mem_keys_erase.1 hk'
  exact OrderedMap.mem_keys_erase.2 ⟨(hkeys k').1 hmem, hne⟩

/-- The segments of a store whose layout has only keys with values. -/
theorem segments_saved (hkeys : ∀ k ∈ st.layout.keys, k ∈ st.values.keys) :
    st.saved.segments = Layout.behindHeader st.layout.header.isSome
      (st.layout.entries.entries.map (st.layout.keyedSegment st.style st.values)) :=
  Layout.keyedSegments_eq (fun _ hx => hkeys _ (List.mem_map_of_mem hx)) _

end Store

/-! ## What a change does to the segments -/

namespace Layout

/-- What happens to single segments does not matter to the header. -/
theorem behindHeader_map {f : Text × Segment → Text × Segment}
    (hf : ∀ x, f (Prod.map id Segment.apart x) = Prod.map id Segment.apart (f x)) (header : Bool)
    (segments : List (Text × Segment)) :
    behindHeader header (segments.map f) = (behindHeader header segments).map f := by
  cases header with
  | false => rfl
  | true =>
    cases segments with
    | nil => rfl
    | cons x rest => exact congrArg (· :: rest.map f) (hf x).symm

/-- A segment that comes in last is behind the header only if it is the
first. -/
theorem behindHeader_concat (header : Bool) (segments : List (Text × Segment))
    (x : Text × Segment) :
    behindHeader header (segments ++ [x]) = behindHeader header segments ++
      [if header ∧ segments = [] then Prod.map id Segment.apart x else x] := by
  cases header with
  | false => simp [behindHeader]
  | true => cases segments <;> simp [behindHeader]

theorem map_fst_behindHeader (header : Bool) (segments : List (Text × Segment)) :
    (behindHeader header segments).map Prod.fst = segments.map Prod.fst := by
  cases header with
  | false => rfl
  | true => cases segments <;> rfl

/-- **A segment that goes**: if it was the first, the next one comes to
stand behind the header. -/
theorem behindHeader_filter (header : Bool) {segments : List (Text × Segment)} (k : Text)
    (hnodup : (segments.map Prod.fst).Nodup) :
    behindHeader header (segments.filter (·.1 ≠ k))
      = behindHeader (header && (segments.map Prod.fst).head? = some k)
          ((behindHeader header segments).filter (·.1 ≠ k)) := by
  cases header with
  | false => rfl
  | true =>
    cases segments with
    | nil => rfl
    | cons x rest =>
      obtain ⟨key, s⟩ := x
      obtain ⟨hnew, -⟩ := List.nodup_cons.1 hnodup
      by_cases hk : key = k
      · simp [behindHeader, hk]
      · simp [behindHeader, hk]

end Layout

namespace Store

variable {st : Store} {k v : Text}

/-- The segment of a key that has an entry. -/
theorem keyedSegment_of_entry {e : Entry} (h : st.layout.entry? k = some e) :
    st.layout.keyedSegment st.style st.values (k, e)
      = (k, { blankLines := e.blankLines
              comments := Layout.commentLines e.comment
              properties := st.linesOf k }) := by
  have hentry : st.layout.entry k = e := by
    rw [Layout.entry, h]
    rfl
  rw [linesOf, Layout.separatorOf, hentry]
  rfl

/-- A change of entries shows in the segments only. -/
theorem saved_mutate_eq {m : Mutation} {entries : OrderedMap Entry}
    (hlayout : (st.mutate m).layout = { st.layout with entries })
    (hkeys : ∀ k ∈ entries.keys, k ∈ (st.mutate m).values.keys) :
    (st.mutate m).saved = { st.saved with
      segments := Layout.behindHeader st.layout.header.isSome
        (entries.entries.map
          ((st.mutate m).layout.keyedSegment (st.mutate m).style (st.mutate m).values)) } := by
  have hsegments := (st.mutate m).segments_saved (by rwa [hlayout])
  rw [hlayout] at hsegments ⊢
  rw [← hsegments]
  unfold saved
  rw [hlayout]
  rfl

/-- A key that keeps its values keeps its segment. -/
theorem keyedSegment_mutate {m : Mutation} {entries : OrderedMap Entry}
    (hlayout : (st.mutate m).layout = { st.layout with entries }) {x : Text × Entry}
    (hlist : (st.mutate m).values.list x.1 = st.values.list x.1) :
    (st.mutate m).layout.keyedSegment (st.mutate m).style (st.mutate m).values x
      = st.layout.keyedSegment st.style st.values x := by
  unfold Layout.keyedSegment
  rw [hlayout, hlist]
  rfl

/-- Setting or adding a value of a key that is there. -/
theorem saved_mutate_of_mem (hkeys : ∀ k, k ∈ st.layout.keys ↔ k ∈ st.values.keys)
    (hidle : st.layout.loadDepth = 0) {m : Mutation}
    (hm : m = .set k (.one v) ∨ m = .add k (.one v)) (hk : k ∈ st.values.keys) :
    (st.mutate m).saved = st.saved.withProperties k ((st.mutate m).linesOf k) := by
  obtain ⟨g, hg, hlayout, hlist, hvalues⟩ := mutate_value hkeys hidle hm
  rw [saved_mutate_eq hlayout hvalues, SavedFile.withProperties,
    segments_saved fun k' => (hkeys k').1, ← Layout.behindHeader_map,
    OrderedMap.entries_update_of_mem ((hkeys k).2 hk), List.map_map, List.map_map]
  · refine congrArg (fun segments => { st.saved with
      segments := Layout.behindHeader st.layout.header.isSome segments })
      (List.map_congr_left fun x hx => ?_)
    obtain ⟨key, e⟩ := x
    by_cases hkey : key = k
    · subst hkey
      have hentry : st.layout.entry? key = some e := OrderedMap.get?_eq_some_iff.2 hx
      have hentry' : (st.mutate m).layout.entry? key = some (g e) := by
        rw [hlayout]
        refine (OrderedMap.get?_update _ _ _ _).trans ?_
        rw [if_pos rfl, show st.layout.entries.get? key = some e from hentry]
        rfl
      simp only [Function.comp_apply, if_true, Option.getD_some, keyedSegment_of_entry hentry,
        keyedSegment_of_entry hentry', (hg e).1, (hg e).2]
    · have hsame := keyedSegment_mutate hlayout (x := (key, e)) (hlist key hkey)
      simp only [Function.comp_apply, if_neg hkey, hsame]
      exact (if_neg hkey).symm
  · intro x
    by_cases hx : x.1 = k
    · simp only [Prod.map_fst, id_eq, if_pos hx]
      rfl
    · simp only [Prod.map_fst, id_eq, if_neg hx]

/-- Setting or adding a value of a new key. -/
theorem saved_mutate_of_not_mem (hkeys : ∀ k, k ∈ st.layout.keys ↔ k ∈ st.values.keys)
    (hidle : st.layout.loadDepth = 0) {m : Mutation}
    (hm : m = .set k (.one v) ∨ m = .add k (.one v)) (hk : k ∉ st.values.keys) :
    (st.mutate m).saved = st.saved.insert k
      { blankLines := if st.layout.header.isSome ∧ st.layout.keys = [] then 1 else 0
        comments := []
        properties := (st.mutate m).linesOf k } := by
  obtain ⟨g, hg, hlayout, hlist, hvalues⟩ := mutate_value hkeys hidle hm
  have hnew : k ∉ st.layout.keys := mt (hkeys k).1 hk
  have hentry : (st.mutate m).layout.entry? k = some (g {}) := by
    rw [hlayout]
    refine (OrderedMap.get?_update _ _ _ _).trans ?_
    rw [if_pos rfl, OrderedMap.get?_eq_none_iff.2 hnew]
    rfl
  have hold : st.layout.entries.entries.map
      ((st.mutate m).layout.keyedSegment (st.mutate m).style (st.mutate m).values)
      = st.layout.entries.entries.map (st.layout.keyedSegment st.style st.values) := by
    refine List.map_congr_left fun x hx => keyedSegment_mutate hlayout (hlist x.1 ?_)
    exact fun hxk => hnew (hxk ▸ List.mem_map_of_mem hx)
  have hempty : st.layout.entries.entries.map (st.layout.keyedSegment st.style st.values) = [] ↔
      st.layout.keys = [] := List.map_eq_nil_iff.trans List.map_eq_nil_iff.symm
  rw [saved_mutate_eq hlayout hvalues, SavedFile.insert, segments_saved fun k' => (hkeys k').1,
    OrderedMap.entries_update_of_not_mem hnew, List.map_append, hold, List.map_singleton,
    Layout.behindHeader_concat]
  refine congrArg (fun x => { st.saved with
    segments := Layout.behindHeader st.layout.header.isSome
      (st.layout.entries.entries.map (st.layout.keyedSegment st.style st.values)) ++ [x] }) ?_
  simp only [Option.getD_none, keyedSegment_of_entry hentry, (hg {}).1, (hg {}).2, hempty]
  split <;> rfl

/-- Removing a key. -/
theorem saved_mutate_remove (hkeys : ∀ k, k ∈ st.layout.keys ↔ k ∈ st.values.keys)
    (hidle : st.layout.loadDepth = 0) (k : Text) :
    (st.mutate (.remove k)).saved
      = st.saved.delete k (st.layout.header.isSome && st.layout.keys.head? = some k) := by
  obtain ⟨hlayout, herase, hvalues⟩ := mutate_remove hkeys hidle k
  have hold : (st.layout.entries.entries.filter fun x => x.1 ≠ k).map
      ((st.mutate (.remove k)).layout.keyedSegment (st.mutate (.remove k)).style
        (st.mutate (.remove k)).values)
      = (st.layout.entries.entries.map (st.layout.keyedSegment st.style st.values)).filter
          fun x => x.1 ≠ k := by
    rw [List.filter_map]
    refine List.map_congr_left fun x hx => keyedSegment_mutate hlayout ?_
    rw [herase]
    exact Values.list_erase_of_ne (of_decide_eq_true (List.mem_filter.1 hx).2)
  have hfst : (st.layout.entries.entries.map (st.layout.keyedSegment st.style st.values)).map
      Prod.fst = st.layout.keys := List.map_map
  rw [saved_mutate_eq hlayout hvalues, SavedFile.delete, segments_saved fun k' => (hkeys k').1,
    OrderedMap.erase, hold, Layout.behindHeader_filter _ _ (hfst ▸ st.layout.entries.nodup), hfst]

/-- **Changes are local in the saved text** of a store that is not loading
(while it is, its layout takes no notice of them). Setting or adding a
value of a key that is there replaces the value lines of the key; a new
key brings one segment of value lines, behind all others, with a blank
line before it only if it is the first key behind a header. Removing a
key deletes its segment; if that was the first behind a header, the next
one gets a blank line where it has none. Everything else stays: the other
lines, their order, the line break and whether the last line is ended. -/
theorem saved_mutate {st : Store} (hkeys : ∀ k, k ∈ st.layout.keys ↔ k ∈ st.values.keys)
    (hidle : st.layout.loadDepth = 0) (k v : Text) :
    (∀ st' : Store, st'.toText = st'.saved.text) ∧
    st.saved.segments.map Prod.fst = st.layout.keys ∧
    (∀ m, m = .set k (.one v) ∨ m = .add k (.one v) →
      (k ∈ st.values.keys →
        (st.mutate m).saved = st.saved.withProperties k ((st.mutate m).linesOf k)) ∧
      (k ∉ st.values.keys →
        (st.mutate m).saved = st.saved.insert k
          { blankLines := if st.layout.header.isSome ∧ st.layout.keys = [] then 1 else 0
            comments := []
            properties := (st.mutate m).linesOf k })) ∧
    (k ∈ st.values.keys →
      (st.mutate (.remove k)).saved
        = st.saved.delete k (st.layout.header.isSome && st.layout.keys.head? = some k)) := by
  refine ⟨toText_eq_saved, ?_, fun m hm => ⟨saved_mutate_of_mem hkeys hidle hm,
    saved_mutate_of_not_mem hkeys hidle hm⟩, fun _ => saved_mutate_remove hkeys hidle k⟩
  rw [segments_saved fun k' => (hkeys k').1, Layout.map_fst_behindHeader]
  exact List.map_map

/-- The first of two keys behind a header goes, and the other one is kept
apart from the header instead. -/
theorem saved_mutate_first :
    let st : Store :=
      { values := .ofList [(['a'], [['1']]), (['b'], [['2']])]
        layout :=
          { header := some "# head".toList
            entries := .ofList [(['a'], {}), (['b'], { comment := some "# note".toList })] } }
    (∀ k, k ∈ st.layout.keys ↔ k ∈ st.values.keys) ∧ st.layout.loadDepth = 0 ∧
      st.toText = "# head\n\na = 1\n# note\nb = 2\n".toList ∧
      (st.mutate (.remove ['a'])).saved = st.saved.delete ['a'] true ∧
      (st.mutate (.remove ['a'])).toText = "# head\n\n# note\nb = 2\n".toList := by
  intro st
  have hkeys : ∀ k, k ∈ st.layout.keys ↔ k ∈ st.values.keys := fun _ => Iff.rfl
  refine ⟨hkeys, rfl, by decide +kernel, ?_, by decide +kernel⟩
  exact (saved_mutate hkeys rfl ['a'] []).2.2.2 List.mem_cons_self

end Store

end PropertyFile
