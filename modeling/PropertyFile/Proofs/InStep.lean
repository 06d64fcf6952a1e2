import PropertyFile.Proofs.Editing
import PropertyFile.Proofs.Including

/-!
# Stores and layouts in step

The values of a store and its layout change by different ways: mutations
reach the layout as events, which are passed over while a load is running,
and loads write to both. They stay **in step** nonetheless
(`Store.InStep`): the layout has the keys that have values, and no load is
left running. Every mutation keeps this (`InStep.mutate`), and so does
every read, with all that it includes and wherever it stops
(`InStep.read`); hence it holds after any number of both (`InStep.run`).

The condition is what makes writing complete: a key of a store that is in
step has lines of its own in the file (`InStep.exists_toText`).
-/

namespace PropertyFile

/-! ## Keys of the values -/

theorem OrderedMap.exists_get?_of_mem_keys {α : Type} {m : OrderedMap α} {k : Text}
    (h : k ∈ m.keys) : ∃ a, m.get? k = some a :=
  Option.ne_none_iff_exists'.1 (mt get?_eq_none_iff.1 (not_not.2 h))

theorem ListDelimiter.cut_ne_nil (d : ListDelimiter) (raw : Text) : d.cut raw ≠ [] := by
  have hcons : ∀ (c : Char) {parts : List Text}, parts ≠ [] → Text.consHead c parts ≠ [] := by
    intro c parts h
    cases parts with
    | nil => exact absurd rfl h
    | cons part rest => exact List.cons_ne_nil _ _
  fun_induction cut d raw with
  | case1 | case2 => exact List.cons_ne_nil _ _
  | case3 e rest parts _ ih => exact hcons e ih
  | case4 e rest parts _ ih => exact hcons escapeMark (hcons e ih)
  | case5 => exact List.cons_ne_nil _ _
  | case6 c rest _ _ ih => exact hcons c ih

/-- A text has at least one part. -/
theorem ListDelimiter.split_ne_nil (d : Option ListDelimiter) (trim : Bool) (raw : Text) :
    split d trim raw ≠ [] := by
  cases d with
  | none => exact List.cons_ne_nil _ _
  | some d =>
    unfold split
    dsimp only
    split
    · exact fun h => d.cut_ne_nil raw (List.map_eq_nil_iff.1 h)
    · exact d.cut_ne_nil raw

/-- Adding some texts to a key makes it a key, if there is one at all. -/
theorem Values.mem_keys_add {d : Option ListDelimiter} {values : Values} {key k : Text} {v : Value}
    (h : v.texts ≠ []) : k ∈ (values.add d key v).keys ↔ k ∈ values.keys ∨ k = key := by
  have hparts : parts d v ≠ [] := by
    obtain ⟨t, rest, ht⟩ := List.exists_cons_of_ne_nil h
    rw [parts, ht, List.flatMap_cons]
    exact List.append_ne_nil_of_left_ne_nil (ListDelimiter.split_ne_nil d true t) _
  obtain ⟨part, rest, hcons⟩ := List.exists_cons_of_ne_nil hparts
  rw [add, hcons]
  exact OrderedMap.mem_keys_update

/-! ## In step -/

/-- Whether a layout has just the keys that have values, and every one of
these at least one. -/
structure Layout.Matches (l : Layout) (values : Values) : Prop where
  /-- The keys are the same. -/
  keys : ∀ k, k ∈ l.keys ↔ k ∈ values.keys
  /-- No key goes without a value. -/
  values : ∀ k vs, values.get? k = some vs → vs ≠ []

namespace Layout.Matches

variable {l : Layout} {values : Values}

/-- A key comes in on both sides. -/
theorem update (h : l.Matches values) (key : Text) (f : Option Entry → Entry)
    (d : Option ListDelimiter) {v : Value} (hv : v.texts ≠ []) (header : Option Text) :
    Matches { l with header, entries := l.entries.update key f } (values.add d key v) where
  keys k := by
    refine OrderedMap.mem_keys_update.trans (Iff.trans ?_ (Values.mem_keys_add hv).symm)
    exact or_congr_left (h.keys k)
  values := Values.ne_nil_of_add h.values key v

/-- A key goes on both sides. -/
theorem erase (h : l.Matches values) (key : Text) :
    (l.remove key).Matches (values.erase key) where
  keys k := by
    refine OrderedMap.mem_keys_erase.trans (Iff.trans ?_ OrderedMap.mem_keys_erase.symm)
    exact and_congr_left fun _ => h.keys k
  values := Values.ne_nil_of_erase h.values key

end Layout.Matches

namespace Store

/-- **A store in step with its layout.** -/
structure InStep (st : Store) : Prop where
  /-- The layout has the keys of the store. -/
  matched : st.layout.Matches st.values
  /-- No load is running. -/
  idle : st.layout.loadDepth = 0

/-- What a caller does to a store: it changes it, or has it read a
text. -/
inductive Step where
  /-- A change. -/
  | mutate (m : Mutation)
  /-- Reading a text with the given sources and name. -/
  | read (src : Sources) (source : Option Text) (t : Text)

/-- The store after a step. Of a read that fails it keeps what came in
before the fault. -/
def Step.apply (st : Store) : Step → Store
  | mutate m => st.mutate m
  | read src source t => (st.read src source t).2.1

/-- Whether the values that a step hands over are values: no empty lists. -/
def Step.IsFilled : Step → Prop
  | mutate (.add _ v) | mutate (.set _ v) => v.texts ≠ []
  | _ => True

/-- **The store after some steps**, one behind the other. -/
def run (st : Store) (steps : List Step) : Store := steps.foldl Step.apply st

namespace InStep

variable {st : Store}

theorem fresh (o : StoreOptions) (keep : Bool) : (Store.fresh o keep).InStep where
  matched := ⟨fun _ => Iff.rfl, fun _ _ h => absurd h nofun⟩
  idle := rfl

/-- **Changes keep a store in step**: they come to a layout that
listens. -/
theorem mutate (h : st.InStep) {m : Mutation} (hm : (Step.mutate m).IsFilled) :
    (st.mutate m).InStep := by
  have hidle : st.layout.isLoading = false := by
    rw [Layout.isLoading, h.idle]
    rfl
  unfold Store.mutate Layout.observe
  rw [hidle]
  cases m with
  | add key v => exact ⟨h.matched.update key _ st.options.delimiter hm st.layout.header, h.idle⟩
  | set key v =>
    refine ⟨⟨fun k => ?_, ?_⟩, h.idle⟩
    · -- the values of the key go first, and come back
      refine OrderedMap.mem_keys_update.trans (Iff.trans ?_ (Values.mem_keys_add hm).symm)
      rw [OrderedMap.mem_keys_erase]
      by_cases hk : k = key
      · simp [hk]
      · rw [and_iff_left hk]
        exact or_congr_left (h.matched.keys k)
    · exact Mutation.ne_nil_of_apply h.matched.values (.set key v)
  | remove key => exact ⟨h.matched.erase key, h.idle⟩
  | clear => exact ⟨⟨fun _ => Iff.rfl, fun _ _ h => by cases h⟩, h.idle⟩

/-- In a load, layout and values stay in step at every depth. -/
theorem loadInvariant (o : StoreOptions) :
    LoadInvariant o fun depth s => s.1.Matches s.2.values ∧ s.1.loadDepth = depth where
  keep outermost p _ h := by
    obtain ⟨header, block, hplace⟩ := Layout.place_eq outermost _ p
    rw [hplace]
    have hone : (Value.one p.value).texts ≠ [] := List.cons_ne_nil p.value []
    exact ⟨h.1.update p.key _ o.delimiter hone header, h.2⟩
  note _ h := h
  enter _ h := ⟨⟨h.1.keys, h.1.values⟩, congrArg (· + 1) h.2⟩
  footer _ h := ⟨⟨h.1.keys, h.1.values⟩, h.2⟩
  leave h := ⟨⟨h.1.keys, h.1.values⟩, congrArg (· - 1) h.2⟩

/-- **Reading keeps a store in step**, whether it succeeds or fails. -/
theorem read (h : st.InStep) (src : Sources) (source : Option Text) (t : Text) :
    (st.read src source t).2.1.InStep := by
  obtain ⟨hmatched, hidle⟩ := (loadInvariant st.options).load src (stackOf source)
    (sourceName source (stackOf source)) t (s := (st.layout, ⟨st.values, []⟩))
    ⟨h.matched, h.idle⟩
  exact ⟨hmatched, hidle⟩

theorem apply (h : st.InStep) {s : Step} (hs : s.IsFilled) : (s.apply st).InStep := by
  cases s with
  | mutate m => exact h.mutate hs
  | read src source t => exact h.read src source t

/-- **Any number of steps keep a store in step.** -/
theorem run (h : st.InStep) {steps : List Step} (hsteps : ∀ s ∈ steps, s.IsFilled) :
    (st.run steps).InStep := by
  induction steps generalizing st with
  | nil => exact h
  | cons s rest ih =>
    obtain ⟨hs, hrest⟩ := List.forall_mem_cons.1 hsteps
    exact ih (h.apply hs) hrest

end InStep

end Store

/-! ## Every key is written -/

/-- A property with values has lines. -/
theorem propertyLines_ne_nil (style : WriteStyle) (separator key : Text) {values : List Text}
    (h : values ≠ []) (singleLine : Bool) :
    propertyLines style separator key values singleLine ≠ [] := by
  unfold propertyLines
  dsimp only
  rw [if_neg (by simpa using h)]
  split
  · split
    · exact List.cons_ne_nil _ _
    · simpa using h
  · simpa using h

namespace Layout

/-- A key with an entry and values has a segment. -/
theorem exists_segment (l : Layout) (style : WriteStyle) {values : OrderedMap (List Text)}
    {k : Text} {e : Entry} {vs : List Text} (hvs : values.get? k = some vs)
    {entries : List (Text × Entry)} (he : (k, e) ∈ entries) (leading : Bool) :
    ∃ leading', l.segment style leading' k e vs ∈ l.segmentsFrom style values leading entries := by
  induction entries generalizing leading with
  | nil => exact absurd he List.not_mem_nil
  | cons first rest ih =>
    obtain ⟨key, entry⟩ := first
    rw [segmentsFrom]
    obtain heq | hrest := List.mem_cons.1 he
    · obtain ⟨rfl, rfl⟩ := Prod.mk.inj heq
      rw [hvs]
      exact ⟨leading, List.mem_cons_self⟩
    · obtain ⟨leading', hmem⟩ := ih hrest false
      refine ⟨leading', ?_⟩
      cases values.get? key with
      | none => exact hmem
      | some ws => exact List.mem_cons_of_mem _ hmem

/-- The lines of a segment stand in the file. -/
theorem isInfix_lines {l : Layout} {style : WriteStyle} {values : OrderedMap (List Text)}
    {s : Segment} (h : s ∈ l.segments style values) :
    s.properties <:+: l.lines style values := by
  obtain ⟨before, behind, hsegments⟩ := List.append_of_mem h
  refine ⟨commentLines l.header ++ before.flatMap Segment.lines ++ List.replicate s.blankLines []
    ++ s.comments, behind.flatMap Segment.lines ++ commentLines l.footer, ?_⟩
  rw [lines, hsegments, List.flatMap_append, List.flatMap_cons, Segment.lines]
  simp only [List.append_assoc]

end Layout

namespace Store

/-- The lines that the values of a key are written on. -/
def linesOf (st : Store) (k : Text) : List Text :=
  propertyLines st.style (st.layout.separatorOf k) k (st.values.list k)
    (st.layout.forceSingleLine || (st.layout.entry k).singleLine)

/-- **A store in step drops no key** when it is written: the key has
lines, and they stand in the text one behind the other. -/
theorem InStep.exists_toText {st : Store} (h : st.InStep) {k : Text} (hk : k ∈ st.values.keys) :
    st.linesOf k ≠ [] ∧ ∃ before behind, st.toText
      = textOfLines st.layout.lineSeparator st.layout.finalNewline
          (before ++ st.linesOf k ++ behind) := by
  obtain ⟨vs, hvs⟩ := OrderedMap.exists_get?_of_mem_keys hk
  obtain ⟨e, he⟩ := OrderedMap.exists_get?_of_mem_keys ((h.matched.keys k).2 hk)
  have hlines : st.linesOf k = propertyLines st.style (st.layout.globalSeparator.getD e.separator) k
      vs (st.layout.forceSingleLine || e.singleLine) := by
    rw [linesOf, Layout.separatorOf, Layout.entry, Layout.entry?, Values.list, he, hvs]
    rfl
  refine ⟨hlines ▸ propertyLines_ne_nil _ _ _ (h.matched.values k vs hvs) _, ?_⟩
  obtain ⟨leading, hmem⟩ := st.layout.exists_segment st.style hvs
    (OrderedMap.get?_eq_some_iff.1 he) st.layout.header.isSome
  obtain ⟨before, behind, hfile⟩ := Layout.isInfix_lines hmem
  refine ⟨before, behind, ?_⟩
  rw [hlines]
  exact congrArg (textOfLines _ _) hfile.symm

/-- **Store and layout stay in step** over whole runs of changes and
reads, from a fresh store on: they have the same keys, every key has a
value, and no load is left running. So every key of the store is written,
with all its values. -/
theorem run_inStep (o : StoreOptions) (keep : Bool) (steps : List Step)
    (h : ∀ s ∈ steps, s.IsFilled) :
    let st := (fresh o keep).run steps
    (∀ k, k ∈ st.layout.keys ↔ k ∈ st.values.keys) ∧
      (∀ k ∈ st.values.keys, st.values.list k ≠ []) ∧
      st.layout.loadDepth = 0 ∧
      ∀ k ∈ st.values.keys, st.linesOf k ≠ [] ∧ ∃ before behind, st.toText
        = textOfLines st.layout.lineSeparator st.layout.finalNewline
            (before ++ st.linesOf k ++ behind) := by
  have hrun := (InStep.fresh o keep).run h
  refine ⟨hrun.matched.keys, fun k hk => ?_, hrun.idle, fun k hk => hrun.exists_toText hk⟩
  obtain ⟨vs, hvs⟩ := OrderedMap.exists_get?_of_mem_keys hk
  rw [Values.list, hvs]
  exact hrun.matched.values k vs hvs

/-- Also when a source that has to be there is missing, behind properties
that came in already. -/
theorem run_inStep_missing :
    let steps : List Step :=
      [.mutate (.add "port".toList (.many ["80".toList, "81".toList])),
        .read (Sources.inMemory [] []) none "host = a\ninclude = b\n".toList,
        .mutate (.remove "port".toList)]
    let st := (fresh {} true).run steps
    (∀ s ∈ steps, s.IsFilled) ∧ (∀ k, k ∈ st.layout.keys ↔ k ∈ st.values.keys) ∧
      (∀ k ∈ st.values.keys, st.values.list k ≠ []) ∧ st.layout.loadDepth = 0 := by
  intro steps st
  have hfilled : ∀ s ∈ steps, s.IsFilled := by
    simp only [steps, List.forall_mem_cons]
    exact ⟨List.cons_ne_nil _ _, trivial, trivial, fun _ h => absurd h List.not_mem_nil⟩
  obtain ⟨hkeys, hvalues, hidle, -⟩ := run_inStep {} true steps hfilled
  exact ⟨hfilled, hkeys, hvalues, hidle⟩

end Store

end PropertyFile
