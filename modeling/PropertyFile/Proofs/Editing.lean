import PropertyFile.Proofs.Loading
import PropertyFile.Proofs.PhysicalLine
import PropertyFile.Proofs.Writing

/-!
# Stores that are loaded and edited

A plain store that was loaded from a text and then edited key by key is
always in order (`Store.IsSound`): its layout has the keys that have
values, and what the layout holds can be written without breaking a
line. The invariant holds after every load (`isSound_loaded`), each edit
keeps it (`IsSound.mutate`), and so it holds after any number of edits
(`IsSound.edit`).
-/

namespace PropertyFile

open Text PhysicalLines

/-! ## Edits -/

/-- An edit of one key with a single text. -/
inductive KeyEdit where
  /-- Replaces the values of a key by one. -/
  | set (key value : Text)
  /-- Adds a value to a key. -/
  | add (key value : Text)
  /-- Removes a key. -/
  | remove (key : Text)
deriving DecidableEq, Repr

/-- The change that an edit makes. -/
def KeyEdit.mutation : KeyEdit → Mutation
  | set key value => .set key (.one value)
  | add key value => .add key (.one value)
  | remove key => .remove key

/-- **The store after some edits**, one after the other. -/
def Store.edit (st : Store) (edits : List KeyEdit) : Store :=
  edits.foldl (fun st e => st.mutate e.mutation) st

/-! ## Sound stores -/

/-- An entry that can be written without breaking a line. -/
structure Entry.IsSound (key : Text) (e : Entry) : Prop where
  /-- Its comment has no carriage return. -/
  comment : ∀ t ∈ e.comment, '\r' ∉ t
  /-- Its separator is one. -/
  separator : IsSeparator e.separator
  /-- An empty key has an assignment mark behind it, or nothing. -/
  keyless : key = [] → e.separator = [] ∨ e.separator.any isAssign = true

/-- **A sound store.** -/
structure Store.IsSound (st : Store) : Prop where
  /-- There is no list delimiter. -/
  plain : st.options.IsPlain
  /-- No load is running. -/
  idle : st.layout.loadDepth = 0
  /-- The layout has the keys of the store. -/
  keys : ∀ k, k ∈ st.layout.keys ↔ k ∈ st.values.keys
  /-- Every key has a value. -/
  values : ∀ k vs, st.values.get? k = some vs → vs ≠ []
  /-- Every entry can be written. -/
  entries : ∀ k e, st.layout.entry? k = some e → e.IsSound k
  /-- So can the header. -/
  header : ∀ t ∈ st.layout.header, '\r' ∉ t
  /-- And the footer. -/
  footer : ∀ t ∈ st.layout.footer, '\r' ∉ t
  /-- Lines are ended by a line break. -/
  lineBreak : ∃ b : LineBreak, st.layout.lineSeparator = b.chars
  /-- No separator replaces those of the keys. -/
  globalSeparator : st.layout.globalSeparator = none

/-! ## No key without values -/

/-- Adding to a key leaves no key without values. -/
theorem Values.ne_nil_of_add {d : Option ListDelimiter} {values : Values}
    (h : ∀ k vs, values.get? k = some vs → vs ≠ []) (key : Text) (v : Value) :
    ∀ k vs, (values.add d key v).get? k = some vs → vs ≠ [] := by
  intro k vs hvs
  rw [add] at hvs
  cases hparts : parts d v with
  | nil =>
    rw [hparts] at hvs
    exact h k vs hvs
  | cons first rest =>
    rw [hparts] at hvs
    have hget := (OrderedMap.get?_update values key k _).symm.trans hvs
    by_cases hk : k = key
    · rw [if_pos hk] at hget
      rw [← Option.some.inj hget]
      exact List.append_ne_nil_of_right_ne_nil _ (List.cons_ne_nil first rest)
    · rw [if_neg hk] at hget
      exact h k vs hget

theorem Values.ne_nil_of_erase {values : Values} (h : ∀ k vs, values.get? k = some vs → vs ≠ [])
    (key : Text) : ∀ k vs, OrderedMap.get? (values.erase key) k = some vs → vs ≠ [] := by
  intro k vs hvs
  rw [OrderedMap.get?_erase] at hvs
  by_cases hk : k = key
  · rw [if_pos hk] at hvs
    cases hvs
  · rw [if_neg hk] at hvs
    exact h k vs hvs

/-- **No change leaves a key without values**, whatever the list delimiter
is. -/
theorem Mutation.ne_nil_of_apply {d : Option ListDelimiter} {values : Values}
    (h : ∀ k vs, values.get? k = some vs → vs ≠ []) (m : Mutation) :
    ∀ k vs, (m.apply d values).get? k = some vs → vs ≠ [] := by
  cases m with
  | add key v => exact Values.ne_nil_of_add h key v
  | set key v => exact Values.ne_nil_of_add (Values.ne_nil_of_erase h key) key v
  | remove key => exact Values.ne_nil_of_erase h key
  | clear =>
    intro k vs hvs
    cases hvs

/-! ## Edits keep stores sound -/

/-- A fresh entry can be written. -/
theorem Entry.isSound_default (key : Text) : Entry.IsSound key {} where
  comment _ h := absurd h nofun
  separator := .default
  keyless _ := .inr rfl

namespace Store.IsSound

variable {st : Store}

/-- The entry of a key, or a fresh one. -/
theorem isSound_getD (h : st.IsSound) (key : Text) :
    Entry.IsSound key ((st.layout.entries.get? key).getD {}) := by
  cases hget : st.layout.entries.get? key with
  | none => exact Entry.isSound_default key
  | some e => exact h.entries key e hget

/-- A change of one entry and of the values of its key. -/
theorem update (h : st.IsSound) (key : Text) (f : Entry → Entry)
    (hf : ∀ e : Entry, e.IsSound key → (f e).IsSound key) (values : Values)
    (hkeys : ∀ k, k ∈ values.keys ↔ k ∈ st.values.keys ∨ k = key)
    (hvalues : ∀ k vs, values.get? k = some vs → vs ≠ []) :
    ({ st with values, layout := st.layout.modifyEntry key f } : Store).IsSound where
  plain := h.plain
  idle := h.idle
  keys k := by
    refine OrderedMap.mem_keys_update.trans ?_
    rw [hkeys]
    exact or_congr_left (h.keys k)
  values := hvalues
  entries k e he := by
    have hget := OrderedMap.get?_update st.layout.entries key k fun old => f (old.getD {})
    by_cases hk : k = key
    · subst hk
      rw [if_pos rfl] at hget
      rw [← Option.some.inj (hget.symm.trans he)]
      exact hf _ (h.isSound_getD k)
    · rw [if_neg hk] at hget
      exact h.entries k e (hget.symm.trans he)
  header := h.header
  footer := h.footer
  lineBreak := h.lineBreak
  globalSeparator := h.globalSeparator

/-- The layout of a sound store hears of every edit. -/
theorem observe_eq (h : st.IsSound) (e : KeyEdit) :
    st.layout.observe (e.mutation.event false) = match e with
      | .set key _ => st.layout.fetch key
      | .add key _ => st.layout.setSingleLine key (!st.layout.contains key)
      | .remove key => st.layout.remove key := by
  have hidle : st.layout.isLoading = false := by
    rw [Layout.isLoading, h.idle]
    rfl
  unfold Layout.observe
  rw [hidle]
  cases e <;> rfl

/-- **Every edit keeps a store sound.** -/
theorem mutate (h : st.IsSound) (e : KeyEdit) : (st.mutate e.mutation).IsSound := by
  -- an edit touches one key: its values, its entry, and nothing else
  have hlayout := h.observe_eq e
  have hfilled := e.mutation.ne_nil_of_apply (d := st.options.delimiter) h.values
  unfold Store.mutate
  rw [hlayout]
  cases e with
  | set key v =>
    have hvalues : (KeyEdit.set key v).mutation.apply st.options.delimiter st.values
        = (st.values.erase key).update key fun old => old.getD [] ++ [v] := by
      rw [h.plain.delimiter]
      rfl
    refine h.update key id (fun _ he => he) _ (fun k => ?_) hfilled
    rw [hvalues, OrderedMap.mem_keys_update, OrderedMap.mem_keys_erase]
    by_cases hk : k = key
    · simp [hk]
    · simp [hk]
  | add key v =>
    have hvalues : (KeyEdit.add key v).mutation.apply st.options.delimiter st.values
        = st.values.update key fun old => old.getD [] ++ [v] := by
      rw [h.plain.delimiter]
      rfl
    refine h.update key (fun e => { e with singleLine := !st.layout.contains key })
      (fun _ he => ⟨he.comment, he.separator, he.keyless⟩) _ (fun k => ?_) hfilled
    rw [hvalues]
    exact OrderedMap.mem_keys_update
  | remove key =>
    refine ⟨h.plain, h.idle, fun k => ?_, hfilled, fun k e he => ?_, h.header, h.footer,
      h.lineBreak, h.globalSeparator⟩
    · refine OrderedMap.mem_keys_erase.trans (Iff.trans ?_ OrderedMap.mem_keys_erase.symm)
      exact and_congr_left fun _ => h.keys k
    · have hget := (OrderedMap.get?_erase st.layout.entries key k).symm.trans he
      split at hget
      · exact absurd hget nofun
      · exact h.entries k e hget

/-- **Any number of edits keeps a store sound.** -/
theorem edit (h : st.IsSound) (edits : List KeyEdit) : (st.edit edits).IsSound := by
  induction edits generalizing st with
  | nil => exact h
  | cons e rest ih => exact ih (h.mutate e)

end Store.IsSound

/-! ## Loaded stores are sound -/

theorem not_mem_joinWith {lines : List Text} (h : ∀ l ∈ lines, IsLine l) :
    '\r' ∉ joinWith ['\n'] lines := by
  intro hmem
  obtain hmem | ⟨l, hl, hmem⟩ := mem_of_mem_joinWith hmem
  · exact absurd hmem (by decide)
  · exact (h l hl _ hmem).2 rfl

/-- A block of lines has no carriage return. -/
theorem not_mem_ofLines {lines : List Text} (h : ∀ l ∈ lines, IsLine l) :
    ∀ t ∈ Comment.ofLines lines, '\r' ∉ t := by
  intro t ht
  cases lines with
  | nil => exact absurd ht nofun
  | cons line rest =>
    obtain rfl := Option.some.inj ht
    exact not_mem_joinWith h

/-- Blocks without carriage returns have none together. -/
theorem not_mem_append {first second : Option Text} (hfirst : ∀ t ∈ first, '\r' ∉ t)
    (hsecond : ∀ t ∈ second, '\r' ∉ t) : ∀ t ∈ Comment.append first second, '\r' ∉ t := by
  cases first with
  | none =>
    cases second with
    | none => exact hsecond
    | some u => exact hsecond
  | some t =>
    cases second with
    | none => exact hfirst
    | some u =>
      intro w hw
      obtain rfl := Option.some.inj hw
      intro hmem
      obtain hmem | hmem := List.mem_append.1 hmem
      · exact hfirst t rfl hmem
      · obtain hbreak | hmem := List.mem_cons.1 hmem
        · exact absurd hbreak (by decide)
        · exact hsecond u rfl hmem

namespace Layout

/-- What comes to the layout with a property can be written. -/
theorem isSound_entryFor {p : Property} {lines : List Text} (hp : p.IsRead lines)
    (hlines : ∀ l ∈ lines, IsLine l) {old : Option Entry} (hold : ∀ e ∈ old, e.IsSound p.key) :
    (entryFor p old).IsSound p.key := by
  have hblock : ∀ t ∈ Comment.ofLines (p.comments.dropWhile (· = [])), '\r' ∉ t :=
    not_mem_ofLines fun l hl =>
      hlines l (hp.comments l (List.dropWhile_subset (· = []) hl))
  cases old with
  | none => exact ⟨hblock, hp.separator, hp.keyless⟩
  | some e =>
    obtain ⟨hcomment, hseparator, hkeyless⟩ := hold e rfl
    exact ⟨not_mem_append hcomment hblock, hseparator, hkeyless⟩

theorem isSound_entriesOf {lines : List Text} (hlines : ∀ l ∈ lines, IsLine l)
    {properties : List Property} (hproperties : ∀ p ∈ properties, p.IsRead lines)
    {m : OrderedMap Entry} (hm : ∀ k e, m.get? k = some e → e.IsSound k) :
    ∀ k e, (entriesOf m properties).get? k = some e → e.IsSound k := by
  induction properties generalizing m with
  | nil => exact hm
  | cons p rest ih =>
    obtain ⟨hp, hrest⟩ := List.forall_mem_cons.1 hproperties
    refine ih hrest fun k e he => ?_
    rw [OrderedMap.get?_update] at he
    by_cases hk : k = p.key
    · subst hk
      rw [if_pos rfl] at he
      rw [← Option.some.inj he]
      exact isSound_entryFor hp hlines fun e he => hm p.key e he
    · rw [if_neg hk] at he
      exact hm k e he

/-- The header belongs to the lines of the text, and so does what is left
of the first comment. -/
theorem isRead_withoutHeader {lines : List Text} {properties : List Property}
    (h : ∀ p ∈ properties, p.IsRead lines) :
    (∀ p ∈ withoutHeader properties, p.IsRead lines) ∧ ∀ l ∈ headerOf properties, l ∈ lines := by
  cases properties with
  | nil => exact ⟨h, fun l hl => absurd hl List.not_mem_nil⟩
  | cons p rest =>
    obtain ⟨hp, hrest⟩ := List.forall_mem_cons.1 h
    refine ⟨List.forall_mem_cons.2 ⟨⟨fun c hc => ?_, hp.separator, hp.keyless⟩, hrest⟩,
      fun l hl => ?_⟩
    · exact hp.comments c (List.mem_of_mem_drop hc)
    · refine hp.comments l ?_
      rw [← headerLines_append_drop p.comments]
      exact List.mem_append_left _ hl

end Layout

/-- The keys that were given a value are those of the pairs. -/
theorem Values.mem_keys_addPairs {pairs : List (Text × Text)} {k : Text} :
    k ∈ (Values.addPairs .empty pairs).keys ↔ k ∈ pairs.map Prod.fst :=
  (OrderedMap.mem_keys_foldl_update Prod.fst _).trans (or_iff_right List.not_mem_nil)

/-- **A loaded store is sound.** -/
theorem Store.isSound_loaded {o : StoreOptions} (ho : o.IsPlain) (keep : Bool) {t : Text}
    {properties : List Property} {trailing : List Text}
    (hreading : Reading.ofLines [] (ofText t).lines = ⟨properties, .complete trailing⟩) :
    (loaded o keep (ofText t) properties trailing).IsSound := by
  have hlines : ∀ l ∈ (ofText t).lines, IsLine l := fun l hl => isLine_of_mem_lines hl
  have hread := Reading.isRead_ofLines [] (ofText t).lines
  rw [hreading] at hread
  obtain ⟨hproperties, htrailing⟩ := hread
  obtain ⟨hkept, hheader⟩ := Layout.isRead_withoutHeader hproperties
  refine ⟨ho, rfl, fun k => ?_, fun k vs hvs => ?_, ?_, ?_, ?_, ?_, rfl⟩
  · have hkeys : k ∈ (Layout.entriesOf .empty (Layout.withoutHeader properties)).keys
        ↔ k ∈ (Layout.withoutHeader properties).map Property.key :=
      (OrderedMap.mem_keys_foldl_update Property.key _).trans (or_iff_right List.not_mem_nil)
    refine hkeys.trans (Iff.trans ?_ Values.mem_keys_addPairs.symm)
    rw [Layout.keys_withoutHeader, List.map_map]
    rfl
  · have hget := (Values.get?_addPairs (properties.map Property.pair) k).symm.trans hvs
    exact Values.ne_nil_of_content_eq_some hget
  · exact Layout.isSound_entriesOf hlines hkept fun k e he => absurd he nofun
  · exact not_mem_ofLines fun l hl => hlines l (hheader l hl)
  · refine not_mem_ofLines fun l hl => hlines l (htrailing trailing rfl l ?_)
    cases keep with
    | true => exact hl
    | false => exact (List.rdropWhile_prefix (· = []) trailing).subset hl
  · show ∃ b : LineBreak, Layout.lineSeparator
      { lineSeparator? := (ofText t).firstBreak.map LineBreak.chars } = b.chars
    cases (ofText t).firstBreak with
    | none => exact ⟨.lf, rfl⟩
    | some b => exact ⟨b, by cases b <;> rfl⟩

end PropertyFile
