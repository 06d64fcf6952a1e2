import Mathlib.Data.List.DropRight
import PropertyFile.Proofs.OrderedMap
import PropertyFile.Proofs.Reading
import PropertyFile.Store.Load

/-!
# Loading into a plain store

A store is **plain** if it has neither a list delimiter nor include
keys. Then every property is kept with its one value, no other source is
ever opened, and loading a text into a fresh store is a function of what
reading the text gives (`read_fresh`): the values come in one by one,
the first property is parted from the header, and each property makes or
extends the entry of its key.
-/

namespace PropertyFile

/-- **Plain options**: no list delimiter, and include keys switched off. -/
structure StoreOptions.IsPlain (o : StoreOptions) : Prop where
  /-- Values are not cut. -/
  delimiter : o.delimiter = none
  /-- No key includes a source that has to be there. -/
  includeKey : o.includeKey = none
  /-- No key includes a source that may be missing. -/
  includeOptionalKey : o.includeOptionalKey = none

/-! ## Values -/

/-- The values with a list of keys and single values added in order. -/
def Values.addPairs (values : Values) (pairs : List (Text × Text)) : Values :=
  pairs.foldl (fun m p => m.update p.1 fun old => old.getD [] ++ [p.2]) values

/-- The key and the value of a property. -/
def Property.pair (p : Property) : Text × Text := (p.key, p.value)

/-- What there is for a key with the given values: a key without values
does not exist. -/
def Values.content : List Text → Option (List Text)
  | [] => none
  | v :: vs => some (v :: vs)

theorem Values.content_injective : Function.Injective content := by
  intro vs ws h
  cases vs with
  | nil =>
    cases ws with
    | nil => rfl
    | cons w ws => exact absurd h nofun
  | cons v vs =>
    cases ws with
    | nil => exact absurd h nofun
    | cons w ws => exact Option.some.inj h

theorem Values.ne_nil_of_content_eq_some {vs ws : List Text} (h : content vs = some ws) :
    ws ≠ [] := by
  cases vs with
  | nil => exact absurd h nofun
  | cons v vs => exact Option.some.inj h ▸ List.cons_ne_nil v vs

/-- A key holds the values that were given for it, in order. -/
theorem Values.get?_addPairs (pairs : List (Text × Text)) (k : Text) :
    (Values.addPairs .empty pairs).get? k
      = content ((pairs.filter fun p => p.1 = k).map Prod.snd) := by
  have hrun : ∀ (ps : List (Text × Text)) (vs : List Text),
      ps.foldl (fun (content : Option (List Text)) p => some (content.getD [] ++ [p.2])) (some vs)
        = some (vs ++ ps.map Prod.snd) := by
    intro ps
    induction ps with
    | nil => simp
    | cons p ps ih =>
      intro vs
      rw [List.foldl_cons, Option.getD_some, ih, List.append_assoc]
      rfl
  rw [Values.addPairs, OrderedMap.get?_foldl_update]
  cases pairs.filter fun p => p.1 = k with
  | nil => rfl
  | cons p ps =>
    rw [List.foldl_cons]
    exact hrun ps [p.2]

namespace Layout

/-! ## Entries -/

/-- The entry of a property that comes to the layout, from the one its
key had. -/
def entryFor (p : Property) : Option Entry → Entry
  | none => firstEntry p.comments p.separator
  | some e => laterEntry e p.comments

/-- The header that stands in front of the first of some properties. -/
def headerOf : List Property → List Text
  | [] => []
  | p :: _ => headerLines p.comments

/-- Some properties, the header taken away from the first of them. -/
def withoutHeader : List Property → List Property
  | [] => []
  | p :: rest => { p with comments := p.comments.drop (headerLines p.comments).length } :: rest

/-- The entries made by some properties one after the other. -/
def entriesOf (m : OrderedMap Entry) (properties : List Property) : OrderedMap Entry :=
  properties.foldl (fun m p => m.update p.key (entryFor p)) m

theorem keys_withoutHeader (properties : List Property) :
    (withoutHeader properties).map Property.key = properties.map Property.key := by
  cases properties <;> rfl

theorem place_of_size_ne {l : Layout} (h : l.entries.size ≠ 0) (p : Property) :
    l.place true p = { l with entries := l.entries.update p.key (entryFor p) } := by
  have hcut : l.cutHeader true p.comments = (l, p.comments) := by
    rw [cutHeader, if_neg (by simpa using h)]
  unfold place
  rw [hcut]
  refine congrArg (fun f => { l with entries := l.entries.update p.key f }) (funext fun old => ?_)
  cases old <;> rfl

theorem size_update_ne_zero {α : Type} (m : OrderedMap α) (key : Text) (f : Option α → α) :
    (m.update key f).size ≠ 0 := by
  intro h
  have hmem : key ∈ (m.update key f).keys := OrderedMap.mem_keys_update.2 (.inr rfl)
  have hnil : (m.update key f).entries = [] := List.length_eq_zero_iff.1 h
  rw [OrderedMap.keys, hnil] at hmem
  exact absurd hmem List.not_mem_nil

theorem foldl_place_of_size_ne {l : Layout} (h : l.entries.size ≠ 0) (properties : List Property) :
    properties.foldl (place true) l = { l with entries := entriesOf l.entries properties } := by
  induction properties generalizing l with
  | nil => rfl
  | cons p rest ih =>
    rw [List.foldl_cons, place_of_size_ne h, ih (size_update_ne_zero _ _ _)]
    rfl

/-- **Placing properties in a layout without entries**: the header is
taken from the first one. -/
theorem foldl_place {l : Layout} (h : l.entries = .empty) (properties : List Property) :
    properties.foldl (place true) l =
      { l with
        header := l.header <|> Comment.ofLines (headerOf properties)
        entries := entriesOf .empty (withoutHeader properties) } := by
  cases properties with
  | nil =>
    cases l
    cases h
    simp only [headerOf, Comment.ofLines, Option.orElse_eq_orElse, Option.orElse_eq_or,
      Option.or_none]
    rfl
  | cons p rest =>
    -- only the first property is placed in a layout without entries
    have hcut : l.cutHeader true p.comments
        = (l.takeHeader p.comments, p.comments.drop (headerLines p.comments).length) := by
      rw [cutHeader, if_pos (by rw [h]; rfl)]
    have hplace : l.place true p =
        { l.takeHeader p.comments with
          entries := l.entries.update p.key
            (entryFor
              { p with comments := p.comments.drop (headerLines p.comments).length }) } := by
      unfold place
      rw [hcut]
      refine congrArg
        (fun f => { l.takeHeader p.comments with entries := l.entries.update p.key f })
        (funext fun old => ?_)
      cases old <;> rfl
    rw [List.foldl_cons, hplace, foldl_place_of_size_ne (size_update_ne_zero _ _ _)]
    rw [h]
    rfl

end Layout

namespace Store

/-! ## Reading -/

theorem receive_plain {o : StoreOptions} (h : o.IsPlain) (src : Sources) (stack : List Text)
    (key value : Text) (s : Layout × Loading) :
    receive o src stack key value s = (.ok true, (s.1, { s.2 with
      values := s.2.values.update key fun old => old.getD [] ++ [value] })) := by
  have hd : o.directive? key = none := by
    simp [StoreOptions.directive?, h.includeKey, h.includeOptionalKey, isDirectiveKey]
  rw [receive]
  simp only [hd, h.delimiter]
  rfl

theorem placeAll_plain {o : StoreOptions} (h : o.IsPlain) (src : Sources) (stack : List Text)
    (outermost : Bool) (properties : List Property) (l : Layout) (values : Values)
    (notices : List Notice) :
    Layout.placeAll (fun p s => receive o src stack p.key p.value s) outermost properties
        (l, ⟨values, notices⟩)
      = (.ok (), (properties.foldl (Layout.place outermost) l,
          ⟨values.addPairs (properties.map Property.pair), notices⟩)) := by
  induction properties generalizing l values with
  | nil => rfl
  | cons p rest ih =>
    rw [Layout.placeAll, receive_plain h]
    exact ih _ _

/-- A fresh store with the given options. -/
def fresh (o : StoreOptions) (keep : Bool) : Store :=
  { options := o, layout := { keepTrailingBlankLines := keep } }

/-- **The store that a text makes of a fresh one**, by its physical
lines and what they are read as. -/
def loaded (o : StoreOptions) (keep : Bool) (physical : PhysicalLines)
    (properties : List Property) (trailing : List Text) : Store where
  options := o
  values := Values.addPairs .empty (properties.map Property.pair)
  layout :=
    { entries := Layout.entriesOf .empty (Layout.withoutHeader properties)
      header := Comment.ofLines (Layout.headerOf properties)
      footer := Comment.ofLines (if keep then trailing else trailing.rdropWhile (· = []))
      lineSeparator? := physical.firstBreak.map LineBreak.chars
      finalNewline := physical.finalBreak
      keepTrailingBlankLines := keep }

/-- Reading a text into a fresh plain store: the properties are placed,
and then it depends on how the reading ended. -/
theorem read_fresh_eq {o : StoreOptions} (h : o.IsPlain) (keep : Bool) (src : Sources)
    (source : Option Text) {t : Text} {reading : Reading}
    (hreading : Reading.ofLines [] (PhysicalLines.ofText t).lines = reading) :
    (fresh o keep).read src source t
      = let placed := reading.properties.foldl (Layout.place true)
          ((fresh o keep).layout.enter (PhysicalLines.ofText t))
        let concluded := placed.conclude true (sourceName source (stackOf source)) reading.ending
        (concluded.1,
          { options := o
            values := Values.addPairs .empty (reading.properties.map Property.pair)
            layout := concluded.2.leave }, []) := by
  have hkept : ListDelimiter.kept o.delimiter = [] := by
    rw [h.delimiter]
    rfl
  unfold read loadWithin Layout.load
  dsimp only [fresh]
  rw [hkept, hreading, placeAll_plain h]
  rfl

/-- **Reading a text into a fresh plain store**, if its lines are read to
the end. -/
theorem read_fresh {o : StoreOptions} (h : o.IsPlain) (keep : Bool) (src : Sources)
    (source : Option Text) {t : Text} {properties : List Property} {trailing : List Text}
    (hreading : Reading.ofLines [] (PhysicalLines.ofText t).lines
      = ⟨properties, .complete trailing⟩) :
    (fresh o keep).read src source t
      = (.ok (), loaded o keep (PhysicalLines.ofText t) properties trailing, []) := by
  have hentries : ((fresh o keep).layout.enter (PhysicalLines.ofText t)).entries = .empty := rfl
  rw [read_fresh_eq h keep src source hreading]
  dsimp only
  rw [Layout.foldl_place hentries]
  rfl

/-- Where reading a text succeeds, its lines are read to the end. -/
theorem complete_of_read_ok {o : StoreOptions} (h : o.IsPlain) {keep : Bool} {src : Sources}
    {source : Option Text} {t : Text} (hok : ((fresh o keep).read src source t).1 = .ok ()) :
    ∃ properties trailing, Reading.ofLines [] (PhysicalLines.ofText t).lines
      = ⟨properties, .complete trailing⟩ := by
  cases hreading : Reading.ofLines [] (PhysicalLines.ofText t).lines with
  | mk properties ending =>
    cases ending with
    | complete trailing => exact ⟨properties, trailing, rfl⟩
    | failed pending fault line =>
      rw [read_fresh_eq h keep src source hreading] at hok
      exact absurd hok nofun

end Store

end PropertyFile
