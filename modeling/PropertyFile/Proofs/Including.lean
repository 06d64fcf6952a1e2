import PropertyFile.Proofs.Loading
import PropertyFile.Proofs.LogicalLine

/-!
# What loads preserve

A load places some properties, follows directives into other sources, and
may stop at any of them, at any depth. What it keeps in order can still
be said step by step (`LoadInvariant`): it is enough that placing a
property keeps it, and that entering and leaving a text do. A whole load
then keeps it, with all that is included and however it ends
(`LoadInvariant.load`). Where there are no directives, a load is simpler:
all properties are kept (`read_of_none`).

The induction is on the number of sources that can still be opened
(`Sources.remaining`): a source that is included is open while it is
loaded, so it counts no more.
-/

namespace PropertyFile

namespace Layout

/-- **Placing a property** makes or extends the entry of its key, and
perhaps finds a header. -/
theorem place_eq (outermost : Bool) (l : Layout) (p : Property) :
    ∃ header block, l.place outermost p =
      { l with
        header
        entries := l.entries.update p.key fun
          | none => firstEntry block p.separator
          | some e => laterEntry e block } := by
  unfold place cutHeader
  by_cases h : (outermost && l.entries.size == 0) = true
  · rw [if_pos h]
    exact ⟨_, _, rfl⟩
  · rw [if_neg h]
    exact ⟨l.header, p.comments, rfl⟩

end Layout

namespace Store

/-! ## Following a directive -/

/-- The name of a source once its variables are replaced. -/
def targetOf (o : StoreOptions) (name : Text) : Text :=
  match o.lookup with
  | none => name
  | some lookup => Variables.expand lookup name

/-- Loads one of the sources that a directive names. -/
def loadNamed (o : StoreOptions) (src : Sources) (stack : List Text) (directive : Directive)
    (name : Text) (s : Layout × Loading) : Except LoadError Unit × (Layout × Loading) :=
  let target := targetOf o name
  match src.resolve target stack with
  | .error f => (.error (.path f), s)
  | .ok resolved =>
    if stack.contains resolved then (.error (.cycle resolved stack), s)
    else
      match src.read resolved with
      | .error (.refused reason) =>
        if directive = .optional then (.ok (), (s.1, s.2.note (.skipped target reason)))
        else (.error (.notFound target reason), s)
      | .error (.undecodable e) => (.error (.undecodable e), s)
      | .error (.encoding e) => (.error (.encoding e), s)
      | .ok text =>
        Layout.load (ListDelimiter.kept o.delimiter) (some resolved)
          (fun p s => receive o src (stack ++ [resolved]) p.key p.value s) text
          (s.1, s.2.note (.opened resolved stack))

variable {o : StoreOptions} {src : Sources} {stack : List Text} {key value : Text}
  {s : Layout × Loading}

/-- **What following a name can do**: it fails, and changes nothing; or
the source is optional and passed over, as it cannot be opened; or it is
loaded, as one more open source. -/
theorem loadNamed_cases (o : StoreOptions) (src : Sources) (stack : List Text)
    (directive : Directive) (name : Text) (s : Layout × Loading) :
    (∃ e, loadNamed o src stack directive name s = (.error e, s)) ∨
    (∃ resolved reason, directive = .optional ∧
      src.resolve (targetOf o name) stack = .ok resolved ∧ resolved ∉ stack ∧
      src.read resolved = .error (.refused reason) ∧
      loadNamed o src stack directive name s
        = (.ok (), (s.1, s.2.note (.skipped (targetOf o name) reason)))) ∨
    ∃ resolved text, src.resolve (targetOf o name) stack = .ok resolved ∧ resolved ∉ stack ∧
      src.read resolved = .ok text ∧
      loadNamed o src stack directive name s
        = Layout.load (ListDelimiter.kept o.delimiter) (some resolved)
            (fun p s => receive o src (stack ++ [resolved]) p.key p.value s) text
            (s.1, s.2.note (.opened resolved stack)) := by
  unfold loadNamed
  dsimp only
  cases hresolve : src.resolve (targetOf o name) stack with
  | error f => exact .inl ⟨_, rfl⟩
  | ok resolved =>
    dsimp only
    by_cases hstack : resolved ∈ stack
    · rw [if_pos (List.contains_iff_mem.2 hstack)]
      exact .inl ⟨_, rfl⟩
    · rw [if_neg (mt List.contains_iff_mem.1 hstack)]
      cases hread : src.read resolved with
      | ok text => exact .inr (.inr ⟨resolved, text, rfl, hstack, hread, rfl⟩)
      | error fault =>
        cases fault with
        | refused reason =>
          dsimp only
          by_cases hoptional : directive = .optional
          · rw [if_pos hoptional]
            exact .inr (.inl ⟨resolved, reason, hoptional, rfl, hstack, hread, rfl⟩)
          · rw [if_neg hoptional]
            exact .inl ⟨_, rfl⟩
        | undecodable e => exact .inl ⟨_, rfl⟩
        | encoding e => exact .inl ⟨_, rfl⟩

/-- A property that is no directive is kept. -/
theorem receive_of_none (h : o.directive? key = none) :
    receive o src stack key value s
      = (.ok true, (s.1, { s.2 with values := s.2.values.add o.delimiter key (.one value) })) := by
  rw [receive, h]

/-- A directive is consumed, and the sources it names are loaded. -/
theorem receive_of_some {directive : Directive} (h : o.directive? key = some directive) :
    receive o src stack key value s =
      if o.includesAllowed then
        let loaded := forNames (loadNamed o src stack directive)
          (ListDelimiter.split o.delimiter true value) s
        (loaded.1.map fun _ => false, loaded.2)
      else (.ok false, s) := by
  rw [receive, h]
  dsimp only
  cases o.includesAllowed with
  | false => rfl
  | true =>
    rw [Bool.not_true, if_neg Bool.false_ne_true, if_pos rfl]
    refine congrArg (fun step : Text → Layout × Loading → Except LoadError Unit × Layout × Loading =>
      let loaded := forNames step (ListDelimiter.split o.delimiter true value) s
      (loaded.1.map fun _ => false, loaded.2)) (funext fun name => funext fun s => ?_)
    -- the step carries what its recursion needs, and is otherwise the same
    unfold loadNamed targetOf
    rcases o.lookup with _ | lookup
    all_goals
      dsimp only
      cases src.resolve _ stack with
      | error f => rfl
      | ok resolved =>
        dsimp only
        by_cases hstack : resolved ∈ stack
        · rw [dif_pos hstack, if_pos (List.contains_iff_mem.2 hstack)]
        · rw [dif_neg hstack, if_neg (mt List.contains_iff_mem.1 hstack)]
          split <;> next hread => rw [hread]

/-! ## Properties without directives -/

end Store

/-- The values with those of some properties added in order. -/
def Values.addAll (d : Option ListDelimiter) (values : Values) (properties : List Property) :
    Values :=
  properties.foldl (fun values p => values.add d p.key (.one p.value)) values

namespace Store

variable {o : StoreOptions} {src : Sources} {stack : List Text} {s : Layout × Loading}

/-- Properties that are no directives are all kept. -/
theorem placeAll_of_none {properties : List Property}
    (h : ∀ p ∈ properties, o.directive? p.key = none) (outermost : Bool) :
    Layout.placeAll (fun p s => receive o src stack p.key p.value s) outermost properties s
      = (.ok (), (properties.foldl (Layout.place outermost) s.1,
          { s.2 with values := s.2.values.addAll o.delimiter properties })) := by
  induction properties generalizing s with
  | nil => rfl
  | cons p rest ih =>
    obtain ⟨hp, hrest⟩ := List.forall_mem_cons.1 h
    rw [Layout.placeAll, receive_of_none hp]
    exact ih hrest

/-- **Reading a text without directives into a fresh store**: the
properties are placed, and then it depends on how the reading ended. -/
theorem read_of_none {t : Text} {reading : Reading}
    (hreading : Reading.ofLines (ListDelimiter.kept o.delimiter) (PhysicalLines.ofText t).lines
      = reading)
    (h : ∀ p ∈ reading.properties, o.directive? p.key = none) (keep : Bool)
    (source : Option Text) :
    (fresh o keep).read src source t
      = let placed := reading.properties.foldl (Layout.place true)
          ((fresh o keep).layout.enter (PhysicalLines.ofText t))
        let concluded := placed.conclude true (sourceName source (stackOf source)) reading.ending
        (concluded.1,
          { options := o
            values := Values.addAll o.delimiter .empty reading.properties
            layout := concluded.2.leave }, []) := by
  unfold read loadWithin Layout.load
  dsimp only [fresh]
  rw [hreading, placeAll_of_none h]
  rfl

/-- **What can be read line by line, and holds no directive, is read**,
and all of its properties are kept. -/
theorem exists_read_of_isReadable {t : Text}
    (h : ∀ l ∈ LogicalLine.cut none (PhysicalLines.ofText t).lines,
      l.IsReadable (ListDelimiter.kept o.delimiter))
    (hkept : ∀ l ∈ LogicalLine.cut none (PhysicalLines.ofText t).lines,
      ∀ p ∈ l.bare? (ListDelimiter.kept o.delimiter), o.directive? p.key = none)
    (keep : Bool) (src : Sources) (source : Option Text) :
    ∃ properties st, properties.map Property.bare
        = (LogicalLine.cut none (PhysicalLines.ofText t).lines).filterMap
            (LogicalLine.bare? (ListDelimiter.kept o.delimiter)) ∧
      (fresh o keep).read src source t = (.ok (), st, []) ∧
      st.values = Values.addAll o.delimiter .empty properties ∧
      st.layout.entries = (properties.foldl (Layout.place true)
        ((fresh o keep).layout.enter (PhysicalLines.ofText t))).entries := by
  obtain ⟨properties, trailing, hread, hbare⟩ := LogicalLine.exists_read h 1 []
  have hreading : Reading.ofLines (ListDelimiter.kept o.delimiter) (PhysicalLines.ofText t).lines
      = ⟨properties, .complete trailing⟩ := by
    rw [LogicalLine.ofLines_eq_read, hread]
  have hproperties : ∀ p ∈ properties, o.directive? p.key = none := by
    intro p hp
    obtain ⟨l, hl, hlp⟩ := List.mem_filterMap.1 (hbare ▸ List.mem_map_of_mem hp)
    exact hkept l hl p.bare hlp
  exact ⟨properties, _, hbare, read_of_none hreading hproperties keep source, rfl, rfl⟩

/-! ## Invariants -/

/-- **A property of loads in progress**, at every depth, that no step of a
load breaks. -/
structure LoadInvariant (o : StoreOptions) (I : Nat → Layout × Loading → Prop) : Prop where
  /-- A property that is no directive comes to the values and the
  layout. -/
  keep : ∀ {depth : Nat} {s : Layout × Loading} (outermost : Bool) (p : Property),
    o.directive? p.key = none → I depth s →
      I depth (s.1.place outermost p,
        { s.2 with values := s.2.values.add o.delimiter p.key (.one p.value) })
  /-- Something is noted. -/
  note : ∀ {depth : Nat} {s : Layout × Loading} (n : Notice), I depth s →
    I depth (s.1, s.2.note n)
  /-- A text is entered. -/
  enter : ∀ {depth : Nat} {s : Layout × Loading} (physical : PhysicalLines), I depth s →
    I (depth + 1) (s.1.enter physical, s.2)
  /-- What is left over of a text becomes the footer. -/
  footer : ∀ {depth : Nat} {s : Layout × Loading} (lines : List Text), I depth s →
    I depth (s.1.takeFooter lines, s.2)
  /-- A text is left. -/
  leave : ∀ {depth : Nat} {s : Layout × Loading}, I (depth + 1) s → I depth (s.1.leave, s.2)

namespace LoadInvariant

variable {I : Nat → Layout × Loading → Prop} {depth : Nat}

theorem forNames {step : Text → Layout × Loading → Except LoadError Unit × (Layout × Loading)}
    (hstep : ∀ name s, I depth s → I depth (step name s).2) (names : List Text) (hs : I depth s) :
    I depth (Store.forNames step names s).2 := by
  induction names generalizing s with
  | nil => exact hs
  | cons name rest ih =>
    have hname := hstep name s hs
    rw [Store.forNames]
    split
    · next h => rwa [h] at hname
    · next h =>
      rw [h] at hname
      exact ih hname

/-- Properties that are placed one after the other, if the directives
among them break nothing. -/
theorem placeAll (h : LoadInvariant o I)
    (hdirective : ∀ {key value : Text} {directive : Directive} {s : Layout × Loading},
      o.directive? key = some directive → I depth s → I depth (receive o src stack key value s).2)
    (outermost : Bool) (properties : List Property) (hs : I depth s) :
    I depth (Layout.placeAll (fun p s => receive o src stack p.key p.value s) outermost
      properties s).2 := by
  induction properties generalizing s with
  | nil => exact hs
  | cons p rest ih =>
    rw [Layout.placeAll]
    cases hp : o.directive? p.key with
    | none =>
      rw [receive_of_none hp]
      exact ih (h.keep outermost p hp hs)
    | some directive =>
      have hkept := @hdirective p.key p.value directive s hp hs
      rw [receive_of_some hp] at hkept ⊢
      -- a directive is never kept, so the layout takes no notice of it
      cases hallowed : o.includesAllowed with
      | false =>
        rw [hallowed] at hkept
        exact ih hs
      | true =>
        rw [hallowed, if_pos rfl] at hkept
        rw [if_pos rfl]
        cases hnames : Store.forNames (loadNamed o src stack directive)
            (ListDelimiter.split o.delimiter true p.value) s with
        | mk result s' =>
          rw [hnames] at hkept
          cases result with
          | error e => exact hkept
          | ok _ => exact ih hkept

/-- **Whole loads keep an invariant**, with all that is included and
however they end. -/
theorem load (h : LoadInvariant o I) (src : Sources) (stack : List Text) (source : Option Text)
    (t : Text) (hs : I depth s) :
    I depth (Layout.load (ListDelimiter.kept o.delimiter) source
      (fun p s => receive o src stack p.key p.value s) t s).2 := by
  induction hn : src.remaining stack using Nat.strongRecOn generalizing stack source t s depth with
  | ind n ih =>
    -- a source that is included is loaded with one openable name less
    have hnamed : ∀ {depth : Nat} directive name s, I depth s →
        I depth (loadNamed o src stack directive name s).2 := by
      intro depth directive name s hs
      obtain ⟨e, hfailed⟩ | ⟨resolved, reason, -, -, -, -, hskipped⟩ |
        ⟨resolved, text, -, hstack, hread, hloaded⟩ := loadNamed_cases o src stack directive name s
      · rw [hfailed]
        exact hs
      · rw [hskipped]
        exact h.note _ hs
      · rw [hloaded]
        exact ih _ (hn ▸ src.remaining_lt hstack hread) _ _ text (h.note _ hs) rfl
    have hdirective : ∀ {depth : Nat} {key value : Text} {directive : Directive}
        {s : Layout × Loading}, o.directive? key = some directive → I depth s →
        I depth (receive o src stack key value s).2 := by
      intro depth key value directive s hkey hs
      rw [receive_of_some hkey]
      split
      · exact forNames (hnamed directive) _ hs
      · exact hs
    have hplaced := h.placeAll hdirective
      (decide (s.1.loadDepth = 0))
      (Reading.ofLines (ListDelimiter.kept o.delimiter) (PhysicalLines.ofText t).lines).properties
      (h.enter (PhysicalLines.ofText t) hs)
    unfold Layout.load
    dsimp only
    split
    · next hrun =>
      rw [hrun] at hplaced
      exact h.leave hplaced
    · next l s' hrun =>
      rw [hrun] at hplaced
      unfold Layout.conclude
      cases (Reading.ofLines (ListDelimiter.kept o.delimiter)
          (PhysicalLines.ofText t).lines).ending with
      | failed pending fault line => exact h.leave hplaced
      | complete trailing =>
        dsimp only
        split
        · exact h.leave (h.footer trailing hplaced)
        · exact h.leave hplaced

end LoadInvariant

end Store

end PropertyFile
