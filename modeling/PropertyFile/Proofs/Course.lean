import Mathlib.Logic.Function.Iterate
import PropertyFile.Proofs.Including

/-!
# The course of a load

A load runs through a text, and where it meets a directive through the
texts of the sources that it names, in the middle of the first, and so
on. `Layout.load` tells what comes of it; what it is doing at a given
moment does not show in a recursion. Here a load is taken apart into
moves (`Progress.next`): the texts that are being loaded stand on a
stack of frames, the innermost first, each with what is left of it. A
move follows one name of the directive at hand, or hands on one
property, or is done with a text.

Both are the same load: the moves lead from entering a text to what
`Layout.load` says of it, whatever stands around it (`reaches_load`).
The **course** of reading a text into a store is the sequence of its
moves (`course`); it ends with what reading comes to, and with a cycle
exactly if it comes to a name that leads to an open source.
-/

namespace PropertyFile

namespace Store

/-! ## Where a name leads -/

/-- What there is to do about a name in a directive. -/
inductive Lead where
  /-- It stops the load. -/
  | fault (e : LoadError)
  /-- The source is optional, and cannot be opened. -/
  | skipped (target : Text) (reason : String)
  /-- The source with the given canonical name was opened, and has this
  text. -/
  | opened (resolved text : Text)

/-- Where a name in a directive leads, with the given sources open. -/
def lead (o : StoreOptions) (src : Sources) (stack : List Text) (directive : Directive)
    (name : Text) : Lead :=
  match src.resolve (targetOf o name) stack with
  | .error f => .fault (.path f)
  | .ok resolved =>
    if stack.contains resolved then .fault (.cycle resolved stack)
    else
      match src.read resolved with
      | .error (.refused reason) =>
        if directive = .optional then .skipped (targetOf o name) reason
        else .fault (.notFound (targetOf o name) reason)
      | .error (.undecodable e) => .fault (.undecodable e)
      | .error (.encoding e) => .fault (.encoding e)
      | .ok text => .opened resolved text

section Lead

variable {o : StoreOptions} {src : Sources} {stack : List Text} {directive : Directive}
  {name resolved text : Text}

/-- Following a name is to go where it leads. -/
theorem loadNamed_eq (o : StoreOptions) (src : Sources) (stack : List Text)
    (directive : Directive) (name : Text) (s : Layout × Loading) :
    loadNamed o src stack directive name s =
      match lead o src stack directive name with
      | .fault e => (.error e, s)
      | .skipped target reason => (.ok (), (s.1, s.2.note (.skipped target reason)))
      | .opened resolved text =>
        Layout.load (ListDelimiter.kept o.delimiter) (some resolved)
          (fun p s => receive o src (stack ++ [resolved]) p.key p.value s) text
          (s.1, s.2.note (.opened resolved stack)) := by
  unfold loadNamed lead
  dsimp only
  cases src.resolve (targetOf o name) stack with
  | error f => rfl
  | ok resolved =>
    dsimp only
    by_cases hstack : stack.contains resolved = true
    · rw [if_pos hstack, if_pos hstack]
    · rw [if_neg hstack, if_neg hstack]
      cases src.read resolved with
      | ok text => rfl
      | error fault =>
        cases fault with
        | refused reason => cases directive <;> rfl
        | undecodable e => rfl
        | encoding e => rfl

/-- **What is opened**: a source that is not open. -/
theorem lead_eq_opened_iff : lead o src stack directive name = .opened resolved text ↔
    src.resolve (targetOf o name) stack = .ok resolved ∧ resolved ∉ stack ∧
      src.read resolved = .ok text := by
  unfold lead
  cases hresolve : src.resolve (targetOf o name) stack with
  | error f => simp
  | ok r =>
    by_cases hstack : r ∈ stack
    · simp only [if_pos (List.contains_iff_mem.2 hstack), reduceCtorEq, false_iff]
      rintro ⟨hr, hnot, -⟩
      exact hnot (Except.ok.inj hr ▸ hstack)
    · simp only [if_neg (mt List.contains_iff_mem.1 hstack), Except.ok.injEq]
      cases hread : src.read r with
      | ok t =>
        simp only [Lead.opened.injEq]
        constructor
        · rintro ⟨rfl, rfl⟩
          exact ⟨rfl, hstack, hread⟩
        · rintro ⟨rfl, -, ht⟩
          exact ⟨rfl, Except.ok.inj (hread.symm.trans ht)⟩
      | error fault =>
        have hno : ¬(r = resolved ∧ resolved ∉ stack ∧ src.read resolved = .ok text) := by
          rintro ⟨rfl, -, ht⟩
          rw [hread] at ht
          cases ht
        refine (iff_false_right hno).2 ?_
        cases fault with
        | refused reason => cases directive <;> exact Lead.noConfusion
        | undecodable e => exact Lead.noConfusion
        | encoding e => exact Lead.noConfusion

/-- **What is a cycle**: a source that is open, whatever the directive
says. -/
theorem lead_eq_cycle_iff {around : List Text} :
    lead o src stack directive name = .fault (.cycle resolved around) ↔
      around = stack ∧ src.resolve (targetOf o name) stack = .ok resolved ∧ resolved ∈ stack := by
  unfold lead
  cases hresolve : src.resolve (targetOf o name) stack with
  | error f => simp
  | ok r =>
    by_cases hstack : r ∈ stack
    · simp only [if_pos (List.contains_iff_mem.2 hstack), Lead.fault.injEq, LoadError.cycle.injEq,
        Except.ok.injEq]
      constructor
      · rintro ⟨rfl, rfl⟩
        exact ⟨rfl, rfl, hstack⟩
      · rintro ⟨rfl, rfl, -⟩
        exact ⟨rfl, rfl⟩
    · have hno : ¬(around = stack ∧ (Except.ok r : Except PathFault Text) = .ok resolved ∧
          resolved ∈ stack) := by
        rintro ⟨-, hr, hmem⟩
        exact hstack (Except.ok.inj hr ▸ hmem)
      simp only [if_neg (mt List.contains_iff_mem.1 hstack)]
      refine (iff_false_right hno).2 ?_
      cases src.read r with
      | ok t => exact Lead.noConfusion
      | error fault =>
        cases fault with
        | refused reason => cases directive <;> simp
        | undecodable e => simp
        | encoding e => simp

end Lead

/-! ## Moves -/

/-- A text that is being loaded. -/
structure Frame where
  /-- The sources that are open around what it includes. -/
  stack : List Text
  /-- The name that errors mention. -/
  source : Option Text
  /-- Whether it is the outermost text. -/
  outermost : Bool
  /-- What is left of the names in the directive at hand. -/
  names : List (Directive × Text) := []
  /-- The properties that are left. -/
  properties : List Property
  /-- How the text ends. -/
  ending : Ending

/-- How far a load has come. -/
inductive Progress where
  /-- It is at the given texts, the innermost first. -/
  | running (frames : List Frame) (s : Layout × Loading)
  /-- It has ended. -/
  | ended (result : Except LoadError Unit) (s : Layout × Loading)

namespace Progress

/-- A further text is entered. -/
def enter (o : StoreOptions) (stack : List Text) (source : Option Text) (t : Text)
    (frames : List Frame) (s : Layout × Loading) : Progress :=
  let physical := PhysicalLines.ofText t
  let reading := Reading.ofLines (ListDelimiter.kept o.delimiter) physical.lines
  .running ({ stack, source, outermost := s.1.loadDepth = 0, properties := reading.properties,
              ending := reading.ending } :: frames) (s.1.enter physical, s.2)

/-- An error ends the load, and all texts are left. -/
def fail (e : LoadError) (frames : List Frame) (s : Layout × Loading) : Progress :=
  .ended (.error e) (Layout.leave^[frames.length] s.1, s.2)

/-- The innermost text follows a name of its directive. -/
def follow (o : StoreOptions) (src : Sources) (directive : Directive) (name : Text) (f : Frame)
    (below : List Frame) (s : Layout × Loading) : Progress :=
  match lead o src f.stack directive name with
  | .fault e => fail e (f :: below) s
  | .skipped target reason => .running (f :: below) (s.1, s.2.note (.skipped target reason))
  | .opened resolved text =>
    enter o (f.stack ++ [resolved]) (some resolved) text (f :: below)
      (s.1, s.2.note (.opened resolved f.stack))

/-- The innermost text hands on a property: it is kept, or it is a
directive and its names are next. -/
def handOn (o : StoreOptions) (p : Property) (f : Frame) (below : List Frame)
    (s : Layout × Loading) : Progress :=
  match o.directive? p.key with
  | none =>
    .running (f :: below) (s.1.place f.outermost p,
      { s.2 with values := s.2.values.add o.delimiter p.key (.one p.value) })
  | some directive =>
    let names := if o.includesAllowed then ListDelimiter.split o.delimiter true p.value else []
    .running ({ f with names := names.map (directive, ·) } :: below) s

/-- The innermost text is left. -/
def finish (f : Frame) (below : List Frame) (s : Layout × Loading) : Progress :=
  match s.1.conclude f.outermost f.source f.ending with
  | (.ok (), l) => .running below (l.leave, s.2)
  | (.error e, l) => fail e (f :: below) (l, s.2)

/-- **A move of a load.** Once the last text is left it has ended, and
stays so. -/
def next (o : StoreOptions) (src : Sources) : Progress → Progress
  | .running (f :: below) s =>
    match f.names, f.properties with
    | (directive, name) :: names, _ => follow o src directive name { f with names } below s
    | [], p :: properties => handOn o p { f with properties } below s
    | [], [] => finish f below s
  | .running [] s => .ended (.ok ()) s
  | .ended result s => .ended result s

/-- Where a load goes on after a text that it has loaded. -/
def after (frames : List Frame) : Except LoadError Unit × (Layout × Loading) → Progress
  | (.ok (), s) => .running frames s
  | (.error e, s) => fail e frames s

/-- Some moves lead from one progress to another. -/
def Reaches (o : StoreOptions) (src : Sources) (p q : Progress) : Prop :=
  ∃ n, (next o src)^[n] p = q

namespace Reaches

variable {o : StoreOptions} {src : Sources} {p q r : Progress}

theorem refl (p : Progress) : Reaches o src p p := ⟨0, rfl⟩

theorem head (h : Reaches o src (next o src p) q) : Reaches o src p q := by
  obtain ⟨n, hn⟩ := h
  exact ⟨n + 1, hn⟩

theorem trans (hpq : Reaches o src p q) (hqr : Reaches o src q r) : Reaches o src p r := by
  obtain ⟨n, rfl⟩ := hpq
  obtain ⟨m, rfl⟩ := hqr
  exact ⟨m + n, Function.iterate_add_apply _ m n p⟩

end Reaches

end Progress

/-! ## The moves of a load -/

section Moves

open Progress

variable {o : StoreOptions} {src : Sources}

/-- Whether moves load all that is opened by the names in a text with the
given sources open. -/
def LoadsOpened (o : StoreOptions) (src : Sources) (stack : List Text) : Prop :=
  ∀ (directive : Directive) (name resolved text : Text) (frames : List Frame)
    (s : Layout × Loading), lead o src stack directive name = .opened resolved text →
    Reaches o src (enter o (stack ++ [resolved]) (some resolved) text frames s)
      (after frames (Layout.load (ListDelimiter.kept o.delimiter) (some resolved)
        (fun p s => receive o src (stack ++ [resolved]) p.key p.value s) text s))

/-- The names of a directive are followed one after the other. -/
theorem reaches_names (f : Frame) (directive : Directive) {below : List Frame}
    (hload : LoadsOpened o src f.stack) (names : List Text) (s : Layout × Loading) :
    Reaches o src (.running ({ f with names := names.map (directive, ·) } :: below) s)
      (after ({ f with names := [] } :: below)
        (forNames (loadNamed o src f.stack directive) names s)) := by
  induction names generalizing s with
  | nil => exact .refl _
  | cons name rest ih =>
    refine .head ?_
    rw [forNames, loadNamed_eq]
    change Reaches o src
      (follow o src directive name { f with names := rest.map (directive, ·) } below s) _
    unfold follow
    dsimp only
    cases hlead : lead o src f.stack directive name with
    | fault e => exact .refl _
    | skipped target reason => exact ih _
    | opened resolved text =>
      refine (hload _ _ _ _ _ _ hlead).trans ?_
      dsimp only
      rcases Layout.load (ListDelimiter.kept o.delimiter) (some resolved)
        (fun p s => receive o src (f.stack ++ [resolved]) p.key p.value s) text
        (s.1, s.2.note (.opened resolved f.stack)) with ⟨e | _, s'⟩
      · exact .refl _
      · exact ih s'

/-- The properties of a text are handed on one after the other. -/
theorem reaches_properties (f : Frame) {below : List Frame}
    (hload : LoadsOpened o src f.stack) (properties : List Property) (s : Layout × Loading) :
    Reaches o src (.running ({ f with names := [], properties } :: below) s)
      (after ({ f with names := [], properties := [] } :: below)
        (Layout.placeAll (fun p s => receive o src f.stack p.key p.value s) f.outermost
          properties s)) := by
  induction properties generalizing s with
  | nil => exact .refl _
  | cons p rest ih =>
    refine .head ?_
    rw [Layout.placeAll]
    change Reaches o src (handOn o p { f with names := [], properties := rest } below s) _
    unfold handOn
    cases hkey : o.directive? p.key with
    | none =>
      rw [receive_of_none hkey]
      exact ih _
    | some directive =>
      rw [receive_of_some hkey]
      cases o.includesAllowed with
      | false => exact ih s
      | true =>
        refine (reaches_names { f with names := [], properties := rest } directive
          hload _ s).trans ?_
        rw [if_pos rfl]
        dsimp only
        rcases forNames (loadNamed o src f.stack directive)
          (ListDelimiter.split o.delimiter true p.value) s with ⟨e | _, s'⟩
        · exact .refl _
        · exact ih s'

/-- **The moves are those of the load**: from entering a text they lead
to what loading it comes to, whatever texts stand around it. -/
theorem reaches_load (o : StoreOptions) (src : Sources) (stack : List Text)
    (source : Option Text) (t : Text) (frames : List Frame) (s : Layout × Loading) :
    Reaches o src (enter o stack source t frames s)
      (after frames (Layout.load (ListDelimiter.kept o.delimiter) source
        (fun p s => receive o src stack p.key p.value s) t s)) := by
  induction hn : src.remaining stack using Nat.strongRecOn generalizing stack source t frames s with
  | ind n ih =>
    -- a source that is included is loaded with one openable name less
    have hload : LoadsOpened o src stack := by
      intro directive name resolved text frames s hlead
      obtain ⟨-, hstack, hread⟩ := lead_eq_opened_iff.1 hlead
      exact ih _ (hn ▸ src.remaining_lt hstack hread) _ _ text frames s rfl
    unfold enter Layout.load
    dsimp only
    refine (reaches_properties ⟨stack, source, decide (s.1.loadDepth = 0), [], [], _⟩
      hload _ _).trans ?_
    dsimp only
    split
    · next l s' hplaced =>
      rw [hplaced]
      exact .refl _
    · next l s' hplaced =>
      rw [hplaced]
      refine .head ?_
      change Reaches o src (finish _ frames (l, s')) _
      unfold finish
      dsimp only
      rcases l.conclude (decide (s.1.loadDepth = 0)) source
        (Reading.ofLines (ListDelimiter.kept o.delimiter)
          (PhysicalLines.ofText t).lines).ending with ⟨e | _, l'⟩
      · exact .refl _
      · exact .refl _

end Moves

/-! ## How a load ends -/

namespace Progress

variable {o : StoreOptions} {src : Sources}

/-- What has ended makes no more moves. -/
theorem iterate_ended (result : Except LoadError Unit) (s : Layout × Loading) (n : Nat) :
    (next o src)^[n] (.ended result s) = .ended result s :=
  Function.iterate_fixed rfl n

/-- A load ends in one way only. -/
theorem ended_unique {p : Progress} {n m : Nat} {result result' : Except LoadError Unit}
    {s s' : Layout × Loading} (hn : (next o src)^[n] p = .ended result s)
    (hm : (next o src)^[m] p = .ended result' s') : result = result' ∧ s = s' := by
  rw [← Progress.ended.injEq, ← iterate_ended result s m, ← iterate_ended result' s' n, ← hn, ← hm,
    ← Function.iterate_add_apply, ← Function.iterate_add_apply, Nat.add_comm]

/-- What has ended was running before its last move. -/
theorem exists_last_move {frames : List Frame} {s s' : Layout × Loading} {n : Nat}
    {result : Except LoadError Unit}
    (h : (next o src)^[n] (.running frames s) = .ended result s') :
    ∃ m frames' s'', (next o src)^[m] (.running frames s) = .running frames' s'' ∧
      next o src (.running frames' s'') = .ended result s' := by
  induction n with
  | zero => cases h
  | succ n ih =>
    rw [Function.iterate_succ_apply'] at h
    cases hp : (next o src)^[n] (.running frames s) with
    | running frames' s'' => exact ⟨n, frames', s'', hp, hp ▸ h⟩
    | ended result' s'' =>
      rw [hp] at h
      exact ih (hp.trans h)

/-- A text that ends reports no cycle. -/
theorem finish_ne_cycle {f : Frame} {below : List Frame} {s s' : Layout × Loading}
    {resolved : Text} {stack : List Text} :
    finish f below s ≠ .ended (.error (.cycle resolved stack)) s' := by
  unfold finish Layout.conclude
  cases f.ending with
  | complete trailing => exact Progress.noConfusion
  | failed pending fault line => simp [fail]

/-- **The moves that report a cycle** are those that follow a name to an
open source. -/
theorem next_eq_cycle_iff {frames : List Frame} {s : Layout × Loading} {resolved : Text}
    {stack : List Text} :
    (∃ s', next o src (.running frames s) = .ended (.error (.cycle resolved stack)) s') ↔
      ∃ f below directive name names, frames = f :: below ∧ f.names = (directive, name) :: names ∧
        f.stack = stack ∧ src.resolve (targetOf o name) stack = .ok resolved ∧
        resolved ∈ stack := by
  constructor
  · rintro ⟨s', h⟩
    match frames, h with
    | ⟨around, source, outermost, (directive, name) :: names, properties, ending⟩ :: below, h =>
      change follow o src directive name ⟨around, source, outermost, names, properties, ending⟩
        below s = _ at h
      unfold follow at h
      cases hlead : lead o src around directive name with
      | fault e =>
        simp only [hlead, fail, Progress.ended.injEq, Except.error.injEq] at h
        obtain ⟨rfl, hresolve, hmem⟩ := lead_eq_cycle_iff.1 (h.1 ▸ hlead)
        exact ⟨_, below, directive, name, names, rfl, rfl, rfl, hresolve, hmem⟩
      | skipped target reason => simp [hlead] at h
      | opened resolved text => simp [hlead, enter] at h
    | ⟨around, source, outermost, [], p :: properties, ending⟩ :: below, h =>
      change handOn o p ⟨around, source, outermost, [], properties, ending⟩ below s = _ at h
      unfold handOn at h
      cases hkey : o.directive? p.key <;> simp [hkey] at h
    | ⟨around, source, outermost, [], [], ending⟩ :: below, h => exact absurd h finish_ne_cycle
    | [], h => cases h
  · rintro ⟨f, below, directive, name, names, rfl, hnames, rfl, hresolve, hmem⟩
    have hlead : lead o src f.stack directive name = .fault (.cycle resolved f.stack) :=
      lead_eq_cycle_iff.2 ⟨rfl, hresolve, hmem⟩
    refine ⟨(Layout.leave^[below.length + 1] s.1, s.2), ?_⟩
    unfold next follow
    simp only [hnames, hlead]
    rfl

end Progress

/-! ## The course of reading -/

/-- **The course of reading a text into the store**: how far it has come
after so many moves. -/
def course (st : Store) (src : Sources) (source : Option Text) (t : Text) (n : Nat) : Progress :=
  (Progress.next st.options src)^[n]
    (.enter st.options (stackOf source) (sourceName source (stackOf source)) t []
      (st.layout, ⟨st.values, []⟩))

section Course

variable (st : Store) (src : Sources) (source : Option Text) (t : Text)

/-- The course ends with what reading comes to. -/
theorem exists_course_ended : ∃ n result layout loading,
    st.course src source t n = .ended result (layout, loading) ∧
    st.read src source t
      = (result, { st with layout, values := loading.values }, loading.notices) := by
  have hreaches := reaches_load st.options src (stackOf source)
    (sourceName source (stackOf source)) t [] (st.layout, ⟨st.values, []⟩)
  unfold read loadWithin
  rcases hload : Layout.load (ListDelimiter.kept st.options.delimiter)
    (sourceName source (stackOf source))
    (fun p s => receive st.options src (stackOf source) p.key p.value s) t
    (st.layout, ⟨st.values, []⟩) with ⟨e | _, layout, loading⟩
  all_goals rw [hload] at hreaches
  · obtain ⟨n, hn⟩ := hreaches
    exact ⟨n, _, layout, loading, hn, rfl⟩
  · obtain ⟨n, hn⟩ := hreaches.trans ⟨1, rfl⟩
    exact ⟨n, _, layout, loading, hn, rfl⟩

/-- What follows a name that leads to a source goes through all of its
text. -/
theorem exists_course_after {n : Nat} {f : Frame} {below : List Frame} {s : Layout × Loading}
    {directive : Directive} {name resolved text : Text} {names : List (Directive × Text)}
    (hcourse : st.course src source t n = .running (f :: below) s)
    (hnames : f.names = (directive, name) :: names)
    (hlead : lead st.options src f.stack directive name = .opened resolved text) :
    ∃ m, st.course src source t (m + n) = .after ({ f with names } :: below)
      (Layout.load (ListDelimiter.kept st.options.delimiter) (some resolved)
        (fun p s => receive st.options src (f.stack ++ [resolved]) p.key p.value s) text
        (s.1, s.2.note (.opened resolved f.stack))) := by
  have hnext : Progress.next st.options src (.running (f :: below) s)
      = .enter st.options (f.stack ++ [resolved]) (some resolved) text ({ f with names } :: below)
          (s.1, s.2.note (.opened resolved f.stack)) := by
    unfold Progress.next Progress.follow
    simp only [hnames, hlead]
  obtain ⟨m, hm⟩ := Progress.Reaches.head (hnext ▸ reaches_load st.options src
    (f.stack ++ [resolved]) (some resolved) text ({ f with names } :: below)
    (s.1, s.2.note (.opened resolved f.stack)))
  refine ⟨m, ?_⟩
  rw [← hm, ← hcourse]
  exact Function.iterate_add_apply _ m n _

/-- A cycle is reported exactly if the course comes to a name that leads
to an open source. -/
theorem read_eq_cycle_iff (resolved : Text) (stack : List Text) :
    (st.read src source t).1 = .error (.cycle resolved stack) ↔
      ∃ n f below s directive name names,
        st.course src source t n = .running (f :: below) s ∧
        f.names = (directive, name) :: names ∧ f.stack = stack ∧
        src.resolve (targetOf st.options name) stack = .ok resolved ∧ resolved ∈ stack := by
  obtain ⟨n, result, layout, loading, hended, hread⟩ := st.exists_course_ended src source t
  rw [hread]
  constructor
  · rintro rfl
    obtain ⟨m, frames, s, hrunning, hlast⟩ := Progress.exists_last_move hended
    obtain ⟨f, below, directive, name, names, rfl, hcycle⟩ :=
      Progress.next_eq_cycle_iff.1 ⟨_, hlast⟩
    exact ⟨m, f, below, s, directive, name, names, hrunning, hcycle⟩
  · rintro ⟨m, f, below, s, directive, name, names, hrunning, hcycle⟩
    obtain ⟨s', hlast⟩ := Progress.next_eq_cycle_iff.2
      ⟨f, below, directive, name, names, rfl, hcycle⟩
    have hended' : st.course src source t (m + 1) = _ :=
      (Function.iterate_succ_apply' _ m _).trans ((congrArg _ hrunning).trans hlast)
    exact (Progress.ended_unique hended hended').1

end Course

end Store

end PropertyFile
