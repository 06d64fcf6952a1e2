import Mathlib.Data.Finset.Card
import Mathlib.Data.List.Nodup
import PropertyFile.Proofs.Course

/-!
# Texts that are loaded inside one another

A text that includes others is not done while they are loaded, so texts
nest. How deep they can is said nowhere in a load; it follows from what
every move keeps (`Progress.Sound`): each text that was included is an
openable source that was not open around it. So the names that includes
have pushed are distinct and openable, and there are only so many of
those. With the course of a load, this says how including behaves as a
whole (`read_course`).
-/

namespace PropertyFile

namespace Sources

/-- The names that can be opened. -/
def openable (src : Sources) : Finset Text :=
  (src.names.filter fun name => (src.read name).isOk).toFinset

theorem mem_openable {src : Sources} {name text : Text} (h : src.read name = .ok text) :
    name ∈ src.openable :=
  List.mem_toFinset.2 (List.mem_filter.2 ⟨src.read_ok name text h, by rw [h]; rfl⟩)

end Sources

namespace Store

/-! ## What holds on the way -/

/-- The open sources of texts that are loaded inside one another, the
innermost first: each text is an openable source that is not open around
it, but for the outermost. -/
inductive Nested (src : Sources) (base : List Text) : List (List Text) → Prop where
  /-- No text is left. -/
  | left : Nested src base []
  /-- The outermost text alone. -/
  | outermost : Nested src base [base]
  /-- A text that was included. -/
  | included {name : Text} {stack : List Text} {below : List (List Text)} :
    name ∈ src.openable → name ∉ stack → Nested src base (stack :: below) →
      Nested src base ((stack ++ [name]) :: stack :: below)

namespace Nested

variable {src : Sources} {base stack : List Text} {below : List (List Text)}

theorem tail (h : Nested src base (stack :: below)) : Nested src base below := by
  cases h with
  | outermost => exact .left
  | included _ _ hbelow => exact hbelow

/-- **The names that includes have pushed** are openable, distinct and
not among those that were open at first; there is one for each included
text. -/
theorem exists_pushed (h : Nested src base (stack :: below)) :
    ∃ pushed, stack = base ++ pushed ∧ pushed.Nodup ∧
      (∀ name ∈ pushed, name ∈ src.openable ∧ name ∉ base) ∧ pushed.length = below.length := by
  generalize hall : stack :: below = all at h
  induction h generalizing stack below with
  | left => cases hall
  | outermost =>
    obtain ⟨rfl, rfl⟩ := List.cons.inj hall
    exact ⟨[], (List.append_nil _).symm, .nil, by simp, rfl⟩
  | @included name around outer hname hnot _ ih =>
    obtain ⟨rfl, rfl⟩ := List.cons.inj hall
    obtain ⟨pushed, rfl, hnodup, hpushed, hlength⟩ := ih rfl
    rw [List.mem_append, not_or] at hnot
    refine ⟨pushed ++ [name], List.append_assoc _ _ _, ?_, ?_, by simp [hlength]⟩
    · exact List.nodup_append.2 ⟨hnodup, List.nodup_singleton name, by
        rintro a ha b hb rfl
        exact hnot.2 (List.mem_singleton.1 hb ▸ ha)⟩
    · intro a ha
      rcases List.mem_append.1 ha with ha | ha
      · exact hpushed a ha
      · rw [List.mem_singleton.1 ha]
        exact ⟨hname, hnot.1⟩

/-- There are never more included texts than names that can be opened. -/
theorem length_le (h : Nested src base (stack :: below)) :
    below.length ≤ src.openable.card := by
  obtain ⟨pushed, -, hnodup, hpushed, hlength⟩ := h.exists_pushed
  rw [← hlength, ← List.toFinset_card_of_nodup hnodup]
  exact Finset.card_le_card fun name hname => (hpushed name (List.mem_toFinset.1 hname)).1

end Nested

/-- No source was opened while it was open. -/
def OpensOnce (loading : Loading) : Prop :=
  ∀ name stack, .opened name stack ∈ loading.notices → name ∉ stack

theorem OpensOnce.note {loading : Loading} (h : OpensOnce loading) {n : Notice}
    (hn : ∀ name stack, n = .opened name stack → name ∉ stack) : OpensOnce (loading.note n) := by
  intro name stack hmem
  rcases List.mem_append.1 hmem with hmem | hmem
  · exact h name stack hmem
  · exact hn name stack (List.mem_singleton.1 hmem).symm

namespace Progress

/-- **What holds of a load on its way**, that began with the given
sources open and at the given depth. -/
def Sound (src : Sources) (base : List Text) (depth : Nat) : Progress → Prop
  | .running frames s =>
    Nested src base (frames.map Frame.stack) ∧ s.1.loadDepth = depth + frames.length ∧
      OpensOnce s.2
  | .ended _ s => s.1.loadDepth = depth ∧ OpensOnce s.2

variable {o : StoreOptions} {src : Sources} {base : List Text} {depth : Nat}

theorem loadDepth_leave_iterate (l : Layout) (n : Nat) :
    (Layout.leave^[n] l).loadDepth = l.loadDepth - n := by
  induction n generalizing l with
  | zero => rfl
  | succ n ih =>
    rw [Function.iterate_succ_apply, ih]
    exact (Nat.sub_sub l.loadDepth 1 n).trans (by rw [Nat.add_comm])

theorem loadDepth_conclude (outermost : Bool) (source : Option Text) (ending : Ending)
    (l : Layout) : (l.conclude outermost source ending).2.loadDepth = l.loadDepth := by
  cases ending with
  | failed => rfl
  | complete trailing => cases outermost <;> rfl

/-- An error leaves all texts at once. -/
theorem Sound.fail {frames : List Frame} {s : Layout × Loading}
    (h : Sound src base depth (.running frames s)) (e : LoadError) :
    Sound src base depth (Progress.fail e frames s) := by
  obtain ⟨-, hdepth, hopens⟩ := h
  refine ⟨?_, hopens⟩
  rw [loadDepth_leave_iterate, hdepth, Nat.add_sub_cancel]

/-- A source that is opened is not open, and stands on the stack while it
is loaded. -/
theorem Sound.follow {f : Frame} {below : List Frame} {s : Layout × Loading}
    (h : Sound src base depth (.running (f :: below) s)) (directive : Directive) (name : Text) :
    Sound src base depth (follow o src directive name f below s) := by
  obtain ⟨hnested, hdepth, hopens⟩ := h
  unfold Progress.follow
  cases hlead : lead o src f.stack directive name with
  | fault e => exact Sound.fail ⟨hnested, hdepth, hopens⟩ e
  | skipped target reason => exact ⟨hnested, hdepth, hopens.note (by simp)⟩
  | opened resolved text =>
    obtain ⟨-, hnot, hread⟩ := lead_eq_opened_iff.1 hlead
    refine ⟨.included (Sources.mem_openable hread) hnot hnested, ?_, hopens.note ?_⟩
    · exact congrArg (· + 1) hdepth
    · rintro _ _ ⟨⟩
      exact hnot

theorem Sound.handOn {f : Frame} {below : List Frame} {s : Layout × Loading}
    (h : Sound src base depth (.running (f :: below) s)) (p : Property) :
    Sound src base depth (handOn o p f below s) := by
  obtain ⟨hnested, hdepth, hopens⟩ := h
  unfold Progress.handOn
  cases o.directive? p.key with
  | none =>
    obtain ⟨header, block, hplace⟩ := Layout.place_eq f.outermost s.1 p
    refine ⟨hnested, ?_, hopens⟩
    dsimp only
    rw [hplace]
    exact hdepth
  | some directive => exact ⟨hnested, hdepth, hopens⟩

/-- A text that has ended is the innermost one no more. -/
theorem Sound.finish {f : Frame} {below : List Frame} {s : Layout × Loading}
    (h : Sound src base depth (.running (f :: below) s)) :
    Sound src base depth (finish f below s) := by
  obtain ⟨hnested, hdepth, hopens⟩ := h
  unfold Progress.finish
  have hconclude := loadDepth_conclude f.outermost f.source f.ending s.1
  rcases hl : s.1.conclude f.outermost f.source f.ending with ⟨e | _, l⟩
  all_goals rw [hl] at hconclude
  · exact Sound.fail (s := (l, s.2)) ⟨hnested, hconclude.trans hdepth, hopens⟩ e
  · refine ⟨hnested.tail, ?_, hopens⟩
    change l.loadDepth - 1 = depth + below.length
    rw [show l.loadDepth = _ from hconclude, hdepth]
    rfl

/-- **Every move keeps it.** -/
theorem Sound.next {p : Progress} (h : Sound src base depth p) :
    Sound src base depth (next o src p) := by
  match p, h with
  | .running (⟨stack, source, outermost, (directive, name) :: names, properties, ending⟩ ::
      below) s, h =>
    exact Sound.follow (f := ⟨stack, source, outermost, names, properties, ending⟩) h _ _
  | .running (⟨stack, source, outermost, [], p :: properties, ending⟩ :: below) s, h =>
    exact Sound.handOn (f := ⟨stack, source, outermost, [], properties, ending⟩) h p
  | .running (⟨stack, source, outermost, [], [], ending⟩ :: below) s, h => exact Sound.finish h
  | .running [] s, h => exact ⟨h.2.1, h.2.2⟩
  | .ended result s, h => exact h

/-- **So does every number of moves.** -/
theorem Sound.iterate {p : Progress} (h : Sound src base depth p) (n : Nat) :
    Sound src base depth ((Progress.next o src)^[n] p) := by
  induction n with
  | zero => exact h
  | succ n ih =>
    rw [Function.iterate_succ_apply']
    exact ih.next

end Progress

/-! ## Reading -/

section Reading

variable (st : Store) (src : Sources) (source : Option Text) (t : Text)

theorem sound_course (n : Nat) :
    (st.course src source t n).Sound src (stackOf source) st.layout.loadDepth :=
  Progress.Sound.iterate (p := .enter ..) ⟨.outermost, rfl, by simp [OpensOnce]⟩ n

/-- **Including always ends, and never opens an open source.** Reading
any text comes to an end after finitely many moves, whatever sources
there are and however their names are resolved. On its way the names
that includes have pushed are distinct, openable and not the name of the
text that is read, so that no more texts are loaded inside one another
than names can be opened; and every source was opened while it was not
open. A source that is named where it is not open is loaded in full,
however often it was loaded before; one that is named where it is open,
and nothing else, is reported as a cycle. -/
theorem read_course :
    (∃ n result layout loading, st.course src source t n = .ended result (layout, loading) ∧
      st.read src source t
        = (result, { st with layout, values := loading.values }, loading.notices)) ∧
    (∀ n f below s, st.course src source t n = .running (f :: below) s →
      below.length ≤ src.openable.card ∧
      s.1.loadDepth = st.layout.loadDepth + 1 + below.length ∧
      ∃ pushed, f.stack = stackOf source ++ pushed ∧ pushed.Nodup ∧
        (∀ name ∈ pushed, name ∈ src.openable ∧ name ∉ stackOf source) ∧
        pushed.length = below.length) ∧
    (∀ name stack, .opened name stack ∈ (st.read src source t).2.2 → name ∉ stack) ∧
    (∀ n f below s directive name names resolved text,
      st.course src source t n = .running (f :: below) s →
      f.names = (directive, name) :: names →
      src.resolve (targetOf st.options name) f.stack = .ok resolved → resolved ∉ f.stack →
      src.read resolved = .ok text →
      ∃ m, st.course src source t (m + n) = .after ({ f with names } :: below)
        (Layout.load (ListDelimiter.kept st.options.delimiter) (some resolved)
          (fun p s => receive st.options src (f.stack ++ [resolved]) p.key p.value s) text
          (s.1, s.2.note (.opened resolved f.stack)))) ∧
    ∀ resolved stack, (st.read src source t).1 = .error (.cycle resolved stack) ↔
      ∃ n f below s directive name names,
        st.course src source t n = .running (f :: below) s ∧
        f.names = (directive, name) :: names ∧ f.stack = stack ∧
        src.resolve (targetOf st.options name) stack = .ok resolved ∧ resolved ∈ stack := by
  refine ⟨st.exists_course_ended src source t, ?_, ?_, ?_, st.read_eq_cycle_iff src source t⟩
  · intro n f below s hrunning
    have hsound := st.sound_course src source t n
    rw [hrunning] at hsound
    obtain ⟨hnested, hdepth, -⟩ := hsound
    obtain ⟨pushed, hstack, hnodup, hpushed, hlength⟩ := hnested.exists_pushed
    rw [List.length_map] at hlength
    refine ⟨?_, hdepth.trans (by rw [List.length_cons]; omega), pushed, hstack, hnodup, hpushed,
      hlength⟩
    exact (List.length_map _).symm.trans_le hnested.length_le
  · obtain ⟨n, result, layout, loading, hended, hread⟩ := st.exists_course_ended src source t
    have hsound := st.sound_course src source t n
    rw [hended] at hsound
    rw [hread]
    exact hsound.2
  · intro n f below s directive name names resolved text hrunning hnames hresolve hnot hread
    exact st.exists_course_after src source t hrunning hnames
      (lead_eq_opened_iff.2 ⟨hresolve, hnot, hread⟩)

/-- A source that is included twice, but not within itself, is loaded both
times. -/
example :
    let st := (fresh { includeKey := some ['i'], includeOptionalKey := none } true).read
      (Sources.inMemory [(['s'], some "b = 2".toList)] []) none "i = s\ni = s\n".toList
    st.1 = .ok () ∧ st.2.1.values.list ['b'] = [['2'], ['2']] := by
  cbv

end Reading

end Store

end PropertyFile
