import PropertyFile.Layout.Load
import PropertyFile.Sources
import PropertyFile.Store.Basic
import PropertyFile.Text.CaseFold
import PropertyFile.Variables

/-!
# Loading into a store

A property that is loaded adds its values to the store, without an
event. A property whose key is one of the two **include keys**, in any
case of its letters, is a directive instead: its value lists the names
of sources, which are loaded on the spot into the same values and the
same layout; the directive itself leaves no trace.

The names of the open sources form a stack, the outermost first. A
source whose name is on it is not opened a second time but reported as
a cycle. Since every opened source goes from the openable names that
are not on the stack to those that are, loading always ends
(`Sources.remaining`). A source that cannot be opened stops the load if
the directive says that it has to be there, and is skipped with a
notice if not.
-/

namespace PropertyFile

/-- What is noted while loading. -/
inductive Notice where
  /-- A source was opened, with the given sources open around it. -/
  | opened (name : Text) (stack : List Text)
  /-- An optional source could not be opened. -/
  | skipped (name : Text) (reason : String)
deriving DecidableEq, Repr

/-- What is said of a source that was skipped. -/
def skippedMessage (name : Text) (reason : String) : String :=
  "Skipping optional include " ++ Text.str name ++ ": " ++ reason

/-- The state of a load beside the layout. -/
structure Loading where
  /-- The values loaded so far, on top of those that were there. -/
  values : Values
  /-- What was noted, in order. -/
  notices : List Notice := []
deriving DecidableEq

/-- Adds a notice. -/
def Loading.note (s : Loading) (n : Notice) : Loading := { s with notices := s.notices ++ [n] }

/-- What an include key asks for. -/
inductive Directive where
  /-- The source has to be there. -/
  | mandatory
  /-- The source may be missing. -/
  | optional
deriving DecidableEq, Repr

/-- Whether a key is the given include key, which may be switched off. -/
def isDirectiveKey (key : Text) : Option Text → Bool
  | none | some [] => false
  | some directive => Text.caseFold key == Text.caseFold directive

/-- The directive that a key stands for, if any. -/
def StoreOptions.directive? (o : StoreOptions) (key : Text) : Option Directive :=
  if isDirectiveKey key o.includeKey then some .mandatory
  else if isDirectiveKey key o.includeOptionalKey then some .optional
  else none

namespace Sources

/-- How many openable names are not on the stack. -/
def remaining (src : Sources) (stack : List Text) : Nat :=
  (src.names.filter fun name => name ∉ stack).length

theorem countP_lt_countP {α : Type} {p q : α → Bool} {l : List α} {a : α}
    (h : ∀ x ∈ l, p x = true → q x = true) (ha : a ∈ l) (hp : p a = false) (hq : q a = true) :
    l.countP p < l.countP q := by
  induction l with
  | nil => simp at ha
  | cons x rest ih =>
    have hle := List.countP_mono_left fun y hy => h y (List.mem_cons_of_mem x hy)
    have hx := h x List.mem_cons_self
    rw [List.countP_cons, List.countP_cons]
    rcases List.mem_cons.1 ha with rfl | ha
    · rw [if_pos hq, hp]
      exact Nat.lt_succ_of_le hle
    · have hlt := ih (fun y hy => h y (List.mem_cons_of_mem x hy)) ha
      have hle : (if p x = true then 1 else 0) ≤ (if q x = true then 1 else 0) := by
        split
        · next hpx => exact Nat.le_of_eq (if_pos (hx hpx)).symm
        · exact Nat.zero_le _
      exact Nat.add_lt_add_of_lt_of_le hlt hle

theorem remaining_lt (src : Sources) {stack : List Text} {name text : Text}
    (hs : name ∉ stack) (hr : src.read name = .ok text) :
    src.remaining (stack ++ [name]) < src.remaining stack := by
  unfold remaining
  simp only [← List.countP_eq_length_filter]
  exact countP_lt_countP (by simp_all) (src.read_ok name text hr) (by simp) (by simpa using hs)

end Sources

namespace Store

/-- Runs a step for each of some names, until one of them fails. -/
def forNames {σ : Type} (step : Text → σ → Except LoadError Unit × σ) :
    List Text → σ → Except LoadError Unit × σ
  | [], s => (.ok (), s)
  | name :: rest, s =>
    match step name s with
    | (.error e, s) => (.error e, s)
    | (.ok (), s) => forNames step rest s

/-- **What becomes of a loaded property**: it is kept, or it is a
directive and consumed. -/
def receive (o : StoreOptions) (src : Sources) (stack : List Text) (key value : Text)
    (s : Layout × Loading) : Except LoadError Bool × (Layout × Loading) :=
  match o.directive? key with
  | none => (.ok true, (s.1, { s.2 with values := s.2.values.add o.delimiter key (.one value) }))
  | some directive =>
    if !o.includesAllowed then (.ok false, s)
    else
      let (result, s) := forNames (fun name s =>
        let target := match o.lookup with
          | none => name
          | some lookup => Variables.expand lookup name
        match src.resolve target stack with
        | .error f => (.error (.path f), s)
        | .ok resolved =>
          if _h : resolved ∈ stack then (.error (.cycle resolved stack), s)
          else
            match _hr : src.read resolved with
            | .error (.refused reason) =>
              if directive = .optional then (.ok (), (s.1, s.2.note (.skipped target reason)))
              else (.error (.notFound target reason), s)
            | .error (.undecodable reason) => (.error (.undecodable reason), s)
            | .error (.encoding f) => (.error (.encoding f), s)
            | .ok text =>
              Layout.load (ListDelimiter.kept o.delimiter) (some resolved)
                (fun p s => receive o src (stack ++ [resolved]) p.key p.value s) text
                (s.1, s.2.note (.opened resolved stack)))
        (ListDelimiter.split o.delimiter true value) s
      (result.map fun _ => false, s)
termination_by src.remaining stack
decreasing_by exact src.remaining_lt _h _hr

/-- The name of a text in error messages: its own, else that of the
innermost open source. -/
def sourceName (source : Option Text) (stack : List Text) : Option Text :=
  match source with
  | none | some [] => stack.getLast?
  | some name => some name

/-- The sources that are open while a text with the given name is read
on its own. -/
def stackOf (source : Option Text) : List Text :=
  match source with
  | none | some [] => []
  | some name => [name]

/-- Loads a text into the store, with the given sources open. -/
def loadWithin (st : Store) (src : Sources) (source : Option Text) (stack : List Text) (t : Text) :
    Except LoadError Unit × Store × List Notice :=
  let (result, (layout, loading)) :=
    Layout.load (ListDelimiter.kept st.options.delimiter) (sourceName source stack)
      (fun p s => receive st.options src stack p.key p.value s) t (st.layout, ⟨st.values, []⟩)
  (result, { st with layout, values := loading.values }, loading.notices)

/-- **Reading a text into the store.** Its name, if it has one, is the
first on the stack of open sources. -/
def read (st : Store) (src : Sources) (source : Option Text) (t : Text) :
    Except LoadError Unit × Store × List Notice :=
  st.loadWithin src source (stackOf source) t

end Store

end PropertyFile
