import Mathlib.Data.Nat.Find
import PropertyFile.Proofs.InStep
import PropertyFile.Proofs.Nesting

/-!
# Keys that recur are written on several lines

Whether the values of a key share a line is decided in two places: by
loading, which finds that a key has an entry already, and by the layout
as it hears that values were added to a key. Both follow one rule. The
first thing that happens to a key makes its entry, whatever it is, and
leaves the values on one line; from the first time on that the key is
added to or occurs again, they have lines of their own. Removing the key
ends this, and what comes later starts afresh.

To say so, what happens to the keys of a store is written down
(`Store.history`): what its callers do, and for every text that is read
the properties that are kept on the way, those of included sources among
them, up to where it ends. An entry is then told from the **life** of
its key, which is what has happened to the key since it was last removed
(`Occasion.life`, `singleLine_iff_recurs`).

The proof follows one flag, that of a key with or without an entry
(`Layout.flag?`). What happens changes it in one way only
(`Occasion.step`), whether it is a change, a setting or a move of a load
(`flag?_next`).
-/

namespace PropertyFile

/-! ## What can happen to a key -/

/-- Something that happens to the keys of a store. -/
inductive Occasion where
  /-- Values were added to a key. -/
  | added (key : Text)
  /-- A key occurred as a property that was kept. -/
  | occurred (key : Text)
  /-- The values of a key were replaced. -/
  | assigned (key : Text)
  /-- The layout of a key was changed. -/
  | arranged (key : Text)
  /-- A key was removed. -/
  | removed (key : Text)
  /-- All keys were removed. -/
  | cleared
deriving DecidableEq

namespace Occasion

/-- Whether a key was added to, or occurred. -/
def repeats (k : Text) : Occasion → Bool
  | added key | occurred key => key = k
  | _ => false

/-- Whether something happened that makes an entry for a key that has
none. -/
def concerns (k : Text) : Occasion → Bool
  | added key | occurred key | assigned key | arranged key => key = k
  | _ => false

/-- Whether a key was removed. -/
def ends (k : Text) : Occasion → Bool
  | removed key => key = k
  | cleared => true
  | _ => false

/-- **The life of a key**: what has happened to it since it was last
removed. The first of it has made its entry. -/
def life (k : Text) (history : List Occasion) : List Occasion :=
  (history.rtakeWhile fun e => !e.ends k).filter (concerns k)

variable {k : Text}

theorem life_concat (history : List Occasion) (e : Occasion) :
    life k (history ++ [e]) =
      if e.ends k then [] else if e.concerns k then life k history ++ [e] else life k history := by
  unfold life
  cases hends : e.ends k with
  | true =>
    rw [List.rtakeWhile_concat_neg _ _ _ (by simp [hends]), if_pos rfl]
    rfl
  | false =>
    rw [List.rtakeWhile_concat_pos _ _ _ (by simp [hends]), if_neg Bool.false_ne_true,
      List.filter_append]
    cases hc : e.concerns k with
    | true => rw [if_pos rfl, List.filter_cons_of_pos hc, List.filter_nil]
    | false =>
      rw [if_neg Bool.false_ne_true, List.filter_cons_of_neg (by simp [hc]), List.filter_nil,
        List.append_nil]

/-- A key that was removed starts afresh, here with a setting of its
layout. -/
example : life ['k'] [.added ['k'], .added ['k'], .removed ['k'], .arranged ['k'],
    .assigned ['j'], .occurred ['k']] = [.arranged ['k'], .occurred ['k']] := by
  decide

/-- What becomes of the flag of a key, if it has one: it starts as a
single line, and loses this when the key recurs. -/
def step (k : Text) (flag : Option Bool) : Occasion → Option Bool
  | added key | occurred key => if key = k then some flag.isNone else flag
  | assigned key | arranged key => if key = k then some (flag.getD true) else flag
  | removed key => if key = k then none else flag
  | cleared => none

/-- **The flag that a history leaves** is read off the life of the key. -/
theorem foldl_step (k : Text) (history : List Occasion) :
    history.foldl (step k) none =
      match life k history with
      | [] => none
      | _ :: later => some (!later.any (repeats k)) := by
  -- from the end, for the life of a key is the newest part of the history
  induction history using List.reverseRecOn with
  | nil => rfl
  | append_singleton history e ih =>
    rw [List.foldl_concat, ih, life_concat]
    cases e with
    | cleared => rfl
    | removed key => by_cases hk : key = k <;> simp [step, ends, concerns, hk]
    | added key | occurred key | assigned key | arranged key =>
      by_cases hk : key = k
      · cases life k history <;> simp [step, ends, concerns, repeats, hk]
      · simp [step, ends, concerns, hk]

end Occasion

/-! ## The flag of a key -/

namespace Layout

/-- Whether the values of a key go on one line, if it has an entry. -/
def flag? (l : Layout) (k : Text) : Option Bool := (l.entry? k).map Entry.singleLine

theorem flag?_of_entries_eq {l l' : Layout} (h : l'.entries = l.entries) (k : Text) :
    l'.flag? k = l.flag? k := by
  rw [flag?, entry?, h]
  rfl

theorem singleLine_eq (l : Layout) (k : Text) : (l.entry k).singleLine = (l.flag? k).getD true := by
  unfold entry flag?
  cases l.entry? k <;> rfl

theorem mem_keys_iff_flag? {l : Layout} {k : Text} : k ∈ l.keys ↔ l.flag? k ≠ none := by
  rw [flag?, Ne, Option.map_eq_none_iff]
  exact (not_iff_comm.1 OrderedMap.get?_eq_none_iff.symm).symm

/-- The flag of a key after the entry of one was made or changed. -/
theorem flag?_update {l l' : Layout} {key : Text} {f : Option Entry → Entry}
    (h : l'.entries = l.entries.update key f) (k : Text) :
    l'.flag? k = if k = key then some (f (l.entry? k)).singleLine else l.flag? k := by
  unfold flag? entry?
  rw [h, OrderedMap.get?_update]
  split <;> rfl

/-- A layout **records** a history if the keys with a life have entries,
and those with lines of their own are the ones that recurred in it. -/
def Records (l : Layout) (history : List Occasion) : Prop :=
  ∀ k, (k ∈ l.keys ↔ Occasion.life k history ≠ []) ∧
    ((l.entry k).singleLine = false
      ↔ ∃ e ∈ (Occasion.life k history).tail, e.repeats k = true)

theorem records_of_flag? {l : Layout} {history : List Occasion}
    (h : ∀ k, l.flag? k = history.foldl (Occasion.step k) none) : l.Records history := by
  intro k
  rw [mem_keys_iff_flag?, singleLine_eq, h k, Occasion.foldl_step]
  cases Occasion.life k history with
  | nil => simp
  | cons first later => simp

theorem contains_eq (l : Layout) (k : Text) : l.contains k = (l.flag? k).isSome := by
  rw [Bool.eq_iff_iff, Option.isSome_iff_ne_none, ← mem_keys_iff_flag?]
  exact List.contains_iff_mem

/-- A change of an entry that leaves its flag makes the entry, if there
is none. -/
theorem flag?_modifyEntry (l : Layout) (key : Text) (f : Entry → Entry)
    (hf : ∀ e, (f e).singleLine = e.singleLine) (k : Text) :
    (l.modifyEntry key f).flag? k
      = if key = k then some ((l.flag? k).getD true) else l.flag? k := by
  rw [@flag?_update l (l.modifyEntry key f) key (fun old => f (old.getD {})) rfl, hf, flag?]
  by_cases hk : key = k
  · rw [if_pos hk, if_pos hk.symm]
    cases l.entry? k <;> rfl
  · rw [if_neg hk, if_neg (Ne.symm hk)]

/-! ## Settings -/

/-- The settings of a layout, but for the choice of a single line. -/
inductive Setting where
  /-- The comment of a key. -/
  | comment (key : Text) (comment : Option Text)
  /-- The blank lines before a key. -/
  | blankLines (key : Text) (number : Int)
  /-- The separator of a key. -/
  | separator (key : Text) (separator : Text)
  /-- The comment at the top. -/
  | header (comment : Option Text)
  /-- The comment at the end. -/
  | footer (comment : Option Text)
  /-- The separator of all keys. -/
  | globalSeparator (separator : Option Text)
  /-- The line break. -/
  | lineSeparator (separator : Option Text)
  /-- Whether all keys are written on single lines. -/
  | forceSingleLine (flag : Bool)
  /-- Whether the last line is ended. -/
  | finalNewline (flag : Bool)
  /-- Whether blank lines at the end are kept. -/
  | keepTrailingBlankLines (flag : Bool)

namespace Setting

/-- The layout with a setting changed. One that is refused changes
nothing. -/
def apply (l : Layout) : Setting → Layout
  | comment key block => l.setComment key block
  | blankLines key number =>
    match l.setBlankLines key number with
    | .ok l => l
    | .error _ => l
  | separator key text => l.setSeparator key text
  | header block => { l with header := block }
  | footer block => { l with footer := block }
  | globalSeparator text => { l with globalSeparator := text }
  | lineSeparator text => { l with lineSeparator? := text }
  | forceSingleLine flag => { l with forceSingleLine := flag }
  | finalNewline flag => { l with finalNewline := flag }
  | keepTrailingBlankLines flag => { l with keepTrailingBlankLines := flag }

/-- What a setting is to the keys: nothing, if it is one of the file or
is refused. -/
def occasions : Setting → List Occasion
  | comment key _ | separator key _ => [.arranged key]
  | blankLines key number => if number < 0 then [] else [.arranged key]
  | _ => []

/-- **A setting arranges its key**, and leaves all flags. -/
theorem flag?_apply (l : Layout) (c : Setting) (k : Text) :
    (c.apply l).flag? k = c.occasions.foldl (Occasion.step k) (l.flag? k) := by
  cases c with
  | comment key block =>
    exact l.flag?_modifyEntry key (fun e => { e with comment := block }) (fun _ => rfl) k
  | separator key text =>
    exact l.flag?_modifyEntry key (fun e => { e with separator := text }) (fun _ => rfl) k
  | blankLines key number =>
    rw [apply, occasions, setBlankLines]
    by_cases hneg : number < 0
    · rw [if_pos hneg, if_pos hneg]
      rfl
    · rw [if_neg hneg, if_neg hneg]
      exact l.flag?_modifyEntry key (fun e => { e with blankLines := number.toNat })
        (fun _ => rfl) k
  | _ => rfl

theorem loadDepth_apply (l : Layout) (c : Setting) : (c.apply l).loadDepth = l.loadDepth := by
  cases c with
  | blankLines key number =>
    rw [apply, setBlankLines]
    by_cases hneg : number < 0
    · rw [if_pos hneg]
    · rw [if_neg hneg]
      rfl
  | _ => rfl

end Setting

end Layout

/-! ## Changes -/

/-- What a change is to the keys. -/
def Mutation.occasion : Mutation → Occasion
  | .add key _ => .added key
  | .set key _ => .assigned key
  | .remove key => .removed key
  | .clear => .cleared

namespace Layout

/-- **A change is one occasion** to a layout that listens. -/
theorem flag?_observe {l : Layout} (h : l.loadDepth = 0) (m : Mutation) (k : Text) :
    (l.observe (m.event false)).flag? k = Occasion.step k (l.flag? k) m.occasion := by
  have hidle : l.isLoading = false := by
    rw [isLoading, h]
    rfl
  unfold observe
  rw [hidle]
  cases m with
  | add key v =>
    show (l.modifyEntry key fun e => { e with singleLine := !l.contains key }).flag? k
      = if key = k then some (l.flag? k).isNone else l.flag? k
    rw [@flag?_update l _ key (fun old => { old.getD {} with singleLine := !l.contains key }) rfl]
    by_cases hk : key = k
    · rw [if_pos hk, if_pos hk.symm, contains_eq, hk, Option.not_isSome]
    · rw [if_neg hk, if_neg (Ne.symm hk)]
  | set key v => exact l.flag?_modifyEntry key id (fun _ => rfl) k
  | remove key =>
    show ((l.entries.erase key).get? k).map Entry.singleLine
      = if key = k then none else l.flag? k
    rw [OrderedMap.get?_erase]
    by_cases hk : key = k
    · rw [if_pos hk, if_pos hk.symm]
      rfl
    · rw [if_neg hk, if_neg (Ne.symm hk)]
      rfl
  | clear => rfl

theorem loadDepth_observe (l : Layout) (e : Event) : (l.observe e).loadDepth = l.loadDepth := by
  unfold observe
  split
  · rfl
  · split <;> rfl

end Layout

/-! ## Moves of a load -/

namespace Store

namespace Progress

/-- The layout that a load has come to. -/
def layout : Progress → Layout
  | running _ s | ended _ s => s.1

/-- The key of the property that the next move keeps, if it keeps one:
the next one of the innermost text, when no name of a directive is left,
unless it is a directive itself. -/
def kept? (o : StoreOptions) : Progress → Option Text
  | running (⟨_, _, _, [], p :: _, _⟩ :: _) _ =>
    if (o.directive? p.key).isNone then some p.key else none
  | _ => none

theorem entries_leave_iterate (l : Layout) (n : Nat) :
    (Layout.leave^[n] l).entries = l.entries := by
  induction n generalizing l with
  | zero => rfl
  | succ n ih => rw [Function.iterate_succ_apply, ih]; rfl

variable {o : StoreOptions} {src : Sources}

/-- A failure leaves the entries. -/
theorem flag?_fail (e : LoadError) (frames : List Frame) (s : Layout × Loading) (k : Text) :
    (fail e frames s).layout.flag? k = s.1.flag? k :=
  Layout.flag?_of_entries_eq (entries_leave_iterate s.1 frames.length) k

/-- Following a name leaves the entries. -/
theorem flag?_follow (directive : Directive) (name : Text) (f : Frame) (below : List Frame)
    (s : Layout × Loading) (k : Text) :
    (follow o src directive name f below s).layout.flag? k = s.1.flag? k := by
  unfold follow
  cases lead o src f.stack directive name with
  | fault e => exact flag?_fail e (f :: below) s k
  | skipped target reason => rfl
  | opened resolved text => rfl

/-- The end of a text leaves the entries. -/
theorem flag?_finish (f : Frame) (below : List Frame) (s : Layout × Loading) (k : Text) :
    (finish f below s).layout.flag? k = s.1.flag? k := by
  unfold finish Layout.conclude
  cases f.ending with
  | failed pending fault line => exact flag?_fail _ (f :: below) s k
  | complete trailing => cases f.outermost <;> rfl

/-- Placing a property makes an entry on a single line, or takes this
from the entry there is. -/
theorem entries_place (outermost : Bool) (l : Layout) (p : Property) :
    ∃ f : Option Entry → Entry, (l.place outermost p).entries = l.entries.update p.key f ∧
      ∀ old, (f old).singleLine = old.isNone := by
  obtain ⟨header, block, hplace⟩ := Layout.place_eq outermost l p
  have hentries := congrArg Layout.entries hplace
  dsimp only at hentries
  refine ⟨_, hentries, fun old => ?_⟩
  cases old <;> rfl

/-- A property that is kept is one occasion. -/
theorem flag?_place (outermost : Bool) (l : Layout) (p : Property) (k : Text) :
    (l.place outermost p).flag? k = Occasion.step k (l.flag? k) (.occurred p.key) := by
  obtain ⟨f, hentries, hf⟩ := entries_place outermost l p
  rw [Layout.flag?_update hentries, hf, Occasion.step]
  by_cases hk : p.key = k
  · rw [if_pos hk, if_pos hk.symm, Layout.flag?]
    cases l.entry? k <;> rfl
  · rw [if_neg hk, if_neg (Ne.symm hk)]

/-- Handing on a property is an occasion if the property is kept. -/
theorem flag?_handOn (p : Property) (f : Frame) (below : List Frame) (s : Layout × Loading)
    (k : Text) :
    (handOn o p f below s).layout.flag? k
      = ((if (o.directive? p.key).isNone then some p.key else none).toList.map
          Occasion.occurred).foldl (Occasion.step k) (s.1.flag? k) := by
  unfold handOn
  cases o.directive? p.key with
  | none => exact flag?_place f.outermost s.1 p k
  | some directive => rfl

/-- **A move is an occasion where it keeps a property**, and else leaves
all flags. -/
theorem flag?_next (o : StoreOptions) (src : Sources) (p : Progress) (k : Text) :
    (next o src p).layout.flag? k
      = ((p.kept? o).toList.map Occasion.occurred).foldl (Occasion.step k)
          (p.layout.flag? k) := by
  match p with
  | .running (⟨stack, source, outermost, (directive, name) :: names, properties, ending⟩ ::
      below) s =>
    exact flag?_follow directive name ⟨stack, source, outermost, names, properties, ending⟩ below
      s k
  | .running (⟨stack, source, outermost, [], p :: properties, ending⟩ :: below) s =>
    exact flag?_handOn p ⟨stack, source, outermost, [], properties, ending⟩ below s k
  | .running (⟨stack, source, outermost, [], [], ending⟩ :: below) s =>
    exact flag?_finish ⟨stack, source, outermost, [], [], ending⟩ below s k
  | .running [] s => rfl
  | .ended result s => rfl

/-- Whether a load has ended. -/
def isEnded : Progress → Bool
  | running .. => false
  | ended .. => true

end Progress

/-! ## Texts that are read -/

section Read

variable (st : Store) (src : Sources) (source : Option Text) (t : Text)

/-- **The keys that occur** in the first moves of reading a text, in
order: those of the properties that are kept, in the text itself and in
all that it includes. -/
def occurrences (n : Nat) : List Text :=
  (List.range n).filterMap fun i => (st.course src source t i).kept? st.options

/-- The flag of a key in the course of reading. -/
theorem flag?_course (n : Nat) (k : Text) :
    (st.course src source t n).layout.flag? k
      = ((st.occurrences src source t n).map Occasion.occurred).foldl (Occasion.step k)
          (st.layout.flag? k) := by
  induction n with
  | zero => exact Layout.flag?_of_entries_eq rfl k
  | succ n ih =>
    have hnext : st.course src source t (n + 1)
        = (st.course src source t n).next st.options src := Function.iterate_succ_apply' _ n _
    have hlast : st.occurrences src source t (n + 1) = st.occurrences src source t n
        ++ ((st.course src source t n).kept? st.options).toList := by
      rw [occurrences, List.range_succ, List.filterMap_append, List.filterMap_cons]
      cases (st.course src source t n).kept? st.options <;> rfl
    rw [hnext, Progress.flag?_next, ih, hlast, List.map_append, List.foldl_append]

theorem exists_isEnded : ∃ n, (st.course src source t n).isEnded = true := by
  obtain ⟨n, result, layout, loading, hended, -⟩ := st.exists_course_ended src source t
  exact ⟨n, by rw [hended]; rfl⟩

/-- **How many moves it takes** to read a text, or to fail in it. -/
def moves : Nat := Nat.find (st.exists_isEnded src source t)

/-- After these moves the layout is the one that reading leaves. -/
theorem layout_course_moves :
    (st.course src source t (st.moves src source t)).layout
      = (st.read src source t).2.1.layout := by
  obtain ⟨n, result, layout, loading, hended, hread⟩ := st.exists_course_ended src source t
  have hmoves := Nat.find_spec (st.exists_isEnded src source t)
  rw [hread]
  change (st.course src source t (st.moves src source t)).isEnded = true at hmoves
  cases hlast : st.course src source t (st.moves src source t) with
  | running frames s => rw [hlast] at hmoves; cases hmoves
  | ended result' s =>
    obtain ⟨-, hs⟩ := Progress.ended_unique hlast hended
    exact congrArg Prod.fst hs

theorem loadDepth_read :
    (st.read src source t).2.1.layout.loadDepth = st.layout.loadDepth := by
  obtain ⟨n, result, layout, loading, hended, hread⟩ := st.exists_course_ended src source t
  have hsound := st.sound_course src source t n
  rw [hended] at hsound
  rw [hread]
  exact hsound.1

end Read

/-! ## Whole runs -/

/-- What a caller does to a store and its layout. -/
inductive Action where
  /-- A change of the store, or reading a text. -/
  | step (s : Step)
  /-- A change of a setting of the layout. -/
  | arrange (c : Layout.Setting)

namespace Action

/-- The store after an action. -/
def apply (st : Store) : Action → Store
  | step s => s.apply st
  | arrange c => { st with layout := c.apply st.layout }

/-- **What an action is to the keys.** Reading a text is every occurrence
of a key in it and in what it includes, up to where it ends or fails. -/
def occasions (st : Store) : Action → List Occasion
  | step (.mutate m) => [m.occasion]
  | step (.read src source t) =>
    (st.occurrences src source t (st.moves src source t)).map Occasion.occurred
  | arrange c => c.occasions

variable {st : Store}

/-- An action changes the flag of a key as its occasions do. -/
theorem flag?_apply (h : st.layout.loadDepth = 0) (a : Action) (k : Text) :
    (a.apply st).layout.flag? k
      = (a.occasions st).foldl (Occasion.step k) (st.layout.flag? k) := by
  cases a with
  | arrange c => exact c.flag?_apply st.layout k
  | step s =>
    cases s with
    | mutate m => exact Layout.flag?_observe h m k
    | read src source t =>
      rw [occasions, ← flag?_course, layout_course_moves]
      rfl

theorem loadDepth_apply (a : Action) : (a.apply st).layout.loadDepth = st.layout.loadDepth := by
  cases a with
  | arrange c => exact c.loadDepth_apply st.layout
  | step s =>
    cases s with
    | mutate m => exact st.layout.loadDepth_observe (m.event false)
    | read src source t => exact st.loadDepth_read src source t

end Action

/-- **The store after some actions**, one behind the other. -/
def perform (st : Store) (actions : List Action) : Store := actions.foldl Action.apply st

/-- **What happens to the keys** of a store in the course of some
actions. -/
def history (st : Store) : List Action → List Occasion
  | [] => []
  | a :: rest => a.occasions st ++ history (a.apply st) rest

/-- **The flags are those of the history**, whatever is done. -/
theorem flag?_perform {st : Store} (h : st.layout.loadDepth = 0) (actions : List Action) :
    (st.perform actions).layout.loadDepth = 0 ∧
      ∀ k, (st.perform actions).layout.flag? k
        = (st.history actions).foldl (Occasion.step k) (st.layout.flag? k) := by
  induction actions generalizing st with
  | nil => exact ⟨h, fun _ => rfl⟩
  | cons a rest ih =>
    obtain ⟨hidle, hflags⟩ := ih (a.loadDepth_apply.trans h)
    refine ⟨hidle, fun k => ?_⟩
    rw [history, List.foldl_append, ← a.flag?_apply h]
    exact hflags k

/-- **Keys that recur are written on several lines.** Whatever is done to
a fresh store, but for choosing single lines by hand: its layout has
entries for the keys with a life, and of these the ones that were added
to or occurred once more, after what made their entry, are not on a
single line. So it is at every move of a text that is read. Setting
values never changes the choice, and a key that was removed has no entry,
and so no life. -/
theorem singleLine_iff_recurs (o : StoreOptions) (keep : Bool) (actions : List Action) :
    let st := (fresh o keep).perform actions
    let history := (fresh o keep).history actions
    st.layout.Records history ∧
      (∀ (src : Sources) (source : Option Text) (t : Text) (n : Nat),
        (st.course src source t n).layout.Records
          (history ++ (st.occurrences src source t n).map Occasion.occurred)) ∧
      (∀ (key : Text) (v : Value) (k : Text),
        ((st.mutate (.set key v)).layout.entry k).singleLine = (st.layout.entry k).singleLine) ∧
      ∀ k, k ∉ (st.mutate (.remove k)).layout.keys ∧ k ∉ (st.mutate .clear).layout.keys := by
  intro st history
  obtain ⟨hidle, hperformed⟩ := @flag?_perform (fresh o keep) rfl actions
  have hflags : ∀ k, st.layout.flag? k = history.foldl (Occasion.step k) none := hperformed
  refine ⟨Layout.records_of_flag? hflags, fun src source t n => ?_, fun key v k => ?_,
    fun k => ⟨?_, ?_⟩⟩
  · refine Layout.records_of_flag? fun k => ?_
    rw [flag?_course, List.foldl_append, hflags]
  · have hset : (st.mutate (.set key v)).layout.flag? k
        = if key = k then some ((st.layout.flag? k).getD true) else st.layout.flag? k :=
      Layout.flag?_observe hidle (.set key v) k
    rw [Layout.singleLine_eq, Layout.singleLine_eq, hset]
    split <;> rfl
  · rw [Layout.mem_keys_iff_flag?, not_not]
    exact (Layout.flag?_observe hidle (.remove k) k).trans (if_pos rfl)
  · rw [Layout.mem_keys_iff_flag?, not_not]
    exact Layout.flag?_observe hidle .clear k

/-- A key that occurs in a text, and again in what the text includes. -/
example : (fresh { includeKey := some ['i'], includeOptionalKey := none } true).occurrences
    (Sources.inMemory [(['s'], some "k=2".toList)] []) none "k=1\ni=s\nj=3".toList 8
      = [['k'], ['k'], ['j']] := by
  decide +kernel

end Store

end PropertyFile
