import PropertyFile.Settings.Basic

/-!
# Settings read from a table

Every setting is read from its own entry of a table by one rule
(`setting`): it is what the entry says, if that is something the setting
admits, and its default otherwise; an entry without a value counts as
none. What each setting admits is said by a partial function on values.
The checks of the entries follow this rule (`Checked.Reads`), also where
a value is refused in two steps, first for its type and then for what it
says: it costs one warning either way.

A warning about a value shows the value, and that is the one thing that
can fail: a value that holds a whole number with too many digits is not
shown (`Toml.Value.exists_shown_iff`). So there are settings in every
table in which no setting is given such a value, and in no other one
(`ofTable_isReadFrom_iff`). Where there are, no entry has a say in any
setting but its own, the warnings are one for each key that no setting has
and one for each entry that is not admitted, and the settings make a
store.
-/

namespace PropertyFile

/-! ## Values that can be shown -/

namespace Toml.Value

mutual

/-- The whole numbers in a value. -/
def integers : Value → List Int
  | .integer n => [n]
  | .array items => itemIntegers items
  | .table entries => entryIntegers entries
  | _ => []

/-- The whole numbers in the items of an array. -/
def itemIntegers : List Value → List Int
  | [] => []
  | v :: rest => v.integers ++ itemIntegers rest

/-- The whole numbers in the entries of a table. -/
def entryIntegers : List (Text × Value) → List Int
  | [] => []
  | (_, v) :: rest => v.integers ++ entryIntegers rest

end

theorem exists_map_iff {α β : Type} {f : α → β} {x : Except LongNumber α} :
    (∃ b, x.map f = .ok b) ↔ ∃ a, x = .ok a := by
  cases x <;> simp [Except.map]

mutual

/-- **Which values can be shown**: those without a whole number that has
too many digits. -/
theorem exists_shown_iff (v : Value) :
    (∃ t, v.shown = .ok t) ↔ ∀ n ∈ v.integers, isLong n = false := by
  cases v with
  | integer n =>
    rw [shown, integers, shownInteger]
    cases h : isLong n <;> simp [h]
  | array items =>
    rw [shown, integers, exists_map_iff]
    exact exists_shownItems_iff items
  | table entries =>
    rw [shown, integers, exists_map_iff]
    exact exists_shownEntries_iff entries
  | _ => simp [shown, integers]

theorem exists_shownItems_iff (items : List Value) :
    (∃ ts, shownItems items = .ok ts) ↔ ∀ n ∈ itemIntegers items, isLong n = false := by
  cases items with
  | nil => simp [shownItems, itemIntegers]
  | cons v rest =>
    have hv := exists_shown_iff v
    have hrest := exists_shownItems_iff rest
    rw [itemIntegers, List.forall_mem_append, ← hv, ← hrest, shownItems]
    cases v.shown with
    | error e => simp [Bind.bind, Except.bind]
    | ok t =>
      cases shownItems rest with
      | error e => simp [Bind.bind, Except.bind]
      | ok ts => simp [Bind.bind, Except.bind, pure, Except.pure]

theorem exists_shownEntries_iff (entries : List (Text × Value)) :
    (∃ ts, shownEntries entries = .ok ts) ↔ ∀ n ∈ entryIntegers entries, isLong n = false := by
  cases entries with
  | nil => simp [shownEntries, entryIntegers]
  | cons e rest =>
    obtain ⟨key, v⟩ := e
    have hv := exists_shown_iff v
    have hrest := exists_shownEntries_iff rest
    rw [entryIntegers, List.forall_mem_append, ← hv, ← hrest, shownEntries]
    cases v.shown with
    | error e => simp [Bind.bind, Except.bind]
    | ok t =>
      cases shownEntries rest with
      | error e => simp [Bind.bind, Except.bind]
      | ok ts => simp [Bind.bind, Except.bind, pure, Except.pure]

end

end Toml.Value

/-! ## Telling what is wrong -/

/-- Whether a problem can be put into words. -/
def Problem.CanBeTold (p : Problem) : Prop := ∃ said, p.message = .ok said

theorem Problem.canBeTold_mismatch_iff {expected : String} {v : Toml.Value} :
    (Problem.mismatch expected v).CanBeTold ↔ ∀ n ∈ v.integers, Toml.isLong n = false :=
  Toml.Value.exists_map_iff.trans v.exists_shown_iff

variable {place : Text} {f : Finding} {fs : List Finding} {r : Rejection} {rs : List Rejection}

theorem reject_eq_of_message {said : String} (h : f.message place = .ok said) :
    reject place f = { result := .ok ⟨f.key, said⟩, reports := [Log.warning said] } := by
  rw [reject, h]
  rfl

/-- **A finding that is told** is noted with its key and what was said,
which names the table and the key. -/
theorem result_reject_eq_ok_iff :
    (reject place f).result = .ok r
      ↔ r.key = f.key ∧ ∃ said, f.problem.message = .ok said ∧
          r.message = said ++ " in " ++ Text.str place ++ "." ++ Text.str f.key := by
  obtain ⟨key, message⟩ := r
  rw [reject, Finding.message]
  cases f.problem.message with
  | error e =>
    show Except.error e = .ok _ ↔ _
    simp
  | ok said =>
    show Except.ok (Rejection.mk _ _) = .ok _ ↔ _
    simp [eq_comm]

theorem reports_reject (h : (reject place f).result = .ok r) :
    (reject place f).reports = [Log.warning r.message] := by
  cases hmessage : f.message place with
  | error e =>
    rw [reject, hmessage] at h
    cases h
  | ok said =>
    rw [reject_eq_of_message hmessage] at h ⊢
    cases h
    rfl

theorem result_rejectAll_cons_eq_ok_iff :
    (rejectAll place (f :: fs)).result = .ok rs
      ↔ ∃ r rest, (reject place f).result = .ok r ∧ (rejectAll place fs).result = .ok rest ∧
          rs = r :: rest := by
  rw [rejectAll, Reporting.result_bind_eq_ok_iff]
  simp only [Reporting.result_bind_eq_ok_iff, Reporting.result_pure, Except.ok.injEq]
  constructor
  · rintro ⟨r, hr, rest, hrest, rfl⟩
    exact ⟨r, rest, hr, hrest, rfl⟩
  · rintro ⟨r, rest, hr, hrest, rfl⟩
    exact ⟨r, hr, rest, hrest, rfl⟩

/-- All findings are told if and only if each of them can be. -/
theorem exists_rejectAll_iff :
    (∃ rs, (rejectAll place fs).result = .ok rs) ↔ ∀ f ∈ fs, f.problem.CanBeTold := by
  induction fs with
  | nil => exact iff_of_true ⟨[], rfl⟩ nofun
  | cons f fs ih =>
    rw [List.forall_mem_cons, ← ih]
    simp only [result_rejectAll_cons_eq_ok_iff, result_reject_eq_ok_iff]
    constructor
    · rintro ⟨_, r, rest, ⟨-, said, hsaid, -⟩, hrest, rfl⟩
      exact ⟨⟨said, hsaid⟩, rest, hrest⟩
    · rintro ⟨⟨said, hsaid⟩, rest, hrest⟩
      exact ⟨_, ⟨f.key, _⟩, rest, ⟨rfl, said, hsaid, rfl⟩, hrest, rfl⟩

/-- **What is noted of findings** is one rejection for each, in their
order, and the log has the same words. -/
theorem rejectAll_spec (h : (rejectAll place fs).result = .ok rs) :
    rs.map Rejection.key = fs.map Finding.key ∧
      (rejectAll place fs).reports = rs.map (fun r => Log.warning r.message) ∧
      ∀ r ∈ rs, ∃ said, r.message = said ++ " in " ++ Text.str place ++ "." ++ Text.str r.key := by
  induction fs generalizing rs with
  | nil =>
    cases h
    exact ⟨rfl, rfl, nofun⟩
  | cons f fs ih =>
    obtain ⟨r, rest, hr, hrest, rfl⟩ := result_rejectAll_cons_eq_ok_iff.1 h
    obtain ⟨hkey, said, -, hsaid⟩ := result_reject_eq_ok_iff.1 hr
    obtain ⟨hkeys, hreports, hmessages⟩ := ih hrest
    refine ⟨?_, ?_, List.forall_mem_cons.2 ⟨⟨said, hkey ▸ hsaid⟩, hmessages⟩⟩
    · rw [List.map_cons, List.map_cons, hkey, hkeys]
    · rw [rejectAll, (Reporting.bind_of_ok hr _).2, (Reporting.bind_of_ok hrest _).2,
        reports_reject hr, hreports]
      simp

namespace Settings

/-! ## The rule -/

/-- An entry that has a value. -/
def given : Option Toml.Value → Option Toml.Value
  | some .null => none
  | entry => entry

/-- **The rule of a setting**: what its entry says, if that is admitted,
and else the default. -/
def setting {α : Type} (default : α) (admits : Toml.Value → Option α)
    (entry : Option Toml.Value) : α :=
  ((given entry).bind admits).getD default

/-- Whether an entry has a value that is not admitted. -/
def isPassedOver {α : Type} (admits : Toml.Value → Option α) (entry : Option Toml.Value) : Bool :=
  (given entry).any fun v => (admits v).isNone

/-- Whether an entry has a value that cannot be shown, for a whole number in
it has too many digits. -/
def HoldsLong (entry : Option Toml.Value) : Prop :=
  ∃ v, entry = some v ∧ ∃ n ∈ v.integers, Toml.isLong n

theorem not_holdsLong_iff {v : Toml.Value} :
    ¬ HoldsLong (some v) ↔ ∀ n ∈ v.integers, Toml.isLong n = false := by
  simp [HoldsLong]

/-- What is admitted, put into another form. -/
theorem apply_setting {α β : Type} (g : α → β) (default : α) (admits : Toml.Value → Option α)
    (entry : Option Toml.Value) :
    g (setting default admits entry) = setting (g default) (fun v => (admits v).map g) entry := by
  rw [setting, setting]
  cases given entry with
  | none => rfl
  | some v => cases h : admits v <;> simp [h]

theorem isPassedOver_map {α β : Type} (g : α → β) (admits : Toml.Value → Option α)
    (entry : Option Toml.Value) :
    isPassedOver (fun v => (admits v).map g) entry = isPassedOver admits entry := by
  simp [isPassedOver]

end Settings

/-! ## Checked entries -/

namespace Checked

open Settings

variable {α β : Type} {c : Checked α} {default : α} {admits admits' : Toml.Value → Option α}
  {entry : Option Toml.Value}

/-- Whether what is wrong with an entry, if anything is, can be put into
words. -/
def CanBeTold (c : Checked α) : Prop := ∀ p, c.problem = some p → p.CanBeTold

/-- **A check that follows the rule**: it comes to the setting, and has a
problem just with an entry that is not admitted, which can be told just if
the entry can be shown. -/
structure Reads (c : Checked α) (default : α) (admits : Toml.Value → Option α)
    (entry : Option Toml.Value) : Prop where
  /-- The value is that of the setting. -/
  value : c.value = setting default admits entry
  /-- There is a problem if and only if the entry is passed over. -/
  problem : c.problem.isSome = isPassedOver admits entry
  /-- The problem can be told if and only if the entry can be shown. -/
  told : c.CanBeTold ↔ ¬ HoldsLong entry

theorem Reads.congr (h : c.Reads default admits entry) (hadmits : ∀ v, admits v = admits' v) :
    c.Reads default admits' entry := by
  obtain rfl : admits = admits' := funext hadmits
  exact h

/-- The text that a value is. -/
def text? : Toml.Value → Option Text
  | .string t => some t
  | _ => none

/-- The truth value that a value is. -/
def boolean? : Toml.Value → Option Bool
  | .boolean b => some b
  | _ => none

theorem canBeTold_ok (a : α) : CanBeTold ⟨a, none⟩ := nofun

theorem canBeTold_mismatch_iff {a : α} {expected : String} {v : Toml.Value} :
    CanBeTold ⟨a, some (.mismatch expected v)⟩ ↔ ¬ HoldsLong (some v) := by
  have hproblem : (Problem.mismatch expected v).CanBeTold ↔ ¬ HoldsLong (some v) :=
    Problem.canBeTold_mismatch_iff.trans not_holdsLong_iff.symm
  rw [← hproblem, CanBeTold]
  simp

theorem not_holdsLong_none : ¬ HoldsLong none := nofun

theorem not_holdsLong_of_integers_eq_nil {v : Toml.Value} (h : v.integers = []) :
    ¬ HoldsLong (some v) := by
  rw [not_holdsLong_iff, h]
  exact nofun

theorem reads_string (default : Text) (entry : Option Toml.Value) :
    (string default entry).Reads default text? entry := by
  cases entry with
  | none => exact ⟨rfl, rfl, iff_of_true (canBeTold_ok _) not_holdsLong_none⟩
  | some v =>
    cases v with
    | null | string t =>
      exact ⟨rfl, rfl, iff_of_true (canBeTold_ok _) (not_holdsLong_of_integers_eq_nil rfl)⟩
    | _ => exact ⟨rfl, rfl, canBeTold_mismatch_iff⟩

theorem reads_boolean (default : Bool) (entry : Option Toml.Value) :
    (boolean default entry).Reads default boolean? entry := by
  cases entry with
  | none => exact ⟨rfl, rfl, iff_of_true (canBeTold_ok _) not_holdsLong_none⟩
  | some v =>
    cases v with
    | null | boolean b =>
      exact ⟨rfl, rfl, iff_of_true (canBeTold_ok _) (not_holdsLong_of_integers_eq_nil rfl)⟩
    | _ => exact ⟨rfl, rfl, canBeTold_mismatch_iff⟩

theorem reads_choice (choices : List (String × α)) (default : α) (entry : Option Toml.Value) :
    (choice choices default entry).Reads default
      (fun v => (text? v).bind fun t => (choices.find? fun c => c.1.toList = t).map Prod.snd)
      entry := by
  cases entry with
  | none => exact ⟨rfl, rfl, iff_of_true (canBeTold_ok _) not_holdsLong_none⟩
  | some v =>
    cases v with
    | null => exact ⟨rfl, rfl, iff_of_true (canBeTold_ok _) (not_holdsLong_of_integers_eq_nil rfl)⟩
    | string t =>
      have htold : (choice choices default (some (.string t))).CanBeTold := by
        rw [choice]
        split
        · exact canBeTold_ok _
        · rintro p ⟨⟩
          exact ⟨_, rfl⟩
      refine ⟨?_, ?_, iff_of_true htold (not_holdsLong_of_integers_eq_nil rfl)⟩ <;>
        rw [choice] <;> cases hfind : choices.find? fun c => c.1.toList = t <;>
        simp [setting, isPassedOver, given, text?, hfind]
    | _ => exact ⟨rfl, rfl, canBeTold_mismatch_iff⟩

/-- A problem that a second step finds goes behind that of the first. -/
theorem canBeTold_refine_iff {default' : β} {f : α → Except Problem β}
    (hf : ∀ a p, f a = .error p → p.CanBeTold) :
    (c.refine default' f).CanBeTold ↔ c.CanBeTold := by
  rw [Checked.refine]
  cases hvalue : f c.value with
  | ok b => exact Iff.rfl
  | error p =>
    rw [CanBeTold, CanBeTold]
    cases hproblem : c.problem with
    | none => simpa using hf c.value p hvalue
    | some q => simp

/-- **A second step of a check** keeps to the rule: a value that the first
step refuses goes through the second one by its default, and one that the
second step refuses had no problem before. -/
theorem Reads.refine (h : c.Reads default admits entry) {default' : β} {f : α → Except Problem β}
    (hf : f default = .ok default') (htold : ∀ a p, f a = .error p → p.CanBeTold) :
    (c.refine default' f).Reads default' (fun v => (admits v).bind fun a => (f a).toOption)
      entry := by
  obtain ⟨hvalue, hproblem, hfirst⟩ := h
  have hboth : (c.refine default' f).CanBeTold ↔ ¬ HoldsLong entry :=
    (canBeTold_refine_iff htold).trans hfirst
  rw [setting] at hvalue
  rw [isPassedOver] at hproblem
  suffices hrule : (c.refine default' f).value
        = setting default' (fun v => (admits v).bind fun a => (f a).toOption) entry ∧
      (c.refine default' f).problem.isSome
        = isPassedOver (fun v => (admits v).bind fun a => (f a).toOption) entry from
    ⟨hrule.1, hrule.2, hboth⟩
  rw [Checked.refine]
  cases hgiven : given entry with
  | none =>
    simp only [hgiven, Option.bind_none, Option.getD_none] at hvalue
    simp only [hgiven, Option.any_none] at hproblem
    rw [hvalue, hf]
    exact ⟨by simp [setting, hgiven], by simpa [isPassedOver, hgiven] using hproblem⟩
  | some v =>
    cases hadmits : admits v with
    -- the first step has reported the value already, and the second one accepts its default
    | none =>
      simp only [hgiven, Option.bind_some, hadmits, Option.getD_none] at hvalue
      simp only [hgiven, Option.any_some, hadmits, Option.isNone_none] at hproblem
      rw [hvalue, hf]
      exact ⟨by simp [setting, hgiven, hadmits],
        by simpa [isPassedOver, hgiven, hadmits] using hproblem⟩
    | some a =>
      simp only [hgiven, Option.bind_some, hadmits, Option.getD_some] at hvalue
      simp only [hgiven, Option.any_some, hadmits, Option.isNone_some] at hproblem
      rw [hvalue]
      cases hfa : f a with
      | ok b =>
        exact ⟨by simp [setting, hgiven, hadmits, hfa, Except.toOption],
          by simpa [isPassedOver, hgiven, hadmits, hfa, Except.toOption] using hproblem⟩
      | error problem =>
        exact ⟨by simp [setting, hgiven, hadmits, hfa, Except.toOption],
          by simp [isPassedOver, hgiven, hadmits, hfa, Except.toOption]⟩

/-- **The findings of a check**: one, or none. -/
theorem Reads.findings_spec (h : c.Reads default admits entry) (key : Text) :
    (c.findings key).map Finding.key = (if isPassedOver admits entry then [key] else []) ∧
      ((∀ f ∈ c.findings key, f.problem.CanBeTold) ↔ ¬ HoldsLong entry) := by
  rw [← h.problem, ← h.told, CanBeTold, findings]
  cases c.problem with
  | none => simp
  | some p => simp

end Checked

namespace Settings

open Checked

/-! ## Which values are admitted -/

/-- The encoding that a value names: any text but the empty one. -/
def encodingOf? : Toml.Value → Option Text
  | .string (c :: rest) => some (c :: rest)
  | _ => none

/-- The list delimiter that a value gives: a single character but the
backslash, and none by the empty text. -/
def delimiterOf? : Toml.Value → Option (Option ListDelimiter)
  | .string [] => some none
  | .string [c] => (ListDelimiter.ofChar? c).map some
  | _ => none

/-- The text that a value gives; the empty one gives none. -/
def textOf? (v : Toml.Value) : Option (Option Text) := (text? v).map nonEmpty

/-- The line break that a value names. -/
def lineChoiceOf? (v : Toml.Value) : Option LineChoice :=
  (text? v).bind fun t =>
    [LineChoice.auto, .lf, .crlf, .cr].find? fun c => c.name.toList = t

theorem reads_encoding (entry : Option Toml.Value) :
    (checkEncoding entry).Reads "utf-8".toList encodingOf? entry := by
  rw [checkEncoding]
  refine Reads.congr (Reads.refine (reads_string _ entry) rfl fun t p h => ?_) fun v => ?_
  · split at h <;> cases h
    exact ⟨_, rfl⟩
  cases v with
  | string t => cases t <;> rfl
  | _ => rfl

theorem reads_delimiter (entry : Option Toml.Value) :
    (checkDelimiter entry).Reads none delimiterOf? entry := by
  rw [checkDelimiter]
  refine Reads.congr (Reads.refine (reads_string [] entry) rfl fun t p h => ?_) fun v => ?_
  · repeat' split at h
    all_goals cases h
    exact ⟨_, rfl⟩
  cases v with
  | string t =>
    match t with
    | [] => rfl
    | [c] =>
      simp only [text?, Option.bind_some, List.isEmpty_cons, Bool.false_eq_true, if_false,
        ListDelimiter.ofText, delimiterOf?, ListDelimiter.ofChar?]
      by_cases hc : c = escapeMark <;> simp [hc, Except.toOption]
    | _ :: _ :: _ => rfl
  | _ => rfl

theorem reads_lineChoice (entry : Option Toml.Value) :
    (choice LineChoice.all .auto entry).Reads .auto lineChoiceOf? entry := by
  refine (reads_choice LineChoice.all .auto entry).congr fun v => ?_
  rw [lineChoiceOf?]
  refine congrArg _ (funext fun t => ?_)
  have hall : LineChoice.all = [LineChoice.auto, .lf, .crlf, .cr].map fun c => (c.name, c) := rfl
  rw [hall, List.find?_map, Option.map_map]
  exact Option.map_id'

theorem reads_text (default : String) (entry : Option Toml.Value) :
    nonEmpty (string default.toList entry).value
        = setting (nonEmpty default.toList) textOf? entry ∧
      ∀ key, ((string default.toList entry).findings key).map Finding.key
          = (if isPassedOver textOf? entry then [key] else []) ∧
        ((∀ f ∈ (string default.toList entry).findings key, f.problem.CanBeTold)
          ↔ ¬ HoldsLong entry) := by
  have h := reads_string default.toList entry
  refine ⟨?_, fun key => ⟨?_, (h.findings_spec key).2⟩⟩
  · rw [h.value]
    exact apply_setting nonEmpty _ _ _
  · rw [(h.findings_spec key).1]
    exact congrArg (fun b => if b then [key] else []) (isPassedOver_map nonEmpty text? entry).symm

/-- The keys of the settings, in the order in which they are read, each
with what it admits. -/
def requirements : List (String × (Toml.Value → Bool)) := [
  ("encoding", fun v => (encodingOf? v).isSome),
  ("list_delimiter", fun v => (delimiterOf? v).isSome),
  ("include_key", fun v => (textOf? v).isSome),
  ("include_optional_key", fun v => (textOf? v).isSome),
  ("separator", fun v => (textOf? v).isSome),
  ("force_single_line", fun v => (boolean? v).isSome),
  ("line_separator", fun v => (lineChoiceOf? v).isSome),
  ("keep_trailing_blank_lines", fun v => (boolean? v).isSome),
  ("includes_allowed", fun v => (boolean? v).isSome),
  ("escape_unicode", fun v => (boolean? v).isSome)]

/-- Every key has its requirement, and just one. -/
theorem perm_requirements : (requirements.map Prod.fst).Perm keys := by decide

/-- The keys of the entries of a table that no setting has, in the order
of the table. -/
def unknown (table : Toml.Table) : List Text :=
  (table.map Prod.fst).filter fun key => ∀ known ∈ keys, known.toList ≠ key

/-- The keys of the entries of a table that are not admitted. -/
def passedOver (table : Toml.Table) : List Text :=
  (requirements.filter fun r => (given (table.lookup r.1.toList)).any fun v => !r.2 v).map
    fun r => r.1.toList

/-! ## The settings in a table -/

/-- **Settings that follow the rule**, each by its own entry of a
table. -/
structure IsReadFrom (s : Settings) (table : Toml.Table) : Prop where
  encoding : s.encoding = setting "utf-8".toList encodingOf? (table.lookup "encoding".toList)
  listDelimiter :
    s.listDelimiter = setting none delimiterOf? (table.lookup "list_delimiter".toList)
  separator : s.separator = setting none textOf? (table.lookup "separator".toList)
  forceSingleLine :
    s.forceSingleLine = setting false boolean? (table.lookup "force_single_line".toList)
  lineSeparator :
    s.lineSeparator = setting .auto lineChoiceOf? (table.lookup "line_separator".toList)
  keepTrailingBlankLines : s.keepTrailingBlankLines
    = setting true boolean? (table.lookup "keep_trailing_blank_lines".toList)
  includeKey : s.includeKey
    = setting (some "include".toList) textOf? (table.lookup "include_key".toList)
  includeOptionalKey : s.includeOptionalKey
    = setting (some "includeoptional".toList) textOf? (table.lookup "include_optional_key".toList)
  includesAllowed :
    s.includesAllowed = setting true boolean? (table.lookup "includes_allowed".toList)
  escapeUnicode : s.escapeUnicode = setting false boolean? (table.lookup "escape_unicode".toList)

theorem CheckedEntries.isReadFrom_settings (table : Toml.Table) (configFile : Option Path)
    (rejections : List Rejection) :
    ((ofTable table).settings configFile rejections).IsReadFrom table where
  encoding := (reads_encoding _).value
  listDelimiter := (reads_delimiter _).value
  separator := (reads_text "" _).1
  forceSingleLine := (reads_boolean _ _).value
  lineSeparator := (reads_lineChoice _).value
  keepTrailingBlankLines := (reads_boolean _ _).value
  includeKey := (reads_text "include" _).1
  includeOptionalKey := (reads_text "includeoptional" _).1
  includesAllowed := (reads_boolean _ _).value
  escapeUnicode := (reads_boolean _ _).value

/-- Every key that no setting has is found, and can be told. -/
theorem unknownKeys_spec (table : Toml.Table) :
    (unknownKeys table).map Finding.key = unknown table ∧
      ∀ f ∈ unknownKeys table, f.problem.CanBeTold := by
  constructor
  · rw [unknownKeys, unknown, List.map_map, List.filter_map]
    refine congrArg _ (List.filter_congr fun e _ => Bool.eq_iff_iff.2 ?_)
    simp only [Function.comp_apply, decide_eq_true_eq, Bool.not_eq_true', List.any_eq_false,
      beq_iff_eq, ne_eq]
  · intro f hf
    obtain ⟨e, -, rfl⟩ := List.mem_map.1 hf
    exact ⟨_, rfl⟩

theorem map_filter_eq_flatMap {α β : Type} (p : α → Bool) (f : α → β) (l : List α) :
    (l.filter p).map f = l.flatMap fun a => if p a then [f a] else [] := by
  induction l with
  | nil => rfl
  | cons a l ih =>
    rw [List.filter_cons, List.flatMap_cons, ← ih]
    split <;> rfl

/-- The entries that are not admitted are found, in the order of the
requirements. -/
theorem CheckedEntries.keys_findings (table : Toml.Table) :
    (ofTable table).findings.map Finding.key = passedOver table := by
  have hentry : ∀ {α : Type} (admits : Toml.Value → Option α) (entry : Option Toml.Value),
      isPassedOver admits entry = (given entry).any fun v => !(admits v).isSome := by
    simp [isPassedOver]
  simp only [findings, ofTable, List.map_append, ((reads_encoding _).findings_spec _).1,
    ((reads_delimiter _).findings_spec _).1, ((reads_text _ _).2 _).1,
    ((reads_boolean _ _).findings_spec _).1, ((reads_lineChoice _).findings_spec _).1, hentry]
  rw [passedOver, map_filter_eq_flatMap]
  simp only [requirements, List.flatMap_cons, List.flatMap_nil, List.append_nil, List.append_assoc]

/-- Whether no setting is given a value in which a number has too many
digits. -/
def IsTellable (table : Toml.Table) : Prop :=
  ∀ key ∈ keys, ¬ HoldsLong (table.lookup key.toList)

theorem isTellable_nil : IsTellable [] := fun _ _ => not_holdsLong_none

/-- What is wrong with the entries can be told if and only if all values
that settings are given can be shown. -/
theorem CheckedEntries.canBeTold_findings_iff (table : Toml.Table) :
    (∀ f ∈ (ofTable table).findings, f.problem.CanBeTold) ↔ IsTellable table := by
  have hkeys : IsTellable table
      ↔ ∀ key ∈ requirements.map Prod.fst, ¬ HoldsLong (table.lookup key.toList) :=
    forall_congr' fun key => imp_congr_left perm_requirements.mem_iff.symm
  rw [hkeys]
  simp only [findings, ofTable, List.forall_mem_append, ((reads_encoding _).findings_spec _).2,
    ((reads_delimiter _).findings_spec _).2, ((reads_text _ _).2 _).2,
    ((reads_boolean _ _).findings_spec _).2, ((reads_lineChoice _).findings_spec _).2,
    requirements, List.map_cons, List.map_nil, List.forall_mem_cons, and_assoc]
  simp

/-! ## The defaults -/

/-- The table of the defaults. -/
def defaultTable : Toml.Table :=
  [("encoding", .string "utf-8".toList), ("escape_unicode", .boolean false),
    ("list_delimiter", .string []), ("separator", .string []),
    ("force_single_line", .boolean false), ("line_separator", .string "auto".toList),
    ("keep_trailing_blank_lines", .boolean true), ("include_key", .string "include".toList),
    ("include_optional_key", .string "includeoptional".toList),
    ("includes_allowed", .boolean true)].map fun e => (e.1.toList, e.2)

/-- **Every default passes its own check**: read from a table, the
defaults are what they are without one. -/
theorem ofTable_defaultTable (place : Text) : ofTable defaultTable place none = pure {} := rfl

/-- The keys of the settings are those that have a default. -/
theorem keys_defaultTable : defaultTable.map Prod.fst = keys.map String.toList := rfl

/-! ## The store of some settings -/

/-- A store as the settings want it, its delimiter given by a text that is
checked once more. -/
def buildStore (s : Settings) (lookup : Option Lookup) : Except DelimiterFault Store :=
  match s.listDelimiter with
  | none => .ok (s.newStore lookup)
  | some d =>
    (ListDelimiter.ofText [d.char]).map fun d =>
      { s.newStore lookup with
        options := { (s.newStore lookup).options with delimiter := some d } }

/-- The delimiter of some settings passes every check. -/
theorem buildStore_eq (s : Settings) (lookup : Option Lookup) :
    s.buildStore lookup = .ok (s.newStore lookup) := by
  rw [buildStore]
  cases h : s.listDelimiter with
  | none => rfl
  | some d =>
    have hd : ListDelimiter.ofText [d.char] = .ok d := dif_neg d.ne_escape
    simp only [hd, Except.map, newStore, h]

/-- There are settings in a table if and only if all values that settings
are given can be shown. -/
theorem exists_ofTable_iff (table : Toml.Table) (place : Text) (configFile : Option Path) :
    (∃ s, (ofTable table place configFile).result = .ok s) ↔ IsTellable table := by
  rw [← CheckedEntries.canBeTold_findings_iff, ofTable]
  have hall : (∀ f ∈ unknownKeys table ++ (CheckedEntries.ofTable table).findings,
        f.problem.CanBeTold)
      ↔ ∀ f ∈ (CheckedEntries.ofTable table).findings, f.problem.CanBeTold := by
    rw [List.forall_mem_append]
    exact and_iff_right (unknownKeys_spec table).2
  rw [← hall, ← exists_rejectAll_iff]
  simp only [Reporting.result_bind_eq_ok_iff, Reporting.result_pure, Except.ok.injEq]
  constructor
  · rintro ⟨_, rs, hrs, rfl⟩
    exact ⟨rs, hrs⟩
  · rintro ⟨rs, hrs⟩
    exact ⟨_, rs, hrs, rfl⟩

/-- **Settings as a table gives them.** Each setting follows the rule by
its own entry; the warnings are one for each key that no setting has, in
the order of the table, then one for each key of a setting whose entry has
a value that is not admitted, and no others; each of them names the table
and the key, and is in the log; and the settings make a store. -/
structure IsGiven (s : Settings) (table : Toml.Table) (place : Text) (configFile : Option Path)
    (log : List Log.Record) : Prop where
  settings : s.IsReadFrom table
  configFile : s.configFile = configFile
  keys : s.rejections.map Rejection.key = unknown table ++ passedOver table
  messages : ∀ r ∈ s.rejections,
    ∃ said, r.message = said ++ " in " ++ Text.str place ++ "." ++ Text.str r.key
  diagnostics : s.diagnostics = s.rejections.map fun r => "warning: " ++ r.message
  log : log = s.rejections.map fun r => Log.warning r.message
  store : ∀ lookup, s.buildStore lookup = .ok (s.newStore lookup)

/-- What comes of a table is what it gives. -/
theorem isGiven_of_ofTable {table : Toml.Table} {place : Text} {configFile : Option Path}
    {s : Settings} (h : (ofTable table place configFile).result = .ok s) :
    s.IsGiven table place configFile (ofTable table place configFile).reports := by
  obtain ⟨rs, hrs, hs⟩ := Reporting.result_bind_eq_ok_iff.1 h
  obtain rfl : (CheckedEntries.ofTable table).settings configFile rs = s := Except.ok.inj hs
  obtain ⟨hkeys, hreports, hmessages⟩ := rejectAll_spec hrs
  refine ⟨CheckedEntries.isReadFrom_settings table configFile rs, rfl, ?_, hmessages, rfl, ?_,
    buildStore_eq _⟩
  · show rs.map Rejection.key = _
    rw [hkeys, List.map_append, (unknownKeys_spec table).1, CheckedEntries.keys_findings]
  · rw [ofTable, (Reporting.bind_of_ok hrs _).2, hreports]
    exact List.append_nil _

/-- **When there are settings in a table.** Whatever else the table holds,
its settings can be told, and are what it gives, if and only if no setting
is given a value with a whole number that has too many digits to be
shown. -/
theorem ofTable_isGiven_iff (table : Toml.Table) (place : Text) (configFile : Option Path) :
    (∃ s, (ofTable table place configFile).result = .ok s ∧
        s.IsGiven table place configFile (ofTable table place configFile).reports)
      ↔ IsTellable table := by
  rw [← exists_ofTable_iff table place configFile]
  exact ⟨fun ⟨s, hs, _⟩ => ⟨s, hs⟩, fun ⟨s, hs⟩ => ⟨s, hs, isGiven_of_ofTable hs⟩⟩

/-- The first number with too many digits. -/
def longNumber : Int := Nat.pow 10 Toml.mostDigits

/-- **A number can be too long for a warning.** In a table that gives it
for the encoding there are no settings, not even the defaults. -/
theorem not_ofTable_isGiven_longNumber :
    (ofTable [("encoding".toList, .integer longNumber)] tableName none).result = .error {} := by
  have hlong : Toml.isLong longNumber = true :=
    decide_eq_true (Nat.le_of_eq (Int.natAbs_natCast _).symm)
  have hnone : ¬ ∃ s, (ofTable [("encoding".toList, .integer longNumber)] tableName none).result
      = .ok s := by
    rw [exists_ofTable_iff]
    intro h
    exact h "encoding" (by decide) ⟨.integer longNumber, rfl, longNumber, List.mem_singleton_self _,
      hlong⟩
  cases h : (ofTable [("encoding".toList, .integer longNumber)] tableName none).result with
  | ok s => exact absurd ⟨s, h⟩ hnone
  | error e => rfl

end Settings

end PropertyFile
