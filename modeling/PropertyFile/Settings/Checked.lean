import PropertyFile.Log
import PropertyFile.Reporting
import PropertyFile.Toml.Value

/-!
# Checked entries of a table

A value of a configuration that has the wrong type, or that is not
allowed, is passed over, and the default stands in. A missing entry is no
mistake. So a checked entry has a value in any case (`Checked`), and what
is wrong with it is a **finding**.

A finding is told with a warning and noted as a **rejection**
(`reject`). That can fail: the warning shows the value that it is about,
which not every value can be.
-/

namespace PropertyFile

/-- What is wrong with an entry. -/
inductive Problem where
  /-- No setting has this key. -/
  | unknownKey
  /-- The value has another type than the expected one. -/
  | mismatch (expected : String) (v : Toml.Value)
  /-- The encoding has no name. -/
  | emptyEncoding (default : Text)
  /-- The text is no list delimiter. -/
  | badDelimiter (given : Text)
  /-- The text is none of the allowed ones. -/
  | badChoice (given : Text) (allowed : List String)
deriving Repr

/-- What is said of a problem, if the value it is about can be shown. -/
def Problem.message : Problem → Except Toml.LongNumber String
  | .unknownKey => .ok "Unknown key"
  | .mismatch expected v =>
    v.shown.map fun shown =>
      "Expected " ++ expected ++ ", got " ++ v.typeName ++ " " ++ Text.str shown ++ ","
  | .emptyEncoding default => .ok ("Empty encoding, using " ++ Text.str default ++ ",")
  | .badDelimiter given =>
    .ok ("Expected one character other than a backslash, got " ++ Text.quoted given ++ ",")
  | .badChoice given allowed =>
    .ok ("Invalid value " ++ Text.quoted given ++ " (allowed: " ++
      String.intercalate ", " allowed ++ ")")

/-- An entry with what is wrong with it. -/
structure Finding where
  /-- The key of the entry. -/
  key : Text
  /-- What is wrong with it. -/
  problem : Problem
deriving Repr

/-- What is said of a finding in a table that goes by the given name. -/
def Finding.message (place : Text) (f : Finding) : Except Toml.LongNumber String :=
  f.problem.message.map fun said => said ++ " in " ++ Text.str place ++ "." ++ Text.str f.key

/-- An entry that was passed over. -/
structure Rejection where
  /-- The key of the entry. -/
  key : Text
  /-- What was said of it. -/
  message : String
deriving DecidableEq, Repr

/-- Checking entries, with what the log says of it. -/
abbrev Checking (α : Type) := Reporting Log.Record Toml.LongNumber α

/-- **Tells a finding.** -/
def reject (place : Text) (f : Finding) : Checking Rejection :=
  match f.message place with
  | .error e => .fail e
  | .ok message => do
    .report (Log.warning message)
    return ⟨f.key, message⟩

/-- Tells findings, up to the first one that cannot be told. -/
def rejectAll (place : Text) : List Finding → Checking (List Rejection)
  | [] => return []
  | f :: rest => do
    let r ← reject place f
    return r :: (← rejectAll place rest)

/-- What is read from an entry: the value that counts, and what is wrong
with the one that was found. -/
structure Checked (α : Type) where
  /-- The value that counts. -/
  value : α
  /-- Why it is not the value that was found. -/
  problem : Option Problem := none

namespace Checked

variable {α β : Type}

/-- The finding that belongs to a checked entry. -/
def findings (c : Checked α) (key : Text) : List Finding :=
  c.problem.toList.map fun problem => ⟨key, problem⟩

/-- A checked entry with its value refined further: a value that `f`
refuses is replaced by the default. -/
def refine (c : Checked α) (default : β) (f : α → Except Problem β) : Checked β :=
  match f c.value with
  | .ok b => ⟨b, c.problem⟩
  | .error problem => ⟨default, c.problem <|> some problem⟩

/-- The text of an entry. Other types are not taken for texts. -/
def string (default : Text) : Option Toml.Value → Checked Text
  | none | some .null => ⟨default, none⟩
  | some (.string t) => ⟨t, none⟩
  | some v => ⟨default, some (.mismatch "string" v)⟩

/-- The truth value of an entry. Numbers are not taken for truth values. -/
def boolean (default : Bool) : Option Toml.Value → Checked Bool
  | none | some .null => ⟨default, none⟩
  | some (.boolean b) => ⟨b, none⟩
  | some v => ⟨default, some (.mismatch "bool" v)⟩

/-- One of several choices, named by the text of an entry. -/
def choice (choices : List (String × α)) (default : α) : Option Toml.Value → Checked α
  | none | some .null => ⟨default, none⟩
  | some (.string t) =>
    match choices.find? fun c => c.1.toList = t with
    | some c => ⟨c.2, none⟩
    | none => ⟨default, some (.badChoice t (choices.map Prod.fst))⟩
  | some v => ⟨default, some (.mismatch "string" v)⟩

end Checked

end PropertyFile
