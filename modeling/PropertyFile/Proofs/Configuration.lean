import PropertyFile.Proofs.Encoding
import PropertyFile.Proofs.Path
import PropertyFile.Proofs.SettingsTable
import PropertyFile.Settings.File
import PropertyFile.Toml.Parser

/-!
# Broken configuration files

A configuration file that cannot be opened, or that is no TOML document,
counts as empty, and the settings in an empty table are the defaults
(`ofTable_nil`). But a file may be worse than that: its bytes may be no
text at all, or the text may contradict itself. What bytes have to be to
count is `IsUsable`, and no more is asked of them: the table of a file
can be read exactly if they are usable. Its settings can be told exactly
if, moreover, no setting is given a value that cannot be shown; otherwise
the file is broken (`IsBroken`), and what files hold is in the way of the
settings for a path exactly if the search for them comes to a broken file
(`settings_degrade_iff`).

All of this holds for every reader of documents.
-/

namespace PropertyFile

/-- Whether a fault lies in what a configuration file holds. -/
def SettingsFault.IsContent : SettingsFault → Prop
  | .undecodable _ | .conflict _ | .number _ => True
  | .file _ | .path _ => False

namespace Settings

/-! ## The bytes of a configuration file -/

/-- Whether bytes count as a configuration file: they are a text, be it a
document or not, that does not contradict itself. -/
def IsUsable (parse : Toml.Reader) (bytes : List UInt8) : Prop :=
  ∃ t : Text, bytes = t.flatMap Encoding.utf8Bytes ∧
    ∀ c, parse (Text.unifyBreaks t) ≠ .error (.conflict c)

/-- Whether bytes are a document, and which table it comes to. -/
def IsDocument (parse : Toml.Reader) (bytes : List UInt8) (table : Toml.Table) : Prop :=
  ∃ t : Text, bytes = t.flatMap Encoding.utf8Bytes ∧ parse (Text.unifyBreaks t) = .ok table

/-- What the bytes of a configuration file come to. -/
def tableOfBytes (parse : Toml.Reader) (bytes : List UInt8) : Except SettingsFault Toml.Table :=
  match Encoding.utf8.decode bytes with
  | .error e => .error (.undecodable e)
  | .ok t =>
    match parse (Text.unifyBreaks t) with
    | .error .malformed => .ok []
    | .error (.conflict c) => .error (.conflict c)
    | .ok table => .ok table

section
variable {parse : Toml.Reader} {bytes : List UInt8} {table : Toml.Table}

theorem decode_eq_ok_iff {t : Text} :
    Encoding.utf8.decode bytes = .ok t ↔ bytes = t.flatMap Encoding.utf8Bytes :=
  Encoding.decodeUtf8_eq_ok_iff

theorem isUsable_iff_of_decode {t : Text} (h : Encoding.utf8.decode bytes = .ok t) :
    IsUsable parse bytes ↔ ∀ c, parse (Text.unifyBreaks t) ≠ .error (.conflict c) := by
  constructor
  · rintro ⟨t', hbytes, hparse⟩
    rwa [Except.ok.inj (h.symm.trans (decode_eq_ok_iff.2 hbytes))]
  · exact fun hparse => ⟨t, decode_eq_ok_iff.1 h, hparse⟩

theorem isDocument_iff_of_decode {t : Text} (h : Encoding.utf8.decode bytes = .ok t) :
    IsDocument parse bytes table ↔ parse (Text.unifyBreaks t) = .ok table := by
  constructor
  · rintro ⟨t', hbytes, hparse⟩
    rwa [Except.ok.inj (h.symm.trans (decode_eq_ok_iff.2 hbytes))]
  · exact fun hparse => ⟨t, decode_eq_ok_iff.1 h, hparse⟩

/-- Bytes are no more than one document. -/
theorem IsDocument.unique {table' : Toml.Table} (h : IsDocument parse bytes table)
    (h' : IsDocument parse bytes table') : table' = table := by
  obtain ⟨t, hbytes, hparse⟩ := h
  rw [isDocument_iff_of_decode (decode_eq_ok_iff.2 hbytes), hparse] at h'
  exact (Except.ok.inj h').symm

/-- **What bytes come to**: the table of a document, an empty one if they
are usable and no document, and else a fault. -/
theorem tableOfBytes_cases (parse : Toml.Reader) (bytes : List UInt8) :
    (IsUsable parse bytes ∧
        ∃ table, IsDocument parse bytes table ∧ tableOfBytes parse bytes = .ok table)
      ∨ (IsUsable parse bytes ∧ (∀ table, ¬ IsDocument parse bytes table) ∧
        tableOfBytes parse bytes = .ok [])
      ∨ (¬ IsUsable parse bytes ∧
        ∃ f : SettingsFault, f.IsContent ∧ tableOfBytes parse bytes = .error f) := by
  rw [tableOfBytes]
  cases hdecode : Encoding.utf8.decode bytes with
  | error e =>
    refine .inr (.inr ⟨?_, .undecodable e, trivial, rfl⟩)
    rintro ⟨t, hbytes, -⟩
    cases hdecode.symm.trans (decode_eq_ok_iff.2 hbytes)
  | ok t =>
    rw [isUsable_iff_of_decode hdecode]
    simp only [isDocument_iff_of_decode hdecode]
    cases parse (Text.unifyBreaks t) with
    | ok table => exact .inl ⟨nofun, table, rfl, rfl⟩
    | error f =>
      cases f with
      | malformed => exact .inr (.inl ⟨nofun, nofun, rfl⟩)
      | conflict c => exact .inr (.inr ⟨fun h => h c rfl, .conflict c, trivial, rfl⟩)

end

variable {parse : Toml.Reader} {tree : FileTree} {current : Location} {p : Path}

theorem result_readTable :
    (readTable parse tree current p).result
      = if p.toText.contains '\x00' then .error (.path .nullCharacter)
        else
          match tree.read current p with
          | .error _ => .ok []
          | .ok bytes => tableOfBytes parse bytes := by
  rw [readTable]
  cases p.toText.contains '\x00' with
  | true => rfl
  | false =>
    cases tree.read current p with
    | error e => rfl
    | ok bytes =>
      rw [if_neg Bool.false_ne_true, if_neg Bool.false_ne_true]
      simp only [tableOfBytes]
      cases Encoding.utf8.decode bytes with
      | error e => rfl
      | ok t =>
        simp only
        cases parse (Text.unifyBreaks t) with
        | ok table => rfl
        | error f => cases f <;> rfl

/-- Whether nothing is in the way of reading a configuration file: its
path is one, and if there is a file its bytes are usable. -/
def IsReadable (parse : Toml.Reader) (tree : FileTree) (current : Location) (p : Path) : Prop :=
  p.IsName ∧ ∀ bytes, tree.read current p = .ok bytes → IsUsable parse bytes

/-- Whether there is a file at a path whose bytes are not usable. -/
def IsUnusable (parse : Toml.Reader) (tree : FileTree) (current : Location) (p : Path) : Prop :=
  p.IsName ∧ ∃ bytes, tree.read current p = .ok bytes ∧ ¬ IsUsable parse bytes

theorem IsReadable.not_isUnusable (h : IsReadable parse tree current p) :
    ¬ IsUnusable parse tree current p :=
  fun ⟨_, bytes, hbytes, hnot⟩ => hnot (h.2 bytes hbytes)

/-- **What reading a configuration file comes to**: the table of the
document it holds; an empty one if it holds none, or there is no file;
and else a fault, for its path or for its bytes. -/
theorem readTable_cases (parse : Toml.Reader) (tree : FileTree) (current : Location) (p : Path) :
    (IsReadable parse tree current p ∧ ∃ bytes table, tree.read current p = .ok bytes ∧
        IsDocument parse bytes table ∧ (readTable parse tree current p).result = .ok table)
      ∨ (IsReadable parse tree current p ∧
        (∀ bytes table, tree.read current p = .ok bytes → ¬ IsDocument parse bytes table) ∧
        (readTable parse tree current p).result = .ok [])
      ∨ (IsUnusable parse tree current p ∧
        ∃ f : SettingsFault, f.IsContent ∧ (readTable parse tree current p).result = .error f)
      ∨ (¬ p.IsName ∧
        (readTable parse tree current p).result = .error (.path .nullCharacter)) := by
  rw [result_readTable, IsReadable, IsUnusable, Path.IsName]
  cases p.toText.contains '\x00' with
  | true => exact .inr (.inr (.inr ⟨by decide, rfl⟩))
  | false =>
    cases hread : tree.read current p with
    | error e =>
      have hnone : ∀ bytes, (Except.error e : Except FileError (List UInt8)) ≠ .ok bytes := by
        rintro _ ⟨⟩
      exact .inr (.inl ⟨⟨rfl, fun bytes h => absurd h (hnone bytes)⟩,
        fun bytes _ h => absurd h (hnone bytes), rfl⟩)
    | ok bytes =>
      simp only [Except.ok.injEq, forall_eq', true_and]
      obtain ⟨husable, table, hdocument, htable⟩ | ⟨husable, hnone, htable⟩ |
          ⟨hnot, f, hf, hfault⟩ :=
        tableOfBytes_cases parse bytes
      · exact .inl ⟨husable, bytes, table, rfl, hdocument, htable⟩
      · exact .inr (.inl ⟨husable, fun _ table h => h ▸ hnone table, htable⟩)
      · exact .inr (.inr (.inl ⟨⟨bytes, rfl, hnot⟩, f, hf, hfault⟩))

theorem exists_readTable_iff :
    (∃ table, (readTable parse tree current p).result = .ok table)
      ↔ IsReadable parse tree current p := by
  obtain ⟨h, _, table, -, -, hread⟩ | ⟨h, -, hread⟩ | ⟨hnot, f, -, hread⟩ | ⟨hnull, hread⟩ :=
    readTable_cases parse tree current p
  · exact iff_of_true ⟨table, hread⟩ h
  · exact iff_of_true ⟨[], hread⟩ h
  · refine iff_of_false ?_ fun h => h.not_isUnusable hnot
    rintro ⟨table, htable⟩
    cases hread.symm.trans htable
  · refine iff_of_false ?_ fun h => hnull h.1
    rintro ⟨table, htable⟩
    cases hread.symm.trans htable

theorem result_readTable_of_no_document (hread : IsReadable parse tree current p)
    (hnone : ∀ bytes table, tree.read current p = .ok bytes → ¬ IsDocument parse bytes table) :
    (readTable parse tree current p).result = .ok [] := by
  obtain ⟨-, bytes, table, hbytes, hdocument, -⟩ | ⟨-, -, htable⟩ | ⟨hnot, -⟩ | ⟨hnull, -⟩ :=
    readTable_cases parse tree current p
  · exact absurd hdocument (hnone bytes table hbytes)
  · exact htable
  · exact absurd hnot hread.not_isUnusable
  · exact absurd hread.1 hnull

/-! ## What is in the way -/

/-- Whether a computation fails for what a configuration file holds. -/
def IsBlocked {α : Type} (x : Logged α) : Prop := ∃ f, x.result = .error f ∧ f.IsContent

section
variable {α β : Type} {x : Logged α} {f : SettingsFault}

theorem isBlocked_of_error (h : x.result = .error f) : IsBlocked x ↔ f.IsContent := by
  constructor
  · rintro ⟨f', hf', hcontent⟩
    rwa [Except.error.inj (h.symm.trans hf')]
  · exact fun hcontent => ⟨f, h, hcontent⟩

theorem not_isBlocked_of_ok {a : α} (h : x.result = .ok a) : ¬ IsBlocked x := by
  rintro ⟨f, hf, -⟩
  cases h.symm.trans hf

theorem isBlocked_bind_of_error (h : x.result = .error f) (g : α → Logged β) :
    IsBlocked (x >>= g) ↔ f.IsContent :=
  isBlocked_of_error (Reporting.bind_of_error h g).1

theorem isBlocked_bind_of_ok {a : α} (h : x.result = .ok a) (g : α → Logged β) :
    IsBlocked (x >>= g) ↔ IsBlocked (g a) := by
  rw [IsBlocked, IsBlocked, (Reporting.bind_of_ok h g).1]

end

theorem isBlocked_bind_congr {α β : Type} {x y : Logged α} (h : x.result = y.result)
    (g : α → Logged β) : IsBlocked (x >>= g) ↔ IsBlocked (y >>= g) := by
  cases hy : y.result with
  | error f => rw [isBlocked_bind_of_error (h.trans hy), isBlocked_bind_of_error hy]
  | ok a => rw [isBlocked_bind_of_ok (h.trans hy), isBlocked_bind_of_ok hy]

/-- What never fails is not in the way. -/
theorem isBlocked_bind_iff_of_total {α β : Type} {x : Logged α} {g : α → Logged β}
    (hg : ∀ a, ∃ b, (g a).result = .ok b) : IsBlocked (x >>= g) ↔ IsBlocked x := by
  cases hx : x.result with
  | error f => rw [isBlocked_bind_of_error hx, isBlocked_of_error hx]
  | ok a =>
    obtain ⟨b, hb⟩ := hg a
    rw [isBlocked_bind_of_ok hx]
    exact iff_of_false (not_isBlocked_of_ok hb) (not_isBlocked_of_ok hx)

/-! ## The settings in a file -/

/-- The settings in an empty table are the defaults. -/
theorem ofTable_nil (place : Text) (configFile : Option Path) :
    ofTable [] place configFile = pure { configFile } := rfl

/-- The table that the settings in a file are read from. -/
def settingsTable? (p : Path) (table : Toml.Table) : Option Toml.Table :=
  if p.name = projectFileName then table.dotted? projectTable else some table

/-- The name that this table goes by. -/
def settingsPlace (p : Path) : Text :=
  if p.name = projectFileName then p.toText ++ ":[".toList ++ projectTable ++ [']'] else p.toText

/-- **Whether what the file at a path holds is in the way of its
settings**: its bytes are not usable, or a setting is given a value that
cannot be shown. -/
def IsBroken (parse : Toml.Reader) (tree : FileTree) (current : Location) (p : Path) : Prop :=
  p.IsName ∧ ∃ bytes, tree.read current p = .ok bytes ∧
    (¬ IsUsable parse bytes ∨
      ∃ table inner, IsDocument parse bytes table ∧ settingsTable? p table = some inner ∧
        ¬ IsTellable inner)

/-- What is read from the table of a file. -/
theorem result_ofFile_of_table {table : Toml.Table}
    (h : (readTable parse tree current p).result = .ok table) :
    (ofFile parse tree current p).result
      = match settingsTable? p table with
        | none => .ok none
        | some inner =>
          ((ofTable inner (settingsPlace p) (some p)).result.map some).mapError .number := by
  have hinner : ∀ (inner : Toml.Table) (place : Text),
      (Reporting.convert id SettingsFault.number
          (do return some (← ofTable inner place (some p)))).result
        = ((ofTable inner place (some p)).result.map some).mapError .number := by
    intro inner place
    cases hresult : (ofTable inner place (some p)).result with
    | error e => rw [Reporting.convert, (Reporting.bind_of_error hresult _).1]; rfl
    | ok s => rw [Reporting.convert, (Reporting.bind_of_ok hresult _).1]; rfl
  rw [ofFile, (Reporting.bind_of_ok h _).1, settingsTable?, settingsPlace]
  by_cases hname : p.name = projectFileName
  · simp only [if_pos hname]
    cases table.dotted? projectTable with
    | none => rfl
    | some inner => exact hinner inner _
  · simp only [if_neg hname]
    exact hinner table _

/-- Where the table of a file can be read, its settings can be told, or
else what it holds is in the way. -/
theorem ofFile_cases_of_table {table : Toml.Table}
    (h : (readTable parse tree current p).result = .ok table) :
    ((∀ inner, settingsTable? p table = some inner → IsTellable inner) ∧
        ∃ found, (ofFile parse tree current p).result = .ok found)
      ∨ (∃ inner, settingsTable? p table = some inner ∧ ¬ IsTellable inner) ∧
        ∃ f : SettingsFault, f.IsContent ∧ (ofFile parse tree current p).result = .error f := by
  rw [result_ofFile_of_table h]
  cases hinner : settingsTable? p table with
  | none => exact .inl ⟨nofun, none, rfl⟩
  | some inner =>
    simp only [Option.some.injEq, forall_eq', exists_eq_left']
    rw [← exists_ofTable_iff inner (settingsPlace p) (some p)]
    cases (ofTable inner (settingsPlace p) (some p)).result with
    | ok s => exact .inl ⟨⟨s, rfl⟩, some s, rfl⟩
    | error e => exact .inr ⟨nofun, .number e, trivial, rfl⟩

/-- **What the settings in a file come to**: something, if its path is one
and it is not broken; a fault for what it holds, if it is broken; and
otherwise a fault for its path. -/
theorem ofFile_cases (parse : Toml.Reader) (tree : FileTree) (current : Location) (p : Path) :
    (p.IsName ∧ ¬ IsBroken parse tree current p ∧
        ∃ found, (ofFile parse tree current p).result = .ok found)
      ∨ (IsBroken parse tree current p ∧
        ∃ f : SettingsFault, f.IsContent ∧ (ofFile parse tree current p).result = .error f)
      ∨ (¬ p.IsName ∧ (ofFile parse tree current p).result = .error (.path .nullCharacter)) := by
  obtain ⟨⟨hname, husable⟩, bytes, table, hbytes, hdocument, htable⟩ |
      ⟨⟨hname, husable⟩, hnone, htable⟩ |
      ⟨⟨hname, bytes, hbytes, hnot⟩, f, hf, hfault⟩ | ⟨hnull, hfault⟩ :=
    readTable_cases parse tree current p
  · -- the document says which table the settings are in
    have hbroken : IsBroken parse tree current p
        ↔ ∃ inner, settingsTable? p table = some inner ∧ ¬ IsTellable inner := by
      constructor
      · rintro ⟨-, bytes', hbytes', hnot | ⟨table', inner, hdocument', hinner, hnot⟩⟩
        · exact absurd (husable bytes' hbytes') hnot
        · cases hbytes.symm.trans hbytes'
          exact ⟨inner, hdocument.unique hdocument' ▸ hinner, hnot⟩
      · rintro ⟨inner, hinner, hnot⟩
        exact ⟨hname, bytes, hbytes, .inr ⟨table, inner, hdocument, hinner, hnot⟩⟩
    obtain ⟨hall, hfound⟩ | ⟨hlong, hfault⟩ := ofFile_cases_of_table htable
    · exact .inl ⟨hname, fun h => (hbroken.1 h).elim fun inner h => h.2 (hall inner h.1), hfound⟩
    · exact .inr (.inl ⟨hbroken.2 hlong, hfault⟩)
  · refine .inl ⟨hname, ?_, ?_⟩
    · rintro ⟨-, bytes, hbytes, hnot | ⟨table, -, hdocument, -⟩⟩
      · exact hnot (husable bytes hbytes)
      · exact hnone bytes table hbytes hdocument
    · obtain ⟨-, hfound⟩ | ⟨⟨inner, hinner, hnot⟩, -⟩ := ofFile_cases_of_table htable
      · exact hfound
      · refine absurd ?_ hnot
        rw [settingsTable?] at hinner
        split at hinner <;> cases hinner
        exact isTellable_nil
  · exact .inr (.inl ⟨⟨hname, bytes, hbytes, .inl hnot⟩, f, hf,
      (Reporting.bind_of_error hfault _).1⟩)
  · exact .inr (.inr ⟨hnull, (Reporting.bind_of_error hfault _).1⟩)

theorem exists_ofFile_iff :
    (∃ found, (ofFile parse tree current p).result = .ok found)
      ↔ p.IsName ∧ ¬ IsBroken parse tree current p := by
  obtain ⟨hname, hnot, hfound⟩ | ⟨hbroken, f, -, hfault⟩ | ⟨hnull, hfault⟩ :=
    ofFile_cases parse tree current p
  · exact iff_of_true hfound ⟨hname, hnot⟩
  · exact iff_of_false (by simp [hfault]) fun h => h.2 hbroken
  · exact iff_of_false (by simp [hfault]) fun h => hnull h.1

theorem isBlocked_ofFile_iff :
    IsBlocked (ofFile parse tree current p) ↔ IsBroken parse tree current p := by
  obtain ⟨-, hnot, found, hfound⟩ | ⟨hbroken, f, hf, hfault⟩ | ⟨hnull, hfault⟩ :=
    ofFile_cases parse tree current p
  · exact iff_of_false (not_isBlocked_of_ok hfound) hnot
  · exact iff_of_true ((isBlocked_of_error hfault).2 hf) hbroken
  · exact iff_of_false (isBlocked_of_error hfault).1 fun h => hnull h.1

/-- **A file that holds no document** has the default settings. -/
theorem result_ofFile_of_no_document (hread : IsReadable parse tree current p)
    (hnone : ∀ bytes table, tree.read current p = .ok bytes → ¬ IsDocument parse bytes table)
    (hname : p.name ≠ projectFileName) :
    (ofFile parse tree current p).result = .ok (some { configFile := some p }) := by
  rw [result_ofFile_of_table (result_readTable_of_no_document hread hnone), settingsTable?,
    if_neg hname]
  simp only [ofTable_nil]
  rfl

/-! ## The settings for a path -/

/-- The configuration file that a directory may have for itself. -/
def ownFile (directory : Location) : Path := Path.ofLocation (directory ++ [fileName])

/-- The file of a project that a directory may have. -/
def projectFile (directory : Location) : Path := Path.ofLocation (directory ++ [projectFileName])

theorem name_projectFile (d : Location) : (projectFile d).name = projectFileName := by
  simp [projectFile, Path.name, Path.ofLocation]

/-- **The files that the search through directories comes to**, and
reads: those of the first directory, and further ones if that has no
settings. -/
inductive Reaches (parse : Toml.Reader) (tree : FileTree) (current : Location) :
    List Location → Path → Prop
  /-- The file that a directory has for itself ends the search. -/
  | own {directory : Location} {rest : List Location} :
      isFile tree current (ownFile directory) = .ok true →
      Reaches parse tree current (directory :: rest) (ownFile directory)
  /-- The file of a project is looked into if there is no other one. -/
  | project {directory : Location} {rest : List Location} :
      isFile tree current (ownFile directory) = .ok false →
      isFile tree current (projectFile directory) = .ok true →
      Reaches parse tree current (directory :: rest) (projectFile directory)
  /-- A directory without settings is passed. -/
  | above {directory : Location} {rest : List Location} {p : Path} :
      (fileIn parse tree current directory).result = .ok none → Reaches parse tree current rest p →
      Reaches parse tree current (directory :: rest) p

variable {directory : Location} {rest : List Location}

theorem reaches_cons_iff :
    Reaches parse tree current (directory :: rest) p
      ↔ (isFile tree current (ownFile directory) = .ok true ∧ p = ownFile directory)
        ∨ (isFile tree current (ownFile directory) = .ok false ∧
          isFile tree current (projectFile directory) = .ok true ∧ p = projectFile directory)
        ∨ ((fileIn parse tree current directory).result = .ok none ∧
          Reaches parse tree current rest p) := by
  constructor
  · intro h
    cases h with
    | own h => exact .inl ⟨h, rfl⟩
    | project hown h => exact .inr (.inl ⟨hown, h, rfl⟩)
    | above hnone h => exact .inr (.inr ⟨hnone, h⟩)
  · rintro (⟨h, rfl⟩ | ⟨hown, h, rfl⟩ | ⟨hnone, h⟩)
    · exact .own h
    · exact .project hown h
    · exact .above hnone h

/-- Looking for a file never fails for what a file holds. -/
theorem not_isContent_of_isFile {f : SettingsFault} (h : isFile tree current p = .error f) :
    ¬ f.IsContent := by
  rw [isFile] at h
  split at h <;> cases h <;> exact id

/-- What a file of a project comes to in the search. -/
def chosen? (p : Path) (table : Toml.Table) : Option Path :=
  match table.dotted? projectTable with
  | none | some [] => none
  | some _ => some p

theorem chosen?_eq (p : Path) (table : Toml.Table) :
    chosen? p table = none ∨ chosen? p table = some p := by
  rw [chosen?]
  split
  · exact .inl rfl
  · exact .inl rfl
  · exact .inr rfl

/-- **What a directory comes to** in the search. -/
theorem result_fileIn (parse : Toml.Reader) (tree : FileTree) (current directory : Location) :
    (fileIn parse tree current directory).result
      = match isFile tree current (ownFile directory) with
        | .error f => .error f
        | .ok true => .ok (some (ownFile directory))
        | .ok false =>
          match isFile tree current (projectFile directory) with
          | .error f => .error f
          | .ok true =>
            (readTable parse tree current (projectFile directory)).result.map
              (chosen? (projectFile directory))
          | .ok false => .ok none := by
  rw [fileIn]
  cases hown : isFile tree current (ownFile directory) with
  | error f => exact (Reporting.bind_of_error hown _).1
  | ok there =>
    refine (Reporting.bind_of_ok hown _).1.trans ?_
    cases there with
    | true => rfl
    | false =>
      cases hproject : isFile tree current (projectFile directory) with
      | error f => exact (Reporting.bind_of_error hproject _).1
      | ok there =>
        refine (Reporting.bind_of_ok hproject _).1.trans ?_
        cases there with
        | false => rfl
        | true =>
          cases htable : (readTable parse tree current (projectFile directory)).result with
          | error f => exact (Reporting.bind_of_error htable _).1
          | ok table =>
            refine (Reporting.bind_of_ok htable _).1.trans ?_
            show _ = Except.ok (chosen? (projectFile directory) table)
            rw [chosen?]
            cases table.dotted? projectTable with
            | none => rfl
            | some inner => cases inner <;> rfl

/-- A file of a project that is passed over is not broken: it has no
settings, or none of them is given a value. -/
theorem not_isBroken_of_chosen?_eq_none {table : Toml.Table}
    (htable : (readTable parse tree current (projectFile directory)).result = .ok table)
    (hchosen : chosen? (projectFile directory) table = none) :
    ¬ IsBroken parse tree current (projectFile directory) := by
  rw [← isBlocked_ofFile_iff]
  obtain ⟨-, found, hfound⟩ | ⟨⟨inner, hinner, hnot⟩, -⟩ := ofFile_cases_of_table htable
  · exact not_isBlocked_of_ok hfound
  · rw [settingsTable?, if_pos (name_projectFile directory)] at hinner
    rw [chosen?, hinner] at hchosen
    cases inner with
    | nil => exact absurd isTellable_nil hnot
    | cons e rest => cases hchosen

/-- **The search is in the way of nothing but what it comes to.** Whatever
is done with the file that is found, if that fails for what the file
holds only, the search and it fail for what a file holds if and only if
the search comes to a broken file. -/
theorem isBlocked_firstFile_bind_iff {α : Type} {g : Option Path → Logged α}
    (hnone : ¬ IsBlocked (g none))
    (hsome : ∀ p, IsBlocked (g (some p)) ↔ IsBroken parse tree current p)
    (directories : List Location) :
    IsBlocked (firstFile parse tree current directories >>= g)
      ↔ ∃ p, Reaches parse tree current directories p ∧ IsBroken parse tree current p := by
  induction directories with
  | nil =>
    refine iff_of_false hnone ?_
    rintro ⟨p, hreaches, -⟩
    cases hreaches
  | cons directory rest ih =>
    -- what the first directory comes to is passed on, or the search goes on behind it
    have herror : ∀ {f}, (fileIn parse tree current directory).result = .error f →
        (IsBlocked (firstFile parse tree current (directory :: rest) >>= g)
          ↔ f.IsContent) := fun h =>
      isBlocked_bind_of_error (Reporting.bind_of_error h _).1 g
    have hfound : ∀ {p}, (fileIn parse tree current directory).result = .ok (some p) →
        (IsBlocked (firstFile parse tree current (directory :: rest) >>= g)
          ↔ IsBroken parse tree current p) := fun h =>
      (isBlocked_bind_of_ok (Reporting.bind_of_ok h _).1 g).trans (hsome _)
    have habove : (fileIn parse tree current directory).result = .ok none →
        (IsBlocked (firstFile parse tree current (directory :: rest) >>= g)
          ↔ ∃ p, Reaches parse tree current rest p ∧ IsBroken parse tree current p) := fun h =>
      (isBlocked_bind_congr (Reporting.bind_of_ok h _).1 g).trans ih
    have hfile := result_fileIn parse tree current directory
    cases hown : isFile tree current (ownFile directory) with
    | error f =>
      simp only [hown] at hfile
      simp [herror hfile, reaches_cons_iff, hown, hfile, not_isContent_of_isFile hown]
    | ok there =>
      cases there with
      | true =>
        simp only [hown] at hfile
        simp [hfound hfile, reaches_cons_iff, hown, hfile]
      | false =>
        cases hproject : isFile tree current (projectFile directory) with
        | error f =>
          simp only [hown, hproject] at hfile
          simp [herror hfile, reaches_cons_iff, hown, hproject, hfile,
            not_isContent_of_isFile hproject]
        | ok there =>
          cases there with
          | false =>
            simp only [hown, hproject] at hfile
            simp [habove hfile, reaches_cons_iff, hown, hproject, hfile]
          | true =>
            simp only [hown, hproject] at hfile
            cases htable : (readTable parse tree current (projectFile directory)).result with
            | error f =>
              rw [htable, Except.map] at hfile
              have hblocked : IsBlocked (ofFile parse tree current (projectFile directory))
                  ↔ f.IsContent := isBlocked_bind_of_error htable _
              rw [herror hfile, ← hblocked, isBlocked_ofFile_iff]
              simp [reaches_cons_iff, hown, hproject, hfile]
            | ok table =>
              rw [htable] at hfile
              obtain hchosen | hchosen := chosen?_eq (projectFile directory) table
              · have hnot := not_isBroken_of_chosen?_eq_none htable hchosen
                rw [Except.map, hchosen] at hfile
                simp [habove hfile, reaches_cons_iff, hown, hproject, hfile, hnot]
              · rw [Except.map, hchosen] at hfile
                simp [hfound hfile, reaches_cons_iff, hown, hproject, hfile]

/-- **The directories that are searched** for the settings that count for
a path. -/
def searched (tree : FileTree) (current : Location) (start : Path) :
    Except SettingsFault (List Location) :=
  match start.resolve current with
  | .error f => .error (.path f)
  | .ok l =>
    (isFile tree current (Path.ofLocation l)).map fun there =>
      upwards (if there then l.dropLast else l)

theorem not_isContent_of_searched {start : Path} {f : SettingsFault}
    (h : searched tree current start = .error f) : ¬ f.IsContent := by
  rw [searched] at h
  cases hresolve : start.resolve current with
  | error fault =>
    rw [hresolve] at h
    cases h
    exact id
  | ok l =>
    rw [hresolve] at h
    cases hthere : isFile tree current (Path.ofLocation l) with
    | error fault =>
      simp only [hthere, Except.map, Except.error.injEq] at h
      exact h ▸ not_isContent_of_isFile hthere
    | ok there =>
      simp only [hthere, Except.map, reduceCtorEq] at h

theorem result_findFile (parse : Toml.Reader) (tree : FileTree) (current : Location)
    (start : Path) :
    (findFile parse tree current start).result
      = match searched tree current start with
        | .error f => .error f
        | .ok directories => (firstFile parse tree current directories).result := by
  rw [findFile, searched]
  cases start.resolve current with
  | error f => rfl
  | ok l =>
    show (Reporting.ofExcept (isFile tree current (Path.ofLocation l)) >>= fun there =>
      firstFile parse tree current (upwards (if there then l.dropLast else l))).result = _
    simp only
    cases isFile tree current (Path.ofLocation l) with
    | error f => rfl
    | ok there => exact (Reporting.bind_of_ok rfl _).1

/-- Whether the search for the settings that count for a path comes to a
file. -/
def IsReached (parse : Toml.Reader) (tree : FileTree) (current : Location) (start p : Path) :
    Prop :=
  ∃ directories, searched tree current start = .ok directories ∧
    Reaches parse tree current directories p

/-- **What files hold is in the way of the settings for a path** if and
only if the search for them comes to a broken file. -/
theorem isBlocked_forPath_iff {start : Path} :
    IsBlocked (forPath parse tree current start)
      ↔ ∃ p, IsReached parse tree current start p ∧ IsBroken parse tree current p := by
  rw [forPath]
  have hfind := result_findFile parse tree current start
  cases hsearched : searched tree current start with
  | error f =>
    rw [hsearched] at hfind
    rw [isBlocked_bind_of_error hfind]
    refine iff_of_false (not_isContent_of_searched hsearched) ?_
    rintro ⟨p, ⟨directories, h, -⟩, -⟩
    cases hsearched.symm.trans h
  | ok directories =>
    rw [hsearched] at hfind
    simp only [IsReached, hsearched, Except.ok.injEq, exists_eq_left']
    rw [isBlocked_bind_congr hfind]
    exact isBlocked_firstFile_bind_iff (not_isBlocked_of_ok rfl)
      (fun p => (isBlocked_bind_iff_of_total fun _ => ⟨_, rfl⟩).trans isBlocked_ofFile_iff)
      directories

/-- A configuration file that is found counts, also if it holds no
document. -/
theorem result_forPath_of_no_document {start : Path}
    (hfind : (findFile parse tree current start).result = .ok (some p))
    (hread : IsReadable parse tree current p)
    (hnone : ∀ bytes table, tree.read current p = .ok bytes → ¬ IsDocument parse bytes table)
    (hname : p.name ≠ projectFileName) :
    (forPath parse tree current start).result = .ok { configFile := some p } := by
  rw [forPath, (Reporting.bind_of_ok hfind _).1]
  exact (Reporting.bind_of_ok (result_ofFile_of_no_document hread hnone hname) _).1

/-- **When a broken configuration degrades.** The table of a file can be
told if and only if its path is one and the bytes that lie there are
usable: if they are no document, the table is empty, and in a file of its
own the settings are the defaults. The settings in a file can be told if
and only if its path is one and the file is not broken, and what files
hold is in the way of the settings for a path if and only if the search
for them comes to a broken file. -/
theorem settings_degrade_iff (parse : Toml.Reader) (tree : FileTree) (current : Location) :
    (∀ p, ((∃ table, (readTable parse tree current p).result = .ok table)
          ↔ IsReadable parse tree current p) ∧
        ((∃ found, (ofFile parse tree current p).result = .ok found)
          ↔ p.IsName ∧ ¬ IsBroken parse tree current p)) ∧
      (∀ p, IsReadable parse tree current p →
        (∀ bytes table, tree.read current p = .ok bytes → ¬ IsDocument parse bytes table) →
        (readTable parse tree current p).result = .ok [] ∧
          (p.name ≠ projectFileName →
            (ofFile parse tree current p).result = .ok (some { configFile := some p }) ∧
            ∀ start, (findFile parse tree current start).result = .ok (some p) →
              (forPath parse tree current start).result = .ok { configFile := some p })) ∧
      ∀ start, IsBlocked (forPath parse tree current start)
        ↔ ∃ p, IsReached parse tree current start p ∧ IsBroken parse tree current p :=
  ⟨fun _ => ⟨exists_readTable_iff, exists_ofFile_iff⟩,
    fun _ hread hnone => ⟨result_readTable_of_no_document hread hnone,
      fun hname => ⟨result_ofFile_of_no_document hread hnone hname,
        fun _ hfind => result_forPath_of_no_document hfind hread hnone hname⟩⟩,
    fun _ => isBlocked_forPath_iff⟩

/-- The files of a directory with one configuration file. -/
def configured (bytes : List UInt8) : FileTree where
  files := [([fileName], bytes)]
  directories := []

/-- The path of that file. -/
def configuredPath : Path := ownFile []

/-- A text that is no document. -/
def brokenText : Text := "separator = \n".toList

/-- Whether a text is no document, by what parsing it comes to. -/
def isMalformed : Except Toml.Fault Toml.Table → Bool
  | .error .malformed => true
  | _ => false

theorem eq_malformed_of_isMalformed {parsed : Except Toml.Fault Toml.Table}
    (h : isMalformed parsed = true) : parsed = .error .malformed := by
  cases parsed with
  | ok table => cases h
  | error f =>
    cases f with
    | malformed => rfl
    | conflict c => cases h

/-- The settings for a path next to a configuration file that is no
document. -/
theorem settings_degrade_iff_malformed :
    let tree := configured (brokenText.flatMap Encoding.utf8Bytes)
    (readTable Toml.parse tree [] configuredPath).result = .ok [] ∧
      (forPath Toml.parse tree [] configuredPath).result
        = .ok { configFile := some configuredPath } := by
  intro tree
  have hparse : Toml.parse (Text.unifyBreaks brokenText) = .error .malformed :=
    eq_malformed_of_isMalformed (by decide +kernel)
  have hbytes : ∀ bytes, tree.read [] configuredPath = .ok bytes →
      Encoding.utf8.decode bytes = .ok brokenText := by
    intro bytes h
    have hread : tree.read [] configuredPath = .ok (brokenText.flatMap Encoding.utf8Bytes) := by rfl
    rw [← Except.ok.inj (hread.symm.trans h)]
    exact decode_eq_ok_iff.2 rfl
  have hreadable : IsReadable Toml.parse tree [] configuredPath := by
    refine ⟨by decide, fun bytes h => (isUsable_iff_of_decode (hbytes bytes h)).2 ?_⟩
    rw [hparse]
    exact nofun
  have hnone : ∀ bytes table, tree.read [] configuredPath = .ok bytes →
      ¬ IsDocument Toml.parse bytes table := by
    intro bytes table h
    rw [isDocument_iff_of_decode (hbytes bytes h), hparse]
    exact nofun
  obtain ⟨htable, hsettings⟩ :=
    (settings_degrade_iff Toml.parse tree []).2.1 configuredPath hreadable hnone
  exact ⟨htable, (hsettings (by decide)).2 configuredPath (by rfl)⟩

/-- **Bytes that are no text do not degrade.** With such a file neither
its table nor the settings can be told. -/
theorem not_settings_degrade_undecodable :
    let tree := configured [0xff]
    let fault : SettingsFault := .undecodable (Encoding.utf8Fault 0xff 0 1 Encoding.invalidStart)
    (readTable Toml.parse tree [] configuredPath).result = .error fault ∧
      (ofFile Toml.parse tree [] configuredPath).result = .error fault ∧
      (forPath Toml.parse tree [] (Path.ofText ['.'])).result = .error fault := by
  refine ⟨by rfl, by rfl, by rfl⟩

end Settings

end PropertyFile
