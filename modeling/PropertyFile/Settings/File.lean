import PropertyFile.Encoding
import PropertyFile.FileTree
import PropertyFile.Reporting
import PropertyFile.Settings.Basic
import PropertyFile.Toml.Fault

/-!
# Configuration files

Settings are kept in a file of their own, or in a table of the file that
a project keeps for all its tools. The file that counts for a path is
the nearest one on the way from there up to the root of all files
(`Settings.findFile`); where there is none, the defaults count.

A file that cannot be opened, or that is no TOML document, is reported
to the log and counts as empty. One that contradicts itself is a fault
(`SettingsFault.conflict`). What a document says is told by a reader of
documents that is given.

Looking for a file, one that may not be read is found like any other; but
where a directory may not be searched, it cannot be told what lies in it
(`Settings.isFile`).
-/

namespace PropertyFile

/-- Why the settings for a path cannot be told. -/
inductive SettingsFault where
  /-- The bytes of a configuration file are no text. -/
  | undecodable (e : DecodeError)
  /-- A configuration file contradicts itself. -/
  | conflict (c : Toml.Conflict)
  /-- A warning about an entry cannot be put into words. -/
  | number (e : Toml.LongNumber)
  /-- A file on the way cannot be looked at. -/
  | file (e : FileError)
  /-- The path is none. -/
  | path (f : PathFault)
deriving DecidableEq, Repr

/-- What is said of a fault. -/
def SettingsFault.message : SettingsFault → String
  | .undecodable e => e.message
  | .conflict c => c.message
  | .number e => e.message
  | .file e => e.message
  | .path f => f.message

namespace Settings

/-- The name of a configuration file. -/
def fileName : Text := "proplay.toml".toList

/-- The name of the file that holds the settings of a project. -/
def projectFileName : Text := "pyproject.toml".toList

/-- The path of the table of settings in the file of a project. -/
def projectTable : Text := "tool.proplay".toList

/-- Following files, with what the log says of it. -/
abbrev Logged (α : Type) := Reporting Log.Record SettingsFault α

variable (parse : Toml.Reader) (tree : FileTree) (current : Location)

/-- **The table of a file**, empty if the file cannot be read. -/
def readTable (p : Path) : Logged Toml.Table :=
  if p.toText.contains '\x00' then .fail (.path .nullCharacter)
  else
    let name := Text.str p.toText
    match tree.read current p with
    | .error e => do
      .report (Log.error ("Cannot read TOML file " ++ name ++ ": " ++ e.message))
      return []
    | .ok bytes =>
      match Encoding.utf8.decode bytes with
      | .error e => .fail (.undecodable e)
      | .ok t =>
        match parse (Text.unifyBreaks t) with
        | .error .malformed => do
          .report (Log.error ("Malformed TOML in " ++ name))
          return []
        | .error (.conflict c) => .fail (.conflict c)
        | .ok table => return table

/-- **The settings in a file**; none in the file of a project that has no
table of settings. -/
def ofFile (p : Path) : Logged (Option Settings) := do
  let table ← readTable parse tree current p
  let inTable (table : Toml.Table) (place : Text) : Logged (Option Settings) :=
    (do return some (← ofTable table place (some p))).convert id .number
  if p.name = projectFileName then
    match table.dotted? projectTable with
    | none => return none
    | some inner => inTable inner (p.toText ++ ":[".toList ++ projectTable ++ [']'])
  else inTable table p.toText

/-- Whether a path leads to a file. -/
def isFile (p : Path) : Except SettingsFault Bool :=
  match tree.walk current p with
  | .file _ _ => .ok true
  | .fault .nameTooLong => .error (.file ⟨.nameTooLong, p.toText⟩)
  | .fault .denied => .error (.file ⟨.denied, p.toText⟩)
  | _ => .ok false

/-- The configuration file of a directory: its own one, or that of a
project with a table of settings that is not empty. -/
def fileIn (directory : Location) : Logged (Option Path) := do
  let own := Path.ofLocation (directory ++ [fileName])
  if ← .ofExcept (isFile tree current own) then return some own
  let project := Path.ofLocation (directory ++ [projectFileName])
  if ← .ofExcept (isFile tree current project) then
    match (← readTable parse tree current project).dotted? projectTable with
    | none | some [] => return none
    | some _ => return some project
  else return none

/-- The first configuration file of some directories. -/
def firstFile : List Location → Logged (Option Path)
  | [] => return none
  | directory :: rest => do
    match ← fileIn parse tree current directory with
    | some p => return some p
    | none => firstFile rest

/-- A location and those above it, the nearest first. -/
def upwards (l : Location) : List Location := (List.range (l.length + 1)).reverse.map l.take

/-- **The configuration file that counts for a path.** -/
def findFile (start : Path) : Logged (Option Path) := do
  let l ← .ofExcept ((start.resolve current).mapError .path)
  let there ← .ofExcept (isFile tree current (Path.ofLocation l))
  firstFile parse tree current (upwards (if there then l.dropLast else l))

/-- **The settings that count for a path**: those of the nearest
configuration file, or the defaults. -/
def forPath (start : Path) : Logged Settings := do
  match ← findFile parse tree current start with
  | none => return {}
  | some p => return (← ofFile parse tree current p).getD {}

end Settings

end PropertyFile
