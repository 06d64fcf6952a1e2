import PropertyFile.Path
import PropertyFile.Settings.Checked
import PropertyFile.Store.Basic

/-!
# Settings

The settings decide how property files are read and written: their
encoding, the list delimiter, the keys of include directives, and the
switches of the layout. They are read from a table of a configuration
file (`Settings.ofTable`), entry by entry: each setting depends on the
entry of its own key alone, and whatever is wrong there costs a warning,
if the warning can be put into words. An empty text switches the list
delimiter, the common separator, and the include keys off.
-/

namespace PropertyFile

/-- The line break of the files that are written. -/
inductive LineChoice where
  /-- That of the file that was read. -/
  | auto
  /-- A line feed. -/
  | lf
  /-- A carriage return and a line feed. -/
  | crlf
  /-- A carriage return. -/
  | cr
deriving DecidableEq, Repr

namespace LineChoice

/-- The choices with their names. -/
def all : List (String × LineChoice) :=
  [("auto", .auto), ("lf", .lf), ("crlf", .crlf), ("cr", .cr)]

/-- The name of a choice. -/
def name : LineChoice → String
  | .auto => "auto"
  | .lf => "lf"
  | .crlf => "crlf"
  | .cr => "cr"

/-- The characters of a choice, unless it depends on the file. -/
def chars : LineChoice → Option Text
  | .auto => none
  | .lf => some ['\n']
  | .crlf => some ['\r', '\n']
  | .cr => some ['\r']

end LineChoice

/-- How property files are read and written. -/
structure Settings where
  /-- The name of the encoding of property files. -/
  encoding : Text := "utf-8".toList
  /-- The delimiter of list values. -/
  listDelimiter : Option ListDelimiter := none
  /-- A separator that replaces that of every key. -/
  separator : Option Text := none
  /-- Whether every property goes on a single line. -/
  forceSingleLine : Bool := false
  /-- The line break of the files that are written. -/
  lineSeparator : LineChoice := .auto
  /-- Whether blank lines at the end of a file are kept. -/
  keepTrailingBlankLines : Bool := true
  /-- The key of directives to include a source that has to be there. -/
  includeKey : Option Text := some "include".toList
  /-- The key of directives to include a source that may be missing. -/
  includeOptionalKey : Option Text := some "includeoptional".toList
  /-- Whether directives are followed. -/
  includesAllowed : Bool := true
  /-- Whether characters outside printable ASCII are written escaped. -/
  escapeUnicode : Bool := false
  /-- The file that the settings come from. -/
  configFile : Option Path := none
  /-- The entries of its table that were passed over. -/
  rejections : List Rejection := []

namespace Settings

/-- The keys of the settings. -/
def keys : List String := [
  "encoding", "escape_unicode", "list_delimiter", "separator", "force_single_line",
  "line_separator", "keep_trailing_blank_lines", "include_key", "include_optional_key",
  "includes_allowed"]

/-- The findings of keys that no setting has. -/
def unknownKeys (table : Toml.Table) : List Finding :=
  (table.filter fun e => !keys.any fun key => key.toList == e.1).map fun e => ⟨e.1, .unknownKey⟩

/-- A text, unless it is empty. -/
def nonEmpty (t : Text) : Option Text := if t.isEmpty then none else some t

/-- The encoding that an entry names. -/
def checkEncoding (v : Option Toml.Value) : Checked Text :=
  let default := "utf-8".toList
  (Checked.string default v).refine default fun t =>
    if t.isEmpty then .error (.emptyEncoding default) else .ok t

/-- The list delimiter that an entry gives; none if it is empty. -/
def checkDelimiter (v : Option Toml.Value) : Checked (Option ListDelimiter) :=
  (Checked.string [] v).refine none fun t =>
    if t.isEmpty then .ok none
    else
      match ListDelimiter.ofText t with
      | .ok d => .ok (some d)
      | .error _ => .error (.badDelimiter t)

/-- The name of a table where none is given. -/
def tableName : Text := "[tool.proplay]".toList

/-- The entries of a table, each checked as its setting wants it. -/
structure CheckedEntries where
  encoding : Checked Text
  listDelimiter : Checked (Option ListDelimiter)
  includeKey : Checked Text
  includeOptionalKey : Checked Text
  separator : Checked Text
  forceSingleLine : Checked Bool
  lineSeparator : Checked LineChoice
  keepTrailingBlankLines : Checked Bool
  includesAllowed : Checked Bool
  escapeUnicode : Checked Bool

namespace CheckedEntries

/-- The checked entries of a table. -/
def ofTable (table : Toml.Table) : CheckedEntries :=
  let entry (key : String) : Option Toml.Value := table.lookup key.toList
  let string (key default : String) := Checked.string default.toList (entry key)
  let boolean (key : String) (default : Bool) := Checked.boolean default (entry key)
  { encoding := checkEncoding (entry "encoding")
    listDelimiter := checkDelimiter (entry "list_delimiter")
    includeKey := string "include_key" "include"
    includeOptionalKey := string "include_optional_key" "includeoptional"
    separator := string "separator" ""
    forceSingleLine := boolean "force_single_line" false
    lineSeparator := Checked.choice LineChoice.all .auto (entry "line_separator")
    keepTrailingBlankLines := boolean "keep_trailing_blank_lines" true
    includesAllowed := boolean "includes_allowed" true
    escapeUnicode := boolean "escape_unicode" false }

/-- What is wrong with the entries, in the order in which they are
checked. -/
def findings (e : CheckedEntries) : List Finding :=
  e.encoding.findings "encoding".toList ++
    e.listDelimiter.findings "list_delimiter".toList ++
    e.includeKey.findings "include_key".toList ++
    e.includeOptionalKey.findings "include_optional_key".toList ++
    e.separator.findings "separator".toList ++
    e.forceSingleLine.findings "force_single_line".toList ++
    e.lineSeparator.findings "line_separator".toList ++
    e.keepTrailingBlankLines.findings "keep_trailing_blank_lines".toList ++
    e.includesAllowed.findings "includes_allowed".toList ++
    e.escapeUnicode.findings "escape_unicode".toList

/-- The settings that the entries come to. -/
def settings (e : CheckedEntries) (configFile : Option Path) (rejections : List Rejection) :
    Settings :=
  { encoding := e.encoding.value
    listDelimiter := e.listDelimiter.value
    separator := nonEmpty e.separator.value
    forceSingleLine := e.forceSingleLine.value
    lineSeparator := e.lineSeparator.value
    keepTrailingBlankLines := e.keepTrailingBlankLines.value
    includeKey := nonEmpty e.includeKey.value
    includeOptionalKey := nonEmpty e.includeOptionalKey.value
    includesAllowed := e.includesAllowed.value
    escapeUnicode := e.escapeUnicode.value
    configFile
    rejections }

end CheckedEntries

/-- **The settings in a table** that goes by the name `place`. -/
def ofTable (table : Toml.Table) (place : Text) (configFile : Option Path) : Checking Settings := do
  let entries := CheckedEntries.ofTable table
  let rejections ← rejectAll place (unknownKeys table ++ entries.findings)
  return entries.settings configFile rejections

/-- What a user is told of the entries that were passed over. -/
def diagnostics (s : Settings) : List String := s.rejections.map fun r => "warning: " ++ r.message

/-- A layout without entries, as the settings want it. -/
def newLayout (s : Settings) : Layout :=
  { globalSeparator := s.separator
    lineSeparator? := s.lineSeparator.chars
    forceSingleLine := s.forceSingleLine
    keepTrailingBlankLines := s.keepTrailingBlankLines }

/-- **A store without keys**, as the settings want it. -/
def newStore (s : Settings) (lookup : Option Lookup) : Store :=
  { options :=
      { delimiter := s.listDelimiter
        includeKey := s.includeKey
        includeOptionalKey := s.includeOptionalKey
        includesAllowed := s.includesAllowed
        lookup
        encoding := s.encoding
        escapeUnicode := s.escapeUnicode }
    layout := s.newLayout }

end Settings

end PropertyFile
