import PropertyFile.CommandLine.Command
import PropertyFile.CommandLine.Report
import PropertyFile.Platform

/-!
# Settings and files of a command

The steps that commands share: finding the settings that count, reading
the text of a file, loading it into a store, and writing it. Each puts
what may go wrong into the words of a `Failure` that names the file the
command was given. What a failure has no words for is a `Breakdown`.
-/

namespace PropertyFile.CommandLine

/-- Where a command runs. -/
structure Scene where
  /-- The codecs, and the reader of configuration files. -/
  platform : Platform
  /-- The files. -/
  tree : FileTree
  /-- Where relative paths start. -/
  current : Location
  /-- Where home directories are. -/
  homes : Path.Homes
  /-- How often more output was asked for. -/
  verbose : Nat := 0

/-! ## What goes wrong with files -/

/-- The stop for a fault of file access, and what the log says of it. -/
def stopOfFile {α : Type} (p : Path) (e : FileError) : Step α :=
  let message := p.toText ++ ": ".toList ++ e.message.toList
  match e.fault with
  | .notFound | .isDirectory => do
    .report (.log (Log.error ("Filesystem error while processing " ++ Text.str p.toText ++ ": " ++
      e.message)))
    .failed .fileNotFound message
  | .denied => .failed .permissionDenied message
  | .notDirectory | .nameTooLong => .failed .ioError message

/-- What is said of a file that is no text, or would not be one. -/
def textFaultMessage (p : Path) (reason : String) : Text :=
  "Encoding error in ".toList ++ p.toText ++ ": ".toList ++ reason.toList

/-- The stop for a file that is no text, or would not be one. -/
def stopOfText {α : Type} (p : Path) (reason : String) : Step α :=
  .failed .encodingError (textFaultMessage p reason)

/-- The stop for a file that cannot be loaded. -/
def stopOfLoad {α : Type} (p : Path) (e : LoadError) : Step α :=
  match e with
  | .file fault => stopOfFile p fault
  | .undecodable _ => stopOfText p e.message
  | .parse _ => .failed .encodingError e.message.toList
  | .notFound _ _ => .failed .fileNotFound (p.toText ++ ": ".toList ++ e.message.toList)
  | .cycle _ _ => .failed .configError (p.toText ++ ": ".toList ++ e.message.toList)
  | .path _ | .encoding _ => .broken (.load e)

/-- The stop for a file that cannot be written. -/
def stopOfSave {α : Type} (p : Path) (e : SaveError) : Step α :=
  match e with
  | .file fault => stopOfFile p fault
  | .unencodable _ => stopOfText p e.message
  | .path _ | .encoding _ => .broken (.save e)

/-! ## Settings -/

namespace Scene

variable (s : Scene)

/-- The settings that a choice comes to, for the file at a path. -/
def chosenSettings (c : ConfigChoice) (start : Path) : Step Settings :=
  let ofLog {α : Type} (l : Settings.Logged α) : Step α :=
    l.convert .log fun f => .broken (.settings f)
  match c with
  | .none => return {}
  | .file given => do
    match ← ofLog (Settings.ofFile s.platform.parse s.tree s.current (Path.ofText given)) with
    | some settings => return settings
    | none => .failed .configError ("No [tool.proplay] table in ".toList ++ given)
  | .nearest => ofLog (Settings.forPath s.platform.parse s.tree s.current start)

/-- **The settings for the file at a path**, with a warning for each of
their entries that is passed over. -/
def settings (c : ConfigChoice) (start : Path) : Step Settings := do
  let settings ← s.chosenSettings c start
  let source := (settings.configFile.map Path.toText).getD "<defaults>".toList
  .reportAll (settings.diagnostics.map fun d => .warning (source ++ ": ".toList ++ d.toList))
  return settings

/-! ## Files -/

/-- **The text of a file.** -/
def readText (settings : Settings) (p : Path) : Step Text :=
  match s.tree.readText s.platform.codecs s.current p settings.encoding with
  | .ok t => return t
  | .error e => stopOfLoad p e

/-- Where a store finds what it includes. -/
def sources (settings : Settings) : Sources :=
  .files s.tree
    { current := s.current, homes := s.homes, base := none, codecs := s.platform.codecs
      encoding := settings.encoding }

/-- What the log says of a notice. -/
def noticeLog : Notice → List Message
  | .opened _ _ => []
  | .skipped name reason => [.log (Log.warning (skippedMessage name reason))]

/-- **A file loaded into a store.** Where the file will be written
again, directives are not followed but kept as they are. -/
def loadStore (settings : Settings) (followIncludes : Bool) (p : Path) : Step Store := do
  let settings :=
    if followIncludes then settings
    else { settings with includeKey := none, includeOptionalKey := none }
  match p.resolve s.current with
  | .error f => .broken (.path f)
  | .ok l =>
    .report (.log (Log.info ("Reading " ++ Text.str (Path.ofLocation l).toText)))
    let (result, st, notices) :=
      (settings.newStore none).loadFile s.platform.codecs (s.sources settings) s.tree s.current p
    .reportAll (notices.flatMap noticeLog)
    match result with
    | .ok () => return st
    | .error e => stopOfLoad p e

end Scene

end PropertyFile.CommandLine
