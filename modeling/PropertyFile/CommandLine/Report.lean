import PropertyFile.CommandLine.Exit
import PropertyFile.Diff.Unified
import PropertyFile.Log
import PropertyFile.Reporting
import PropertyFile.Settings.File
import PropertyFile.Store.File

/-!
# What a run reports

While it runs, a command reports **messages**: results, which go to the
standard output, and remarks and records of the log, which go to the
standard error. A message says what is meant, not how it looks; whether
it is coloured, and which records are shown, is decided when it is
printed (`Message.printed`).

A command that does not come to its end comes to a `Stop`.
-/

namespace PropertyFile.CommandLine

/-! ## Messages -/

/-- A stretch of a line in one style. -/
structure Span where
  /-- The characters. -/
  text : Text
  /-- The style. -/
  mark : Ansi.Mark := ⟨[]⟩
deriving DecidableEq, Repr

/-- Something that a run says. -/
inductive Message where
  /-- A line of results. -/
  | line (spans : List Span)
  /-- Results that bring their own line ends. -/
  | block (t : Text)
  /-- A diff between texts. -/
  | diff (patch : List Text)
  /-- A warning to the user. -/
  | warning (t : Text)
  /-- An error that the user is told of. -/
  | error (t : Text)
  /-- The error that ends the run. -/
  | failure (t : Text)
  /-- A record of the log. -/
  | log (r : Log.Record)
deriving DecidableEq, Repr

/-- A line of results in one style. -/
def Message.plain (t : Text) (mark : Ansi.Mark := ⟨[]⟩) : Message := .line [⟨t, mark⟩]

/-- Where a message is printed. -/
inductive Stream where
  /-- The standard output. -/
  | out
  /-- The standard error. -/
  | err
deriving DecidableEq, Repr

/-- Where a message goes. -/
def Message.stream : Message → Stream
  | .line _ | .block _ | .diff _ => .out
  | _ => .err

/-- How messages are printed. -/
structure Look where
  /-- Whether they are coloured. -/
  color : Bool
  /-- The level from which on records of the log are shown. -/
  level : Int
deriving DecidableEq, Repr

namespace Look

/-- A styled text; without colour, as it is. -/
def styled (k : Look) (mark : Ansi.Mark) (t : Text) : Text := if k.color then mark.apply t else t

/-- A printed text; without colour, without control sequences. -/
def cleaned (k : Look) (t : Text) : Text := if k.color then t else Ansi.stripSequences t

/-- Whether a record is shown. Below the level of information the log is
one for developers, which is not kept. -/
def shows (k : Look) (r : Log.Record) : Bool :=
  k.level ≤ r.severity.level && Log.Severity.info.level ≤ k.level

end Look

/-- **A message as it is printed.** Records of the log are coloured
always. -/
def Message.printed (k : Look) : Message → Text
  | .line spans => k.cleaned (spans.flatMap fun s => k.styled s.mark s.text) ++ ['\n']
  | .block t => k.cleaned t
  | .diff patch => k.cleaned (Diff.render k.color false patch)
  | .warning t => k.cleaned (k.styled .yellow t) ++ ['\n']
  | .error t => k.cleaned (k.styled .brightRed t) ++ ['\n']
  | .failure t => "Error: ".toList ++ k.cleaned t ++ ['\n']
  | .log r => if k.shows r then r.line else []

/-- What messages come to on one of the streams. -/
def printed (k : Look) (s : Stream) (ms : List Message) : Text :=
  (ms.filter fun m => m.stream = s).flatMap (Message.printed k)

/-! ## Stops -/

/-- What no command provides for. -/
inductive Breakdown where
  /-- A path is none. -/
  | path (f : PathFault)
  /-- The settings cannot be told. -/
  | settings (f : SettingsFault)
  /-- A file cannot be loaded. -/
  | load (e : LoadError)
  /-- A file cannot be written. -/
  | save (e : SaveError)
  /-- The level of the log is no number. -/
  | level (e : Log.NotDecimal)
deriving DecidableEq, Repr

/-- What is said of a breakdown. -/
def Breakdown.message : Breakdown → String
  | .path f => f.message
  | .settings f => f.message
  | .load e => e.message
  | .save e => e.message
  | .level e => e.message

/-- Why a command does not come to its end. -/
inductive Stop where
  /-- It fails. -/
  | failed (f : Failure)
  /-- It breaks down. -/
  | broken (b : Breakdown)
deriving DecidableEq, Repr

/-- The steps of a command: computations that report messages. -/
abbrev Step (α : Type) := Reporting Message Stop α

namespace Step

/-- Stops with a failure. -/
def failed {α : Type} (o : Outcome) (message : Text) : Step α := .fail (.failed ⟨o, message⟩)

/-- Stops with a breakdown. -/
def broken {α : Type} (b : Breakdown) : Step α := .fail (.broken b)

end Step

end PropertyFile.CommandLine
