import PropertyFile.Text.Basic

/-!
# How a run ends

A run ends with a code that tells scripts what happened. Most codes are
those of the usual table for system programs; a run that only shows what
it would change has a code of its own. A command that fails does so with
a `Failure`: its kind decides the code, its message is what the user is
told.
-/

namespace PropertyFile.CommandLine

/-- The ways in which a run ends. -/
inductive Outcome where
  /-- All went well. -/
  | success
  /-- What was asked for is not there. -/
  | failure
  /-- A file would be changed, or is not written as it was read. -/
  | wouldChange
  /-- The options contradict each other. -/
  | usageError
  /-- A file is no text, or no property file. -/
  | encodingError
  /-- A file is missing. -/
  | fileNotFound
  /-- A file cannot be read or written. -/
  | ioError
  /-- Access to a file is denied. -/
  | permissionDenied
  /-- The configuration cannot be used, or files include each other. -/
  | configError
deriving DecidableEq, Repr

/-- The code of an outcome. -/
def Outcome.code : Outcome → Nat
  | .success => 0
  | .failure => 1
  | .wouldChange => 2
  | .usageError => 64
  | .encodingError => 65
  | .fileNotFound => 66
  | .ioError => 74
  | .permissionDenied => 77
  | .configError => 78

/-- Why a command fails. -/
structure Failure where
  /-- How the run ends. -/
  outcome : Outcome
  /-- What the user is told. -/
  message : Text
deriving DecidableEq, Repr

end PropertyFile.CommandLine
