import PropertyFile.CommandLine.Options
import PropertyFile.Path

/-!
# Commands

What a run of the program is asked for, once the words of the command
line are read: a command, with its files and its options, and the options
that all commands share.
-/

namespace PropertyFile.CommandLine

/-- Which settings count. -/
inductive ConfigChoice where
  /-- Those of the nearest configuration file. -/
  | nearest
  /-- Those of the file of the given path. -/
  | file (path : Text)
  /-- The defaults. -/
  | none
deriving DecidableEq, Repr

/-- How a property is edited. -/
inductive Edit where
  /-- It gets a value, in place of its values or (`add`) behind them, and
  perhaps a comment. -/
  | set (key value : Text) (comment : Option Text) (add : Bool)
  /-- It is removed. -/
  | unset (key : Text)
deriving DecidableEq, Repr

/-- What to run. -/
inductive Command where
  /-- Shows the version of the program. -/
  | version (format : OutputFormat)
  /-- Shows the values of a key. -/
  | get (file : Path) (key : Text) (config : ConfigChoice)
  /-- Shows all properties. -/
  | dump (file : Path) (format : OutputFormat) (config : ConfigChoice)
  /-- Edits a property: shows what changes, or (`apply`) writes it. -/
  | edit (file : Path) (edit : Edit) (apply : Bool) (config : ConfigChoice)
  /-- Checks that files are written as they were read. -/
  | check (files : List Path) (config : ConfigChoice)
deriving DecidableEq, Repr

/-- The options that all commands share. -/
structure Shared where
  /-- How often more output is asked for. -/
  verbose : Nat := 0
  /-- How often less output is asked for. -/
  quiet : Nat := 0
  /-- When output is coloured. -/
  color : ColorMode := .auto
  /-- Whether colour is excluded. -/
  noColor : Bool := false
deriving DecidableEq, Repr

/-- **What a run is asked for.** -/
structure Invocation where
  /-- What is asked of any command. -/
  shared : Shared := {}
  /-- The command. -/
  command : Command
deriving DecidableEq, Repr

end PropertyFile.CommandLine
