import PropertyFile.CommandLine.Exit

/-!
# Options of a run

What the options that all commands share come to: how much goes to the
log, and whether output is coloured. Options on the command line come
before variables of the environment, and of those one that asks for
colour comes before one that asks for none.
-/

namespace PropertyFile.CommandLine

/-- The variables of the environment. -/
abbrev Environment := List (Text × Text)

/-! ## The log -/

/-- The levels asked for by no, one, two and more requests for more
output. -/
def verboseLevel : Nat → Int
  | 0 => 30
  | 1 => 20
  | 2 => 10
  | _ => 5

/-- **The level to log**, from the number of requests for more output
and for less, which exclude each other. -/
def logLevel (verbose quiet : Nat) : Except Failure Int :=
  if verbose ≠ 0 && quiet ≠ 0 then
    .error ⟨.usageError, "--verbose and --quiet cannot be combined".toList⟩
  else if quiet ≠ 0 then .ok 40
  else .ok (verboseLevel verbose)

/-! ## Colour -/

/-- When output is coloured. -/
inductive ColorMode where
  /-- If the environment asks for it. -/
  | auto
  /-- Always. -/
  | always
  /-- Never. -/
  | never
deriving DecidableEq, Repr

namespace ColorMode

/-- The modes with their names. -/
def all : List (String × ColorMode) := [("auto", .auto), ("always", .always), ("never", .never)]

/-- The mode of a name. -/
def ofName? (name : Text) : Option ColorMode :=
  (all.find? fun e => e.1.toList = name).map Prod.snd

end ColorMode

/-- **Whether output is coloured.** Output never goes to a terminal, so
without an option it is coloured only if the environment says so. -/
def usesColor (mode : ColorMode) (noColor : Bool) (env : Environment) : Bool :=
  match mode with
  | .never => false
  | .always => !noColor
  | .auto => !noColor && (env.lookup "FORCE_COLOR".toList).getD ['0'] ≠ ['0']

/-! ## Formats -/

/-- The form in which results are printed. -/
inductive OutputFormat where
  /-- Plain text. -/
  | text
  /-- A JSON document. -/
  | json
  /-- A TOML document. -/
  | toml
deriving DecidableEq, Repr

/-- The forms with their names. -/
def OutputFormat.all : List (String × OutputFormat) :=
  [("text", .text), ("json", .json), ("toml", .toml)]

end PropertyFile.CommandLine
