import PropertyFile.Ansi
import PropertyFile.Text.Blank
import PropertyFile.Text.Digit
import PropertyFile.Text.Quoted

/-!
# The log

What a run has to say beside its results goes to the log: records with a
**level**, of which those are shown that reach the level asked for. A
level is a number; the usual ones have names. The level to show is asked
for by name, in any case of the letters, or by number (`levelOfText`).

A record is shown with the name of its level in front and painted in the
colour of the highest threshold that it reaches (`shown`).
-/

namespace PropertyFile.Log

/-! ## Levels -/

/-- The names of levels, the preferred one of each level first. -/
def levelNames : List (Int × String) := [
  (50, "CRITICAL"), (50, "FATAL"), (40, "ERROR"), (30, "WARNING"), (30, "WARN"), (20, "INFO"),
  (10, "DEBUG"), (5, "TRACE"), (0, "NOTSET")]

/-- The name a level is shown with: its own, or one made of its number. -/
def levelName (level : Int) : String :=
  (levelNames.lookup level).getD ("Level " ++ toString level)

/-- The capital letters of a character, as far as they can occur in the
name of a level: those of the small letters from a to z, and of the few
characters beyond that have such capitals. -/
def capitals (c : Char) : Text :=
  match c.toNat with
  | 0xdf => ['S', 'S']
  | 0x131 => ['I']
  | 0x17f => ['S']
  | 0xfb00 => ['F', 'F']
  | 0xfb01 => ['F', 'I']
  | 0xfb02 => ['F', 'L']
  | 0xfb03 => ['F', 'F', 'I']
  | 0xfb04 => ['F', 'F', 'L']
  | 0xfb05 => ['S', 'T']
  | 0xfb06 => ['S', 'T']
  | _ => [c.toUpper]

/-- Why a text asks for no level: its characters are digits, but some of
them are no decimal digits. -/
structure NotDecimal where
  /-- The text in question. -/
  given : Text
deriving DecidableEq, Repr

/-- What is said of digits that make no number. -/
def NotDecimal.message (e : NotDecimal) : String :=
  "invalid literal for int() with base 10: " ++ Text.quoted e.given

/-- **The level a text asks for**, by number or by name; `none` for a
name that no level has. -/
def levelOfText (t : Text) : Except NotDecimal (Option Int) :=
  let name := (Text.strip t).flatMap capitals
  if !name.isEmpty && name.all Text.isDigit then
    match Text.decimalValue? name with
    | some n => .ok (some n)
    | none => .error ⟨name⟩
  else .ok ((levelNames.find? fun e => e.2.toList == name).map Prod.fst)

/-- The level asked for by a variable of the environment; a variable
without a value asks for none. -/
def levelOfVariable : Option Text → Except NotDecimal (Option Int)
  | none | some [] => .ok none
  | some value => levelOfText value

/-! ## Records -/

/-- How much a record matters. -/
inductive Severity where
  /-- Something was done. -/
  | info
  /-- Something was passed over. -/
  | warning
  /-- Something cannot be done. -/
  | error
deriving DecidableEq, Repr

/-- The level of a severity. -/
def Severity.level : Severity → Int
  | .info => 20
  | .warning => 30
  | .error => 40

/-- A record of the log. -/
structure Record where
  /-- How much it matters. -/
  severity : Severity
  /-- What it says. -/
  message : Text
deriving DecidableEq, Repr

/-- A warning. -/
def warning (message : String) : Record := ⟨.warning, message.toList⟩

/-- An error. -/
def error (message : String) : Record := ⟨.error, message.toList⟩

/-- A note of something done. -/
def info (message : String) : Record := ⟨.info, message.toList⟩

/-! ## Showing records -/

/-- The colours of levels: a level has that of the first threshold that
it reaches. -/
def paints : List (Int × Ansi.Paint) :=
  [(40, .brightRed), (30, .yellow), (20, .green), (10, .gray), (5, .blue)]

/-- The colour of a level; below all thresholds it is faint. -/
def paintOf (level : Int) : Ansi.Paint :=
  ((paints.find? fun e => e.1 ≤ level).map Prod.snd).getD .dim

/-- **A message as the log shows it.** -/
def shown (level : Int) (message : Text) : Text :=
  (paintOf level).apply ('[' :: (levelName level).toList ++ [']', ' '] ++ message)

/-- The line of a record. -/
def Record.line (r : Record) : Text := shown r.severity.level r.message ++ ['\n']

end PropertyFile.Log
