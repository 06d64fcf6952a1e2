import PropertyFile.CommandLine.Arguments
import PropertyFile.CommandLine.Command
import PropertyFile.FileTree

/-!
# The words of a command line

What the words of a command line ask for: first the options that all
commands share, then the name of a command, then what belongs to that
command. Reading the words does not run anything yet, but it looks at
the files that options name.

Of several things that may be wrong, the first one in this order is
reported: words that are no known options, from the left; values that
an option does not admit, in the order of the options; arguments that
are missing, in the order of their places; arguments that are left over.
A request for help comes right behind the first kind.
-/

namespace PropertyFile.CommandLine

/-- Why words are not followed. -/
inductive Refusal where
  /-- Help is asked for instead. -/
  | help
  /-- Something is wrong with them. -/
  | misuse (m : Misuse)
  /-- A path among them is none. -/
  | path (f : PathFault)
deriving DecidableEq, Repr

/-! ## Names of commands -/

/-- The names of commands. -/
inductive Verb where
  | version
  | get
  | dump
  | set
  | unset
  | check
deriving DecidableEq, Repr

namespace Verb

/-- The names as they are written. -/
def all : List (String × Verb) := [
  ("version", version), ("get", get), ("dump", dump), ("set", set), ("unset", unset),
  ("check", check)]

/-- The name as it is written. -/
def name : Verb → String
  | version => "version"
  | get => "get"
  | dump => "dump"
  | set => "set"
  | unset => "unset"
  | check => "check"

/-- The command of a name. -/
def ofName? (t : Text) : Option Verb := (all.find? fun e => e.1.toList = t).map Prod.snd

/-- The arguments of a command as its usage shows them. -/
def places : Verb → String
  | version => ""
  | get | unset => " FILE KEY"
  | dump => " FILE"
  | set => " FILE KEY VALUE"
  | check => " FILES..."

end Verb

/-! ## Options -/

/-- The option that asks for help. -/
def helpSwitch : Switch := { name := "--help", letter? := some 'h' }

/-- The options that all commands share; they stand before the name of
the command. -/
def sharedSwitches : List Switch := [
  { name := "--verbose", letter? := some 'v' }, { name := "--quiet", letter? := some 'q' },
  { name := "--color", demand := .choice (ColorMode.all.map Prod.fst) }, { name := "--no-color" },
  helpSwitch]

/-- The options for the settings. -/
def configSwitches : List Switch :=
  [{ name := "--config", demand := .file }, { name := "--no-config" }]

/-- The option for the form of results. -/
def formatSwitch : Switch :=
  { name := "--format", demand := .choice (OutputFormat.all.map Prod.fst) }

/-- The options of a command. -/
def Verb.switches : Verb → List Switch
  | version => [formatSwitch, helpSwitch]
  | get | check => configSwitches ++ [helpSwitch]
  | dump => formatSwitch :: configSwitches ++ [helpSwitch]
  | set =>
    [{ name := "--comment", demand := .text }, { name := "--add" }, { name := "--apply" }] ++
      configSwitches ++ [helpSwitch]
  | unset => { name := "--apply" } :: configSwitches ++ [helpSwitch]

/-! ## Reading the words -/

section
variable (tree : FileTree) (current : Location)

/-- Whether only a directory can lie at a path: nothing, or a dot, stands
behind its last slash. -/
def namesDirectory (t : Text) : Bool :=
  match (Text.splitOn '/' t).getLast? with
  | some [] | some ['.'] => true
  | _ => false

/-- What lies at the path that a text writes. -/
def whatLies (t : Text) : Except Refusal FileTree.Target :=
  if t.contains '\x00' then .error (.path .nullCharacter)
  else if t.isEmpty then .ok (.fault .notFound)
  else
    match tree.walk current (Path.ofText t), namesDirectory t with
    | .file _ _, true | .sink _, true => .ok (.fault .notDirectory)
    | target, _ => .ok target

/-- Refuses a text if what lies at its path may not be read. -/
def refuseUnreadable (place kind : String) (t : Text) (target : FileTree.Target) :
    Except Refusal Unit :=
  match target with
  | .file l _ | .sink l | .directory l =>
    if (tree.mode l).read then .ok () else .error (.misuse (.unreadable place kind t))
  | _ => .ok ()

/-- Checks a text that stands for a file at a place. Nothing has to lie
there. -/
def checkPath (place : String) (t : Text) : Except Refusal Path := do
  refuseUnreadable tree place "Path" t (← whatLies tree current t)
  return Path.ofText t

/-- Checks the value of an option; a file has to exist. -/
def Switch.checkValue (s : Switch) (given : Text) : Except Refusal Unit :=
  match s.demand with
  | .nothing | .text => .ok ()
  | .choice names =>
    if names.any fun name => Text.caseFold name.toList == Text.caseFold given then .ok ()
    else .error (.misuse (.badChoice s.name given names))
  | .file => do
    match ← whatLies tree current given with
    | .directory _ => .error (.misuse (.fileIsDirectory s.name given))
    | .vacant _ | .fault _ => .error (.misuse (.fileMissing s.name given))
    | target => refuseUnreadable tree s.name "File" given target

/-- Sorts words, and checks the values of the options among them. -/
def readOptions (known : List Switch) (mixed : Bool) (words : List Text) :
    Except Refusal Arguments := do
  let a ← (Arguments.ofWords known mixed words).mapError .misuse
  if a.has helpSwitch.name then .error .help
  a.names.forM fun name =>
    match known.find? fun s => s.name = name, a.value? name with
    | some s, some given => s.checkValue tree current given
    | _, _ => .ok ()
  return a

/-- The text at a place, and what follows it. -/
def takeText (place : String) : List Text → Except Refusal (Text × List Text)
  | [] => .error (.misuse (.argumentMissing place))
  | t :: rest => .ok (t, rest)

/-- The file at a place, and what follows it. -/
def takeFile : List Text → Except Refusal (Path × List Text)
  | [] => .error (.misuse (.argumentMissing "FILE"))
  | t :: rest => do return (← checkPath tree current "FILE" t, rest)

/-- Checks that nothing is left over. -/
def takeEnd : List Text → Except Refusal Unit
  | [] => .ok ()
  | extra => .error (.misuse (.extraArguments extra))

/-- The choice of settings that options make. -/
def configOf (a : Arguments) : ConfigChoice :=
  if a.has "--no-config" then .none
  else
    match a.value? "--config" with
    | some path => .file path
    | none => .nearest

/-- The form of results that options ask for. -/
def formatOf (a : Arguments) : OutputFormat := a.choice formatSwitch.name OutputFormat.all .text

/-- **What a command and the words behind it ask for.** -/
def Command.ofWords (verb : Verb) (words : List Text) : Except Refusal Command := do
  let a ← readOptions tree current verb.switches true words
  match verb with
  | .version =>
    takeEnd a.others
    return .version (formatOf a)
  | .get =>
    let (file, rest) ← takeFile tree current a.others
    let (key, rest) ← takeText "KEY" rest
    takeEnd rest
    return .get file key (configOf a)
  | .dump =>
    let (file, rest) ← takeFile tree current a.others
    takeEnd rest
    return .dump file (formatOf a) (configOf a)
  | .set =>
    let (file, rest) ← takeFile tree current a.others
    let (key, rest) ← takeText "KEY" rest
    let (value, rest) ← takeText "VALUE" rest
    takeEnd rest
    return .edit file (.set key value (a.value? "--comment") (a.has "--add")) (a.has "--apply")
      (configOf a)
  | .unset =>
    let (file, rest) ← takeFile tree current a.others
    let (key, rest) ← takeText "KEY" rest
    takeEnd rest
    return .edit file (.unset key) (a.has "--apply") (configOf a)
  | .check =>
    if a.others.isEmpty then .error (.misuse (.argumentMissing "FILES..."))
    return .check (← a.others.mapM (checkPath tree current "FILES...")) (configOf a)

/-- **What the words of a command line ask for before any command runs**,
and the words from the name of the command on. -/
def Shared.ofWords (words : List Text) : Except Refusal (Shared × List Text) := do
  let a ← readOptions tree current sharedSwitches false words
  return ({ verbose := a.count "--verbose", quiet := a.count "--quiet"
            color := a.choice "--color" ColorMode.all .auto, noColor := a.has "--no-color" },
    a.others)

/-- The command of a name. A name that no command has may be an option
that came too late; what is wrong with it as an option goes first. -/
def findVerb (name : Text) (rest : List Text) : Except Refusal Verb :=
  match Verb.ofName? name with
  | some verb => .ok verb
  | none => do
    let _ ← Shared.ofWords tree current (name :: rest)
    .error (.misuse (.unknownCommand name (similarNames name (Verb.all.map fun e => e.1.toList))))

end

/-- The usage of the program, or of one of its commands. -/
def usage : Option Verb → String
  | none => "Usage: proplay [OPTIONS] [COMMAND] [ARGS]..."
  | some verb => "Usage: proplay " ++ verb.name ++ " [OPTIONS]" ++ verb.places

/-- What is said of a misuse of the program, or of one of its
commands. -/
def Misuse.report (m : Misuse) (verb : Option Verb) : String :=
  let command := "proplay" ++ ((verb.map fun verb => " " ++ verb.name).getD "")
  (if m.showsUsage then
    usage verb ++ "\nTry '" ++ command ++ " --help' for help.\n\n"
  else "") ++ "Error: " ++ m.message ++ "\n"

end PropertyFile.CommandLine
