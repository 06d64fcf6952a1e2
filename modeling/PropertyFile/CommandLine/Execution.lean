import PropertyFile.CommandLine.Check
import PropertyFile.CommandLine.Revision

/-!
# Carrying out what is asked for

`Invocation.run` says how a run ends that is asked for a command
(`RunEnding`): what is printed, the files afterwards, the code that the
run ends with, and whether it broke down. It reads and prints nothing
itself: where the run takes place is a value (`Site`).
-/

namespace PropertyFile.CommandLine

/-- Where a run takes place. -/
structure Site where
  /-- The codecs, and the reader of configuration files. -/
  platform : Platform
  /-- The files. -/
  tree : FileTree
  /-- Where relative paths start. -/
  current : Location
  /-- The home directories of all users. -/
  others : List (Text × Text) := []
  /-- The environment. -/
  env : Environment := []

/-- How a run ends. -/
structure RunEnding where
  /-- The standard output. -/
  out : Text := []
  /-- The standard error. -/
  err : Text := []
  /-- The files. -/
  tree : FileTree
  /-- The code that the run ends with. -/
  code : Nat
  /-- What it broke down of, if it did. -/
  breakdown : Option Breakdown := none

/-- The home directories, by the environment. -/
def homesOf (env : Environment) (others : List (Text × Text)) : Path.Homes :=
  { own := (env.lookup "HOME".toList).map fun home => if home.isEmpty then ['/'] else home
    others }

/-- The level of the log: that of the environment, else that of the
options. The options are checked in any case. -/
def levelOf (shared : Shared) (env : Environment) : Except Stop Int := do
  let level ← (logLevel shared.verbose shared.quiet).mapError .failed
  let asked ← (Log.levelOfVariable (env.lookup "PROPLAY_LOG_LEVEL".toList)).mapError
    fun e => .broken (.level e)
  return asked.getD level

/-- **What a command does**: what it reports, and the files
afterwards. -/
def Command.run (s : Scene) : Command → Step Outcome × FileTree
  | .version format =>
    (do
      .reportAll (versionMessages s.verbose format)
      return .success, s.tree)
  | .get file key config => (runGet s file key config, s.tree)
  | .dump file format config => (runDump s file format config, s.tree)
  | .edit file e false config => (previewEdit s file e config, s.tree)
  | .edit file e true config => applyEdit s file e config
  | .check files config => (runCheck s files config, s.tree)

/-- The end of a run that came to the given end. -/
def RunEnding.ofStep (k : Look) (tree : FileTree) (x : Step Outcome) : RunEnding :=
  let messages := x.reports ++
    match x.result with
    | .error (.failed f) => [.failure f.message]
    | _ => []
  { tree
    out := printed k .out messages
    err := printed k .err messages
    code :=
      match x.result with
      | .ok o => o.code
      | .error (.failed f) => f.outcome.code
      | .error (.broken _) => Outcome.failure.code
    breakdown :=
      match x.result with
      | .error (.broken b) => some b
      | _ => none }

/-- Where the command of a run takes place. -/
def Site.scene (site : Site) (shared : Shared) : Scene :=
  { platform := site.platform, tree := site.tree, current := site.current
    homes := homesOf site.env site.others, verbose := shared.verbose }

/-- How a run begins: it settles how messages are printed, which may
fail. -/
def Shared.start (shared : Shared) (site : Site) (rest : Look → RunEnding) : RunEnding :=
  match levelOf shared site.env with
  | .error stop => .ofStep ⟨false, 0⟩ site.tree (.fail stop)
  | .ok level => rest ⟨usesColor shared.color shared.noColor site.env, level⟩

/-- **A run that is asked for a command.** -/
def Invocation.run (site : Site) (i : Invocation) : RunEnding :=
  i.shared.start site fun k =>
    let (x, tree) := i.command.run (site.scene i.shared)
    .ofStep k tree x

end PropertyFile.CommandLine
