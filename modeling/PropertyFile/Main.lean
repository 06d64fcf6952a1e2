import PropertyFile.CommandLine.CodeCheck
import PropertyFile.CommandLine.Reach
import PropertyFile.StandardPlatform

/-!
# The command line

The outer layer of the program: it gathers the files that a run may look
at, with what may be done with them, runs on them, writes what has
changed, and prints.
-/

namespace PropertyFile.CommandLine

/-- The location that the absolute path of a directory names. -/
def locationOfName (name : String) : Location := (Path.ofText name.toList).names

/-- The result of an action, unless access is denied to it. -/
def unlessDenied {α : Type} (x : IO α) : IO (Option α) := do
  try
    return some (← x)
  catch
    | .permissionDenied .. => return none
    | e => throw e

/-- The tree with another mode of what lies at a location. -/
def changeMode (tree : FileTree) (l : Location) (f : Mode → Mode) : FileTree :=
  { tree with modes := OrderedMap.put l (f (tree.mode l)) tree.modes }

/-- The tree with what lies at a location. Where that cannot be told for a
lack of permission, it is the directory around it that may not be
searched. Files are never made, so it does not matter in which directories
they could be. -/
def lookAt (tree : FileTree) (l : Location) : IO FileTree := do
  let name := Text.str (Path.ofLocation l).toText
  try
    let some real ← unlessDenied (IO.FS.realPath name)
      | return changeMode tree l.dropLast ({ · with search := false })
    match (← real.metadata).type with
    | .dir =>
      let tree := { tree with directories := tree.directories ++ [l] }
      let read := (← unlessDenied real.readDir).isSome
      return changeMode tree l ({ · with read })
    | .file =>
      let bytes ← unlessDenied (IO.FS.readBinFile name)
      let write := (← unlessDenied (IO.FS.Handle.mk name .append)).isSome
      let tree := tree.write l ((bytes.map (·.toList)).getD [])
      return changeMode tree l ({ · with read := bytes.isSome, write })
    | _ => return { tree with sinks := tree.sinks ++ [l] }
  catch _ => return tree

/-- The site of a run with everything that the run may ask for. -/
partial def gather (words : List Text) (seen : List Location) (site : Site) : IO Site := do
  let all := (wanted site words).flatMap Settings.upwards
  let new := (all.filter fun l => !seen.contains l).eraseDups
  if new.isEmpty then return site
  gather words (seen ++ new) { site with tree := ← new.foldlM lookAt site.tree }

/-- The variables of the environment that count. -/
def environment : IO Environment := do
  let mut env := []
  for name in ["HOME", "FORCE_COLOR", "PROPLAY_LOG_LEVEL"] do
    if let some value ← IO.getEnv name then
      env := env ++ [(name.toList, value.toList)]
  return env

/-- The home directories in a list of accounts: the first and the sixth
of the fields on each line, which end in colons. -/
def homesOfAccounts (t : Text) : List (Text × Text) :=
  (Text.splitOn '\n' t).filterMap fun line =>
    match Text.splitOn ':' line with
    | user :: _ :: _ :: _ :: _ :: home :: _ => some (user, home)
    | _ => none

/-- The home directories of all accounts. -/
def accounts : IO (List (Text × Text)) := do
  try
    return homesOfAccounts (← IO.FS.readFile "/etc/passwd").toList
  catch _ => return []

/-- Writes the files that have changed. -/
def writeChanges (old new : FileTree) : IO Unit :=
  for (l, bytes) in new.files do
    if old.bytes? l ≠ some bytes then
      IO.FS.writeBinFile (Text.str (Path.ofLocation l).toText) ⟨bytes.toArray⟩

/-- Runs the program on the words of the command line, and gives the code
that the run ends with. -/
def runWords (args : List String) : IO UInt32 := do
  let words := args.map String.toList
  let current := locationOfName (← IO.currentDir).toString
  let site ← gather words []
    { platform := .standard, tree := { files := [], directories := [current] }, current
      others := ← accounts, env := ← environment }
  let ending := runOnCodePoints site words
  writeChanges site.tree ending.tree
  IO.print (Text.str ending.out)
  IO.eprint (Text.str ending.err)
  if let some b := ending.breakdown then
    IO.eprintln ("proplay: " ++ b.message)
  return ending.code.toUInt32

end PropertyFile.CommandLine

/-- The program. -/
def main (args : List String) : IO UInt32 := PropertyFile.CommandLine.runWords args
