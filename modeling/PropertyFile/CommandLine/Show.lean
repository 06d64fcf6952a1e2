import PropertyFile.CommandLine.Access
import PropertyFile.Json
import PropertyFile.Toml.Printer

/-!
# Showing properties

The commands that change nothing and judge nothing: they show the values
of one key, all properties of a file, or the version of the program.
-/

namespace PropertyFile.CommandLine

/-- The version of the program. -/
def programVersion : Text := "0.1.0".toList

/-- **The version**, as text, JSON or TOML. -/
def versionMessages (verbose : Nat) : OutputFormat → List Message
  | .json => [.plain (Json.writeLine [("version".toList, programVersion)])]
  | .toml => [.block (Toml.write [("version".toList, some (.one programVersion))])]
  | .text =>
    if 0 < verbose then
      [.plain "PropLay version:".toList .heading,
        .line [⟨"    ".toList, ⟨[]⟩⟩, ⟨programVersion, .bold⟩]]
    else [.plain programVersion .bold]

/-- The message for a key that a file does not have. -/
def missingKey (p : Path) (key : Text) : Message :=
  .error (p.toText ++ ": no such property: ".toList ++ key)

/-- The messages that show the comment of a key, if more output was asked
for and there is one. -/
def commentMessages (verbose : Nat) (comment : Option Text) : List Message :=
  match verbose, comment with
  | 0, _ | _, none | _, some [] => []
  | _, some comment => [.plain comment .dim]

/-- **The values of a key**, a line each; with more output its comment
comes first. -/
def runGet (s : Scene) (p : Path) (key : Text) (c : ConfigChoice) : Step Outcome := do
  let settings ← s.settings c p
  let st ← s.loadStore settings true p
  match st.values.get? key with
  | none =>
    .report (missingKey p key)
    return .failure
  | some vs =>
    .reportAll (commentMessages s.verbose (st.layout.canonicalComment key false))
    .reportAll (vs.map fun v => .plain v)
    return .success

/-- The messages that show the values of a store. -/
def dumpMessages (values : Values) : OutputFormat → List Message
  | .json => [.plain (Json.write (values.entries.map fun (key, vs) => (key, .ofTexts vs)))]
  | .toml => [.block (Toml.write (values.entries.map fun (key, vs) => (key, some (.ofTexts vs))))]
  | .text => values.entries.flatMap fun (key, vs) =>
      vs.map fun v => .line [⟨key, .bold⟩, ⟨" = ".toList ++ v, ⟨[]⟩⟩]

/-- **All properties**, as text, JSON or TOML. -/
def runDump (s : Scene) (p : Path) (format : OutputFormat) (c : ConfigChoice) : Step Outcome := do
  let settings ← s.settings c p
  let st ← s.loadStore settings true p
  .reportAll (dumpMessages st.values format)
  return .success

end PropertyFile.CommandLine
