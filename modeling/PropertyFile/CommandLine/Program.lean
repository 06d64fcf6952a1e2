import PropertyFile.CommandLine.Execution
import PropertyFile.CommandLine.Invocation

/-!
# A run of the program

`run` reads the words of a command line, which may come to nothing: help
is asked for, or something is wrong with them. Otherwise it carries out
what they ask for.
-/

namespace PropertyFile.CommandLine

/-- The code of a run whose words are misused. -/
def misuseCode : Nat := 2

/-- What the program prints if it is given no command. -/
def hint : List Message := [
  .plain "Hint: use 'proplay check FILE...' to verify that files round-trip.".toList, .plain []]

/-- The end of a run whose words are not followed. -/
def RunEnding.ofRefusal (tree : FileTree) (color : Bool) (verb : Option Verb) : Refusal → RunEnding
  | .help => { tree, out := (usage verb).toList ++ ['\n'], code := Outcome.success.code }
  | .misuse m =>
    { tree, err := Look.cleaned ⟨color, 0⟩ (m.report verb).toList, code := misuseCode }
  | .path f => { tree, code := Outcome.failure.code, breakdown := some (.path f) }

/-- **A run of the program.** -/
def run (site : Site) (words : List Text) : RunEnding :=
  let refused := RunEnding.ofRefusal site.tree
  match Shared.ofWords site.tree site.current words with
  | .error r => refused false none r
  | .ok (shared, []) =>
    shared.start site fun k =>
      { tree := site.tree, out := printed k .out hint ++ (usage none).toList ++ ['\n']
        code := Outcome.success.code }
  | .ok (shared, name :: rest) =>
    match findVerb site.tree site.current name rest with
    | .error r => refused false none r
    | .ok verb =>
      match Command.ofWords site.tree site.current verb rest with
      | .error r => shared.start site fun k => refused k.color (some verb) r
      | .ok command => Invocation.run site { shared, command }

end PropertyFile.CommandLine
