import PropertyFile.CodePoint.Bytes
import PropertyFile.CodePoint.Store
import PropertyFile.CommandLine.Program

/-!
# Checking files that hold halves

A run works on texts of characters. A check needs less of a text than
other commands do, and can as well be made of one that holds halves of
surrogate pairs: of a single file, in an encoding that writes code points
by their numbers, with settings that are plain in all else. A run that
asks for this is `runOnCodePoints`; any other is the usual one.
-/

namespace PropertyFile

/-- Whether stores and layouts are plain, as the settings want them;
directives do not matter. -/
def Settings.isPlain (s : Settings) : Bool :=
  s.listDelimiter.isNone && s.separator.isNone && !s.forceSingleLine &&
    s.lineSeparator = .auto && s.keepTrailingBlankLines

namespace CommandLine

/-! ## Verdicts -/

/-- **The verdict on a text that may hold halves**, that of the given
source. -/
def Verdict.ofCodeText (source : Text) (ascii : Bool) (held : CodeText) : Verdict :=
  match (CodeReading.ofText held).ending, CodeStore.read ascii held with
  | .failed _ fault line, _ =>
    .faulty ⟨.encodingError, (Place.message ⟨some source, some line⟩ fault.message).toList⟩
  | .complete _, st =>
    let saved := (st.map CodeStore.toText).getD []
    if held = saved then .passed else .differs held.shape saved.shape

/-- The verdict on bytes that write code points, those of the file at a
path. -/
def Verdict.ofCodeBytes (p : Path) (source : Text) (ascii : Bool) (bytes : List UInt8) : Verdict :=
  match CodeText.ofBytes bytes with
  | .error e => .faulty ⟨.encodingError, textFaultMessage p e.message⟩
  | .ok held => .ofCodeText source ascii held

/-- The verdict on a file that is read as code points; none if it is not
to be read so. -/
def Verdict.ofCodeFile? (s : Scene) (settings : Settings) (p : Path) : Option Verdict := do
  guard (CodeText.isEncoding settings.encoding && settings.isPlain)
  let bytes ← (s.tree.readBytes s.current p).toOption
  let l ← (p.resolve s.current).toOption
  return .ofCodeBytes p (Path.ofLocation l).toText settings.escapeUnicode bytes

/-! ## Runs -/

/-- The check of a single file that is read as code points; none if a
command asks for anything else. -/
def Command.checkOnCodePoints? (s : Scene) : Command → Option (Step Outcome)
  | .check [p] c => do
    let v ← (s.settings c p).result.toOption.bind fun settings =>
      Verdict.ofCodeFile? s settings p
    return do
      let _ ← s.settings c p
      .reportAll (v.messages s.verbose p)
      concluded [v]
  | _ => none

/-- What words ask for, if it is a command and can be followed. -/
def Invocation.ofWords? (tree : FileTree) (current : Location) (words : List Text) :
    Option Invocation := do
  let (shared, words) ← (Shared.ofWords tree current words).toOption
  let name ← words.head?
  let verb ← (findVerb tree current name words.tail).toOption
  let command ← (Command.ofWords tree current verb words.tail).toOption
  return { shared, command }

/-- **A run of the program**, on code points where that is asked for. -/
def runOnCodePoints (site : Site) (words : List Text) : RunEnding :=
  let check? := (Invocation.ofWords? site.tree site.current words).bind fun i =>
    (i.command.checkOnCodePoints? (site.scene i.shared)).map fun x =>
      i.shared.start site fun k => .ofStep k site.tree x
  check?.getD (run site words)

end CommandLine

end PropertyFile
