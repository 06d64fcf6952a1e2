import PropertyFile.CommandLine.Program

/-!
# What a run looks at

A run works on a tree of files that is given as a value. Which files
have to be in it follows from the words of the command line, and from
what lies in the files already known: `wanted` lists the locations that
a run may ask for beyond them. Once everything that is wanted is known,
the run on the tree is the run on the files themselves.
-/

namespace PropertyFile.CommandLine

section
variable (s : Scene)

/-- The location of a path, if it has one. -/
def locationOf (p : Path) : List Location :=
  match p.resolve s.current with
  | .ok l => [l]
  | .error _ => []

/-- Where the configuration file for a path may lie. -/
def configLocations (p : Path) : List Location :=
  (locationOf s p).flatMap fun l =>
    (Settings.upwards l).flatMap fun directory =>
      [directory ++ [Settings.fileName], directory ++ [Settings.projectFileName]]

/-- The locations that a choice of settings may lead to. -/
def choiceLocations (p : Path) : ConfigChoice → List Location
  | .none => []
  | .file given => locationOf s (Path.ofText given)
  | .nearest => configLocations s p

/-- The locations that the directives of a file lead to. -/
def includedLocations (settings : Settings) (file : Location × List UInt8) : List Location :=
  match FileTree.textOfBytes s.platform.codecs settings.encoding file.2 with
  | .error _ => []
  | .ok t =>
    let src := s.sources settings
    let options := (settings.newStore none).options
    let lines := (PhysicalLines.ofText t).lines
    let properties := (Reading.ofLines (ListDelimiter.kept options.delimiter) lines).properties
    (properties.filter fun p => (options.directive? p.key).isSome).flatMap fun p =>
      (ListDelimiter.split options.delimiter true p.value).flatMap fun name =>
        match src.resolve name [Sources.fileName file.1] with
        | .ok target => locationOf s (Path.ofText target)
        | .error _ => []

/-- The locations wanted for a file and the settings that count for it;
where directives are followed, with those that known files include. -/
def fileLocations (followIncludes : Bool) (c : ConfigChoice) (p : Path) : List Location :=
  locationOf s p ++ choiceLocations s p c ++
    match followIncludes, (s.settings c p).result with
    | true, .ok settings => s.tree.files.flatMap (includedLocations s settings)
    | _, _ => []

/-- **The locations that a command may ask for.** -/
def Command.wanted : Command → List Location
  | .version _ => []
  | .get p _ c | .dump p _ c => fileLocations s true c p
  | .edit p _ _ c => fileLocations s false c p
  | .check ps c => ps.flatMap (fileLocations s false c)

end

/-- The locations that a refusal may be due to: a file that is not known
yet may be missing for that reason alone. -/
def Refusal.wanted (s : Scene) : Refusal → List Location
  | .misuse (.fileMissing _ given) => locationOf s (Path.ofText given)
  | _ => []

/-- **The locations that a run may ask for**, by what is known. -/
def wanted (site : Site) (words : List Text) : List Location :=
  let s := site.scene {}
  match Shared.ofWords site.tree site.current words with
  | .error r => r.wanted s
  | .ok (_, []) => []
  | .ok (_, name :: rest) =>
    match Verb.ofName? name with
    | none => []
    | some verb =>
      match Command.ofWords site.tree site.current verb rest with
      | .error r => r.wanted s
      | .ok command => command.wanted s

end PropertyFile.CommandLine
