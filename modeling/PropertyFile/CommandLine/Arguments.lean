import PropertyFile.Diff.Matching
import PropertyFile.Text.CaseFold
import PropertyFile.Text.Quoted

/-!
# Arguments

The words of a command line are options and other arguments. An option
has a **long name** behind two hyphens, and perhaps a **letter** behind
one; several letters may share a hyphen. An option may want a value:
the rest of the word behind an equals sign, or else the next word.
Two hyphens alone end the options.

`Arguments.ofWords` sorts the words of a command line, given the options
that are known. Everything it, or a command, may find wrong with them is
a `Misuse`.
-/

namespace PropertyFile.CommandLine

/-! ## Options -/

/-- What an option wants. -/
inductive Demand where
  /-- Nothing: it is there or not. -/
  | nothing
  /-- Any text. -/
  | text
  /-- One of some names, in any case of the letters. -/
  | choice (names : List String)
  /-- The path of a file that exists. -/
  | file
deriving DecidableEq, Repr

/-- An option. Letters stand only for options that want nothing. -/
structure Switch where
  /-- Its long name, with the hyphens. -/
  name : String
  /-- The letter that stands for it. -/
  letter? : Option Char := none
  /-- What it wants. -/
  demand : Demand := .nothing
deriving DecidableEq, Repr

/-! ## Misuse -/

/-- What may be wrong with the words of a command line. -/
inductive Misuse where
  /-- There is no option of a name, but there are similar ones. -/
  | unknownOption (name : Text) (similar : List Text)
  /-- An option stands at the end, without the value it wants. -/
  | valueMissing (option : Text)
  /-- An option has a value and wants none. -/
  | valueUnwanted (option : Text)
  /-- A value is none of the names that an option admits. -/
  | badChoice (option : String) (given : Text) (names : List String)
  /-- The file that an option wants does not exist. -/
  | fileMissing (option : String) (given : Text)
  /-- A directory stands for the file that an option wants. -/
  | fileIsDirectory (option : String) (given : Text)
  /-- What lies at a path, which stands for an option or at a place, may not
  be read. -/
  | unreadable (place kind : String) (given : Text)
  /-- An argument is missing. -/
  | argumentMissing (place : String)
  /-- There are more arguments than places for them. -/
  | extraArguments (extra : List Text)
  /-- There is no command of a name, but there are similar ones. -/
  | unknownCommand (name : Text) (similar : List Text)
deriving DecidableEq, Repr

namespace Misuse

/-- The question that follows an unknown name. -/
def suggestion : List Text → String
  | [] => ""
  | [name] => " Did you mean " ++ Text.quoted name ++ "?"
  | names => " (Did you mean one of: " ++ String.intercalate ", " (names.map Text.quoted) ++ "?)"

/-- What is said of a value that an option does not admit. -/
def badValue (option reason : String) : String :=
  "Invalid value for '" ++ option ++ "': " ++ reason

/-- **What is said of a misuse.** -/
def message : Misuse → String
  | unknownOption name similar => "No such option " ++ Text.quoted name ++ "." ++ suggestion similar
  | valueMissing option => "Option " ++ Text.quoted option ++ " requires an argument."
  | valueUnwanted option => "Option " ++ Text.quoted option ++ " does not take a value."
  | badChoice option given names =>
    badValue option (Text.quoted given ++ " is not one of " ++
      String.intercalate ", " (names.map fun name => Text.quoted name.toList) ++ ".")
  | fileMissing option given =>
    badValue option ("File " ++ Text.quoted given ++ " does not exist.")
  | fileIsDirectory option given =>
    badValue option ("File " ++ Text.quoted given ++ " is a directory.")
  | unreadable place kind given =>
    badValue place (kind ++ " " ++ Text.quoted given ++ " is not readable.")
  | argumentMissing place => "Missing argument '" ++ place ++ "'."
  | extraArguments [one] => "Got unexpected extra argument (" ++ Text.str one ++ ")"
  | extraArguments extra =>
    "Got unexpected extra arguments (" ++ Text.str (Text.joinWith [' '] extra) ++ ")"
  | unknownCommand name similar =>
    "No such command " ++ Text.quoted name ++ "." ++ suggestion similar

/-- Whether the message is preceded by the usage of the command. It is
not where a value is missing or unwanted. -/
def showsUsage : Misuse → Bool
  | valueMissing _ | valueUnwanted _ => false
  | _ => true

end Misuse

/-- The three names that are most similar to a given one, of those that
have at least three fifths in common with it, in alphabetic order. -/
def similarNames (given : Text) (names : List Text) : List Text :=
  let measured := names.map fun name => (name, Diff.similarity name given)
  let near := measured.filter fun (_, common, all) => 3 * all ≤ 5 * common
  let before (a b : Text × Nat × Nat) : Bool :=
    let left := a.2.1 * b.2.2
    let right := b.2.1 * a.2.2
    right < left || (left == right && !(Text.str a.1 < Text.str b.1))
  (((near.mergeSort before).take 3).map Prod.fst).mergeSort fun a b => !(Text.str b < Text.str a)

/-! ## Reading the words -/

/-- The words of a command line, sorted. -/
structure Arguments where
  /-- The options in order, each with its value; one that wants nothing
  has the empty text. -/
  options : List (String × Text) := []
  /-- The other arguments in order. -/
  others : List Text := []
deriving DecidableEq, Repr

/-- What a single word is. -/
inductive Word where
  /-- The end of the options. -/
  | fence
  /-- An argument. -/
  | plain
  /-- Options that want nothing. -/
  | switches (names : List String)
  /-- An option that wants a value, perhaps with it. -/
  | setting (name : String) (value : Option Text)
deriving DecidableEq, Repr

namespace Word

/-- A word cut at its first equals sign, if it has one. -/
def cut (word : Text) : Text × Option Text :=
  let name := word.takeWhile (· != '=')
  (name, if name.length < word.length then some (word.drop (name.length + 1)) else none)

/-- The options that letters stand for. -/
def ofLetters (known : List Switch) : List Char → Except Misuse (List String)
  | [] => .ok []
  | c :: rest => do
    match known.find? fun s => s.letter? = some c with
    | none => .error (.unknownOption ['-', c] [])
    | some s => return s.name :: (← ofLetters known rest)

/-- A word that begins with a hyphen and has more than that. A whole
name comes before letters; what begins with two hyphens has to be a
name. -/
def ofOption (known : List Switch) (word : Text) : Except Misuse Word :=
  let (name, value) := cut word
  match known.find? fun s => s.name.toList = name with
  | some s =>
    if s.demand ≠ .nothing then .ok (.setting s.name value)
    else if value.isSome then .error (.valueUnwanted name)
    else .ok (.switches [s.name])
  | none =>
    match word with
    | '-' :: '-' :: _ =>
      .error (.unknownOption name (similarNames name (known.map (·.name.toList))))
    | _ => (ofLetters known (word.drop 1)).map .switches

/-- **What a word is**, given the options that are known. -/
def ofText (known : List Switch) (word : Text) : Except Misuse Word :=
  match word with
  | ['-', '-'] => .ok .fence
  | '-' :: _ :: _ => ofOption known word
  | _ => .ok .plain

end Word

namespace Arguments

/-- The arguments with options in front. -/
def withOptions (names : List (String × Text)) (a : Arguments) : Arguments :=
  { a with options := names ++ a.options }

/-- The arguments with another one in front. -/
def withOther (word : Text) (a : Arguments) : Arguments := { a with others := word :: a.others }

/-- **The words of a command line, sorted.** If options must stand in
front (`mixed = false`), the first other argument ends them. -/
def ofWords (known : List Switch) (mixed : Bool) : List Text → Except Misuse Arguments
  | [] => .ok {}
  | word :: rest =>
    match Word.ofText known word with
    | .error m => .error m
    | .ok .fence => .ok { others := rest }
    | .ok .plain =>
      if mixed then (ofWords known mixed rest).map (withOther word)
      else .ok { others := word :: rest }
    | .ok (.switches names) =>
      (ofWords known mixed rest).map (withOptions (names.map fun name => (name, [])))
    | .ok (.setting name (some value)) =>
      (ofWords known mixed rest).map (withOptions [(name, value)])
    | .ok (.setting name none) =>
      match rest with
      | [] => .error (.valueMissing name.toList)
      | value :: rest => (ofWords known mixed rest).map (withOptions [(name, value)])

/-- Whether an option is there. -/
def has (a : Arguments) (name : String) : Bool := a.options.any fun e => e.1 == name

/-- How often an option is there. -/
def count (a : Arguments) (name : String) : Nat := a.options.countP fun e => e.1 == name

/-- The value of an option; of several the last one counts. -/
def value? (a : Arguments) (name : String) : Option Text := a.options.reverse.lookup name

/-- The option among named ones that the value of an option names. -/
def choice {α : Type} (a : Arguments) (name : String) (all : List (String × α)) (default : α) : α :=
  ((a.value? name).bind fun given =>
    (all.find? fun e => Text.caseFold e.1.toList == Text.caseFold given).map Prod.snd).getD default

/-- The names of the options in the order in which they first occur. -/
def names (a : Arguments) : List String :=
  a.options.foldl (fun names e => if names.contains e.1 then names else names ++ [e.1]) []

end Arguments

end PropertyFile.CommandLine
