import PropertyFile.Text.Basic

/-!
# Paths

A path is a root, or none, and the names below it. Reading a path drops
what has no meaning in it — repeated slashes, a slash at the end and
names consisting of one dot — but keeps the names `..`, since only the
files themselves tell where they lead. `Path.resolve` makes a path
absolute and takes each `..` as the way back; that is right wherever no
directory is a link to another place.
-/

namespace PropertyFile

/-- The path of a file or directory. -/
structure Path where
  /-- The slashes at the start: none for a relative path, else one, or
  two where exactly two were written. -/
  slashes : Nat
  /-- The names in order, none of them empty or a single dot. -/
  names : List Text
deriving DecidableEq, Repr

/-- The names from the root of all files to a file or directory, with
every `..` already taken back. -/
abbrev Location := List Text

/-- Why a path leads nowhere. -/
inductive PathFault where
  /-- It starts at the home directory of an unknown user. -/
  | noHome
  /-- It holds the character U+0000, which no name can hold. -/
  | nullCharacter
deriving DecidableEq, Repr

/-- What is said of a fault. -/
def PathFault.message : PathFault → String
  | .noHome => "Could not determine home directory."
  | .nullCharacter => "embedded null byte"

namespace Path

/-- The name that leads to the directory above. -/
def parentName : Text := ['.', '.']

/-- The path written by a text. -/
def ofText (t : Text) : Path :=
  { slashes := match (t.takeWhile (· == '/')).length with
      | 0 => 0
      | 2 => 2
      | _ => 1
    names := (Text.splitOn '/' t).filter fun name => name ≠ [] && name ≠ ['.'] }

/-- The path as it is written; the empty relative path is a dot. -/
def toText (p : Path) : Text :=
  if p.slashes = 0 && p.names.isEmpty then ['.']
  else List.replicate p.slashes '/' ++ Text.joinWith ['/'] p.names

/-- Whether a path starts at the root. -/
def isAbsolute (p : Path) : Bool := p.slashes != 0

/-- The last name; empty where there is none. -/
def name (p : Path) : Text := p.names.getLast?.getD []

/-- The path without its last name. -/
def parent (p : Path) : Path := { p with names := p.names.dropLast }

/-- One path behind another; an absolute one stands for itself. -/
def append (p q : Path) : Path :=
  if q.isAbsolute then q else { p with names := p.names ++ q.names }

/-- The absolute path to a location. -/
def ofLocation (l : Location) : Path := { slashes := 1, names := l }

/-- The location reached from another one through names, each `..` one
step back. At the root a step back stays there. -/
def follow (start : Location) (names : List Text) : Location :=
  names.foldl (fun l name => if name = parentName then l.dropLast else l ++ [name]) start

/-- **The location of a path**, relative paths starting from `current`. -/
def resolve (current : Location) (p : Path) : Except PathFault Location :=
  if p.names.any fun name => name.contains '\x00' then .error .nullCharacter
  else .ok (follow (if p.isAbsolute then [] else current) p.names)

/-- The home directories that are known. -/
structure Homes where
  /-- That of the user who runs the program. -/
  own : Option Text
  /-- Those of other users, by name. -/
  others : List (Text × Text)
deriving DecidableEq, Repr

/-- The home directory that a name starting with a tilde stands for. -/
def Homes.find? (homes : Homes) (user : Text) : Option Text :=
  if user.isEmpty then homes.own else homes.others.lookup user

/-- The path with a tilde at its start, and the name of a user behind
it, replaced by the home directory. -/
def expandHome (homes : Homes) (p : Path) : Except PathFault Path :=
  match p.isAbsolute, p.names with
  | false, ('~' :: user) :: rest =>
    match homes.find? user with
    | none => .error .noHome
    | some home => .ok ((ofText home).append { slashes := 0, names := rest })
  | _, _ => .ok p

end Path

end PropertyFile
