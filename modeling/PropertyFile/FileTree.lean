import PropertyFile.OrderedMap
import PropertyFile.Path
import PropertyFile.Text.Quoted

/-!
# A tree of files

The files a program works on, as a value: the bytes of every file by
its location. A directory exists if it is listed, or if something lies
below it. What may be done with a file or a directory is its **mode**,
which is kept apart from what it holds: where nothing else is said,
everything may be done (`FileTree.mode`). Besides files there are **sinks**,
devices that hold nothing and lose what is written to them.

Following a path through the tree (`FileTree.walk`) meets the faults an
operating system reports, and in its order: every name but the last has
to lead to a directory that may be searched, no name may be longer than
255 bytes, and no path longer than 4095. Whether what lies there may be
read or written is a second question (`FileTree.read`,
`FileTree.writable`).
-/

namespace PropertyFile

/-- The faults of file access. -/
inductive FileFault where
  /-- Nothing lies there. -/
  | notFound
  /-- A file was expected and a directory lies there. -/
  | isDirectory
  /-- A directory was expected on the way. -/
  | notDirectory
  /-- A name on the way, or the whole path, is too long. -/
  | nameTooLong
  /-- Access is denied. -/
  | denied
deriving DecidableEq, Repr

/-- The number and the words by which a fault is known. -/
def FileFault.description : FileFault → Nat × String
  | .notFound => (2, "No such file or directory")
  | .denied => (13, "Permission denied")
  | .notDirectory => (20, "Not a directory")
  | .isDirectory => (21, "Is a directory")
  | .nameTooLong => (36, "File name too long")

/-- A fault of file access, with the path as it was given. -/
structure FileError where
  /-- What went wrong. -/
  fault : FileFault
  /-- The path that was to be opened. -/
  path : Text
deriving DecidableEq, Repr

/-- What is said of a fault of file access. -/
def FileError.message (e : FileError) : String :=
  let (number, words) := e.fault.description
  "[Errno " ++ toString number ++ "] " ++ words ++ ": " ++ Text.quoted e.path

/-- What may be done with a file or a directory. -/
structure Mode where
  /-- Whether it may be read. -/
  read : Bool := true
  /-- Whether a file may be written, and files be made in a directory. -/
  write : Bool := true
  /-- Whether paths may lead through a directory. -/
  search : Bool := true
deriving DecidableEq, Repr, Inhabited

/-- A tree of files and directories. -/
structure FileTree where
  /-- The bytes of the files. -/
  files : List (Location × List UInt8)
  /-- Directories, whether or not something lies in them. -/
  directories : List Location
  /-- Devices that hold nothing and lose what is written to them. -/
  sinks : List Location := []
  /-- What may be done where not everything may. -/
  modes : List (Location × Mode) := []
deriving DecidableEq, Repr, Inhabited

namespace FileTree

/-- What a path leads to. -/
inductive Target where
  /-- A file, by its location. -/
  | file (l : Location) (bytes : List UInt8)
  /-- A device that holds nothing. -/
  | sink (l : Location)
  /-- A directory. -/
  | directory (l : Location)
  /-- A place in a directory where nothing lies. -/
  | vacant (l : Location)
  /-- Nowhere. -/
  | fault (f : FileFault)
deriving DecidableEq, Repr

/-- What may be done with what lies at a location. -/
def mode (tree : FileTree) (l : Location) : Mode := (tree.modes.lookup l).getD {}

/-- Whether a directory lies at a location. -/
def isDirectory (tree : FileTree) (l : Location) : Bool :=
  l.isEmpty || tree.directories.any (l.isPrefixOf ·) ||
    tree.sinks.any (fun sink => l.isPrefixOf sink && l ≠ sink) ||
    tree.files.any fun (file, _) => l.isPrefixOf file && l ≠ file

/-- The bytes of the file at a location. -/
def bytes? (tree : FileTree) (l : Location) : Option (List UInt8) := tree.files.lookup l

/-- The number of bytes of a text. -/
def byteLength (t : Text) : Nat := t.foldl (fun n c => n + c.utf8Size) 0

/-- What names lead to from a location. -/
def walkFrom (tree : FileTree) (l : Location) : List Text → Target
  | [] =>
    match tree.bytes? l with
    | some bytes => .file l bytes
    | none =>
      if tree.sinks.contains l then .sink l
      else if tree.isDirectory l then .directory l
      else .vacant l
  | name :: rest =>
    if (tree.bytes? l).isSome || tree.sinks.contains l then .fault .notDirectory
    else if !tree.isDirectory l then .fault .notFound
    else if !(tree.mode l).search then .fault .denied
    else if 255 < byteLength name then .fault .nameTooLong
    else tree.walkFrom (Path.follow l [name]) rest

/-- **What a path leads to**, relative paths starting from `current`. -/
def walk (tree : FileTree) (current : Location) (p : Path) : Target :=
  if 4095 < byteLength p.toText then .fault .nameTooLong
  else tree.walkFrom (if p.isAbsolute then [] else current) p.names

/-- What is read where a path leads to. A directory that may be read can
be opened, but holds no bytes. -/
def contents (tree : FileTree) : Target → Except FileFault (List UInt8)
  | .file l bytes => if (tree.mode l).read then .ok bytes else .error .denied
  | .sink l => if (tree.mode l).read then .ok [] else .error .denied
  | .directory l => if (tree.mode l).read then .error .isDirectory else .error .denied
  | .vacant _ => .error .notFound
  | .fault f => .error f

/-- Where a file is written that a path leads to: at an existing file that
may be written, or at a vacant place in a directory that may be. -/
def outlet (tree : FileTree) : Target → Except FileFault Location
  | .file l _ | .sink l => if (tree.mode l).write then .ok l else .error .denied
  | .vacant l => if (tree.mode l.dropLast).write then .ok l else .error .denied
  | .directory _ => .error .isDirectory
  | .fault f => .error f

/-- **The bytes of the file at a path.** -/
def read (tree : FileTree) (current : Location) (p : Path) : Except FileError (List UInt8) :=
  (tree.contents (tree.walk current p)).mapError (⟨·, p.toText⟩)

/-- **Where a file at a path is written.** -/
def writable (tree : FileTree) (current : Location) (p : Path) : Except FileError Location :=
  (tree.outlet (tree.walk current p)).mapError (⟨·, p.toText⟩)

/-- The tree with the bytes of one file replaced, or with a new file. A
sink stays as it is. -/
def write (tree : FileTree) (l : Location) (bytes : List UInt8) : FileTree :=
  if (tree.bytes? l).isNone && tree.sinks.contains l then tree
  else { tree with files := OrderedMap.put l bytes tree.files }

end FileTree

end PropertyFile
