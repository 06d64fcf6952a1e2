import PropertyFile.LoadError

/-!
# Where included sources come from

A property file may include others. What a name means depends on the
sources that are open (`Sources.resolve`); the result is the canonical
name of a source, by which a source that is already open is recognized.
Only finitely many names can be opened (`Sources.names`), and since no
source is opened inside itself, including comes to an end: this is why
the promise `Sources.read_ok` is part of the type.

Two kinds of sources are provided: texts held in memory, with aliases,
and files of a tree, whose names are relative to the file that includes
them.
-/

namespace PropertyFile

/-- The sources that can be included. -/
structure Sources where
  /-- The canonical name of a source, given the names of the open ones,
  the outermost first. -/
  resolve : Text → List Text → Except PathFault Text
  /-- The names that can be opened. -/
  names : List Text
  /-- The text of a source. -/
  read : Text → Except SourceFault Text
  /-- Nothing else can be opened. -/
  read_ok : ∀ name text, read name = .ok text → name ∈ names

namespace Sources

/-- A text that may be denied. -/
abbrev Held := List (Text × Option Text)

/-- The text of a held source. Names are looked up as they are, and a
refusal repeats the name. -/
def readHeld (held : Held) (name : Text) : Except SourceFault Text :=
  match held.lookup name with
  | some (some text) => .ok text
  | _ => .error (.refused (Text.str name))

theorem mem_of_lookup {α κ : Type} [BEq κ] [LawfulBEq κ] {l : List (κ × α)} {key : κ} {a : α}
    (h : l.lookup key = some a) : key ∈ l.map Prod.fst := by
  induction l with
  | nil => simp at h
  | cons e rest ih =>
    rw [List.lookup_cons] at h
    split at h
    · next hk => simp [beq_iff_eq.1 hk]
    · simp [ih h]

theorem mem_of_readHeld {held : Held} {name text : Text} (h : readHeld held name = .ok text) :
    name ∈ held.map Prod.fst := by
  unfold readHeld at h
  split at h
  · next hl => exact mem_of_lookup hl
  · cases h

/-- **Sources held in memory.** A name with an alias stands for what the
alias says, any other name for itself. -/
def inMemory (held : Held) (aliases : List (Text × Text)) : Sources where
  resolve name _ := .ok ((aliases.lookup name).getD name)
  names := held.map Prod.fst
  read := readHeld held
  read_ok _ _ h := mem_of_readHeld h

/-- How the files of a tree are found and read. -/
structure FileOptions where
  /-- Where the program runs. -/
  current : Location
  /-- Where home directories are. -/
  homes : Path.Homes
  /-- The directory that names are relative to outside of any file. -/
  base : Option Path
  /-- The codecs that there are. -/
  codecs : Codecs
  /-- The name of the encoding of the files. -/
  encoding : Text

/-- The location a name leads to from the open sources: from the
directory of the innermost one, or from the base directory. -/
def locate (o : FileOptions) (name : Text) (stack : List Text) : Except PathFault Location := do
  let path ← (Path.ofText name).expandHome o.homes
  let base := match stack.getLast? with
    | some innermost => (Path.ofText innermost).parent
    | none => o.base.getD (Path.ofText [])
  (base.append path).resolve o.current

/-- The canonical name of the file at a location: its absolute path. -/
def fileName (l : Location) : Text := (Path.ofLocation l).toText

/-- The canonical names of all that can be opened in a tree. -/
def fileNames (tree : FileTree) : List Text :=
  (tree.files.map Prod.fst ++ tree.sinks).map fileName

/-- The text of the bytes of a source, in the encoding of the given
name. -/
def decodeBytes (codecs : Codecs) (encoding : Text) (bytes : List UInt8) :
    Except SourceFault Text :=
  match codecs encoding with
  | .error reason => .error (.encoding (.unknown reason))
  | .ok c => (c.decode bytes).mapError .undecodable

/-- The text of the file with a canonical name. -/
def readFile (tree : FileTree) (o : FileOptions) (name : Text) : Except SourceFault Text :=
  if o.encoding.contains '\x00' then .error (.encoding .nullCharacter)
  else
    match tree.read o.current (Path.ofText name) with
    | .error e => .error (.refused e.message)
    | .ok bytes =>
      if (fileNames tree).contains name then decodeBytes o.codecs o.encoding bytes
      else .error (.refused (FileError.mk .notFound name).message)

theorem mem_of_readFile {tree : FileTree} {o : FileOptions} {name text : Text}
    (h : readFile tree o name = .ok text) : name ∈ fileNames tree := by
  unfold readFile at h
  split at h
  · cases h
  · split at h
    · cases h
    · split at h
      · next hname => exact List.contains_iff_mem.1 hname
      · cases h

/-- **Sources that are the files of a tree.** Other names than canonical
ones open nothing. -/
def files (tree : FileTree) (o : FileOptions) : Sources where
  resolve name stack := (locate o name stack).map fileName
  names := fileNames tree
  read := readFile tree o
  read_ok _ _ h := mem_of_readFile h

end Sources

end PropertyFile
