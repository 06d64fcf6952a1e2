import PropertyFile.Store.Load

/-!
# Loading and saving files

A store is loaded from a file of a tree and saved to one. Loading goes
by the absolute path of the file, which becomes the first of the open
sources, so that a file that includes itself is found out.

Saving opens the file first and then writes it piece by piece, a line or
a line break at a time. What goes wrong after the file was opened leaves
it with the pieces written so far.
-/

namespace PropertyFile

/-- Why a file cannot be written. -/
inductive SaveError where
  /-- It cannot be opened. -/
  | file (e : FileError)
  /-- Its path is none. -/
  | path (f : PathFault)
  /-- A text has no bytes in its encoding; what the codec says of it. -/
  | unencodable (reason : String)
  /-- Its encoding is none. -/
  | encoding (f : EncodingFault)
deriving DecidableEq, Repr

/-- What is said of a file that cannot be written. -/
def SaveError.message : SaveError → String
  | .file e => e.message
  | .path f => f.message
  | .unencodable reason => reason
  | .encoding f => f.message

namespace FileTree

/-- **The bytes of a file to be read as text.** -/
def readBytes (tree : FileTree) (current : Location) (p : Path) : Except LoadError (List UInt8) :=
  if p.toText.contains '\x00' then .error (.path .nullCharacter)
  else (tree.read current p).mapError .file

/-- The text of bytes, in the encoding of the given name. -/
def textOfBytes (codecs : Codecs) (encoding : Text) (bytes : List UInt8) : Except LoadError Text :=
  match codecs encoding with
  | .error reason => .error (.encoding (.unknown reason))
  | .ok c => (c.decode bytes).mapError .undecodable

/-- **The text of a file.** A name that can be none of an encoding is
found out first, one that no codec has when the file is open. -/
def readText (codecs : Codecs) (tree : FileTree) (current : Location) (p : Path)
    (encoding : Text) : Except LoadError Text :=
  if encoding.contains '\x00' then .error (.encoding .nullCharacter)
  else (tree.readBytes current p).bind (textOfBytes codecs encoding)

/-- **Writing a file in pieces.** The tree is returned also where the
writing fails, as it is then. -/
def writeText (codecs : Codecs) (tree : FileTree) (current : Location) (p : Path)
    (encoding : Text) (pieces : List Text) : Except SaveError Unit × FileTree :=
  if encoding.contains '\x00' then (.error (.encoding .nullCharacter), tree)
  else if p.toText.contains '\x00' then (.error (.path .nullCharacter), tree)
  else
    match tree.writable current p with
    | .error e => (.error (.file e), tree)
    | .ok l =>
      match codecs encoding with
      | .error reason => (.error (.encoding (.unknown reason)), tree.write l [])
      | .ok c =>
        let (bytes, fault) := c.write pieces
        (match fault with
          | some reason => .error (.unencodable reason)
          | none => .ok (), tree.write l bytes)

end FileTree

namespace Store

/-- **Loading a file into the store.** -/
def loadFile (codecs : Codecs) (st : Store) (src : Sources) (tree : FileTree) (current : Location)
    (p : Path) : Except LoadError Unit × Store × List Notice :=
  match p.resolve current with
  | .error f => (.error (.path f), st, [])
  | .ok l =>
    let absolute := Path.ofLocation l
    match tree.readText codecs current absolute st.options.encoding with
    | .error e => (.error e, st, [])
    | .ok t => st.read src (some absolute.toText) t

/-- **Saving the store to a file.** -/
def saveFile (codecs : Codecs) (st : Store) (tree : FileTree) (current : Location) (p : Path) :
    Except SaveError Unit × FileTree :=
  tree.writeText codecs current p st.options.encoding st.pieces

end Store

end PropertyFile
