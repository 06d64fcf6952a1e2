import PropertyFile.Codec
import PropertyFile.FileTree
import PropertyFile.Reading

/-!
# Why loading fails

Loading a text, with all that it includes, stops at the first thing
that goes wrong. The causes are kept apart, with what is needed to name
them; their wording is in `LoadError.message`.
-/

namespace PropertyFile

/-- A malformed text. -/
structure ParseError where
  /-- Where it is malformed. -/
  place : Place
  /-- What is wrong there. -/
  fault : ReadFault
deriving DecidableEq, Repr

/-- What is said of a malformed text. -/
def ParseError.message (e : ParseError) : String := e.place.message e.fault.message

/-- Why a source cannot be read. -/
inductive SourceFault where
  /-- It cannot be opened; an optional source may be skipped for this. -/
  | refused (reason : String)
  /-- Its bytes are no text; what the codec says of them. -/
  | undecodable (reason : String)
  /-- The encoding it is to be read in is none. -/
  | encoding (f : EncodingFault)
deriving DecidableEq, Repr

/-- Why loading stops. -/
inductive LoadError where
  /-- A text is malformed. -/
  | parse (e : ParseError)
  /-- A source includes itself: its name, and the sources that are open,
  the outermost first. -/
  | cycle (name : Text) (stack : List Text)
  /-- A source that has to be there cannot be opened. -/
  | notFound (name : Text) (reason : String)
  /-- The file to load cannot be opened. -/
  | file (e : FileError)
  /-- The name of a source is no path. -/
  | path (f : PathFault)
  /-- The bytes of a source are no text; what the codec says of them. -/
  | undecodable (reason : String)
  /-- The encoding of sources is none. -/
  | encoding (f : EncodingFault)
deriving DecidableEq, Repr

/-- What is said of a cycle. -/
def cycleMessage (name : Text) (stack : List Text) : String :=
  "Include cycle detected: " ++ String.intercalate " -> " ((stack ++ [name]).map Text.str)

/-- What is said of a source that cannot be opened, with the reason if
there is one. -/
def notFoundMessage (name : Text) (reason : String) : String :=
  "Cannot open included source " ++ Text.quoted name ++
    (if reason.isEmpty then "" else ": " ++ reason)

/-- What is said when loading stops. -/
def LoadError.message : LoadError → String
  | .parse e => e.message
  | .cycle name stack => cycleMessage name stack
  | .notFound name reason => notFoundMessage name reason
  | .file e => e.message
  | .path f => f.message
  | .undecodable reason => reason
  | .encoding f => f.message

end PropertyFile
