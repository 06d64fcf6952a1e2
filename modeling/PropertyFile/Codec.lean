import PropertyFile.Text.Basic

/-!
# Codecs

A file holds bytes; a **codec** says which text they are, and as which
bytes a text is written. Which codecs there are, and by which names they
go, is not for this library to settle: what reads or writes a file is
given them as a function on names (`Codecs`), and what is said of it holds
for every such function.

A file may be written in pieces, and what a piece comes to may depend on
those before it: a byte order mark goes with the first one only, and some
codecs go on in the state in which the last piece left them. So a codec
says what the bytes of a text are behind other texts. Not every codec
keeps apart what it writes; one that does is **faithful**
(`Codec.IsFaithful`).
-/

namespace PropertyFile

/-- How texts are held as bytes. Where that fails, the codec says why. -/
structure Codec where
  /-- The text of bytes. -/
  decode : List UInt8 → Except String Text
  /-- The bytes of a text that is written behind other texts. -/
  encode : List Text → Text → Except String (List UInt8)

/-- **The codecs by their names**; of a name that none of them has, what is
said of it. -/
abbrev Codecs := Text → Except String Codec

/-- Why a name stands for no codec. -/
inductive EncodingFault where
  /-- No codec goes by it; what is said of it. -/
  | unknown (reason : String)
  /-- It holds the character U+0000, which no name can hold. -/
  | nullCharacter
deriving DecidableEq, Repr

/-- What is said of a fault. -/
def EncodingFault.message : EncodingFault → String
  | .unknown reason => reason
  | .nullCharacter => "embedded null character"

namespace Codec

/-- The bytes of texts written one after the other behind others, up to
the first one that has none, and what is said of that one. -/
def writeBehind (c : Codec) (before : List Text) : List Text → List UInt8 × Option String
  | [] => ([], none)
  | piece :: rest =>
    match c.encode before piece with
    | .error reason => ([], some reason)
    | .ok bytes =>
      let (later, fault) := c.writeBehind (before ++ [piece]) rest
      (bytes ++ later, fault)

/-- **The bytes of a file that is written in pieces.** A piece without
bytes ends the file before it. -/
def write (c : Codec) (pieces : List Text) : List UInt8 × Option String := c.writeBehind [] pieces

/-- Whether a text is written as bytes that are read as that text. -/
def Carries (c : Codec) (t : Text) : Prop :=
  ∃ bytes, c.encode [] t = .ok bytes ∧ c.decode bytes = .ok t

/-- Whether decoding undoes encoding. -/
def IsFaithful (c : Codec) : Prop :=
  ∀ t bytes, c.encode [] t = .ok bytes → c.decode bytes = .ok t

theorem IsFaithful.carries {c : Codec} (h : c.IsFaithful) {t : Text} {bytes : List UInt8}
    (ht : c.encode [] t = .ok bytes) : c.Carries t :=
  ⟨bytes, ht, h t bytes ht⟩

end Codec

end PropertyFile
