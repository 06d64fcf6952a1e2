import PropertyFile.Codec
import PropertyFile.Text.Hex

/-!
# The encodings of the program

The program brings four codecs with it: UTF-8, UTF-8 with a byte order
mark, and the two that take one byte for a character. Reading reports the
first stretch of bytes that is no character, writing the first stretch of
characters without bytes, both with their positions (`DecodeError`,
`EncodeError`). Configuration files are UTF-8 in any case.

In UTF-8 a fault covers the bytes up to the one that cannot follow: the
lead byte alone, or the lead byte with the continuation bytes that are
still in order.
-/

namespace PropertyFile

/-- The encodings of files. -/
inductive Encoding where
  /-- UTF-8. -/
  | utf8
  /-- UTF-8 behind a byte order mark: written always, skipped if there. -/
  | utf8Marked
  /-- One byte for each of the first 256 characters. -/
  | latin1
  /-- One byte for each of the first 128 characters. -/
  | ascii
deriving DecidableEq, Repr, Inhabited

/-- Bytes that are no text in an encoding. -/
structure DecodeError where
  /-- The name of the encoding. -/
  codec : String
  /-- The byte at the start of the fault. -/
  byte : UInt8
  /-- The position of that byte. -/
  first : Nat
  /-- How many bytes the fault covers, at least one. -/
  count : Nat
  /-- What is wrong with them. -/
  reason : String
deriving DecidableEq, Repr

/-- What is said of bytes that are no text. -/
def DecodeError.message (e : DecodeError) : String :=
  "'" ++ e.codec ++ "' codec can't decode " ++
    (if e.count ≤ 1 then
      "byte 0x" ++ Text.str (Text.hex 2 e.byte.toNat) ++ " in position " ++ toString e.first
    else
      "bytes in position " ++ toString e.first ++ "-" ++ toString (e.first + e.count - 1)) ++
    ": " ++ e.reason

/-- A text that has no bytes in an encoding. -/
structure EncodeError where
  /-- The name of the encoding. -/
  codec : String
  /-- The character at the start of the fault. -/
  char : Char
  /-- The position of that character. -/
  first : Nat
  /-- How many characters the fault covers, at least one. -/
  count : Nat
  /-- What is wrong with them. -/
  reason : String
deriving DecidableEq, Repr

/-- What is said of a text without bytes. -/
def EncodeError.message (e : EncodeError) : String :=
  "'" ++ e.codec ++ "' codec can't encode " ++
    (if e.count ≤ 1 then
      "character '" ++ Text.str (Text.codePointEscape e.char) ++ "' in position " ++
        toString e.first
    else
      "characters in position " ++ toString e.first ++ "-" ++ toString (e.first + e.count - 1)) ++
    ": " ++ e.reason

namespace Encoding

/-! ## Names -/

/-- A name of an encoding without regard to case and punctuation: capital
letters become small, every run of characters other than letters, digits
and dots becomes one underscore, and none is left at the ends. -/
def normalizeName (name : Text) : Text :=
  let parts := name.splitBy fun c d => isPlain c == isPlain d
  Text.joinWith ['_'] ((parts.filter fun part => part.all isPlain).map (List.map Char.toLower))
where
  /-- Letters, digits and dots. -/
  isPlain (c : Char) : Bool := c.isAlphanum || c == '.'

/-- The encodings with the names they go by. -/
def names : List (Encoding × List String) := [
  (.utf8, ["utf_8", "utf8", "u8", "utf", "cp65001", "utf8_ucs2", "utf8_ucs4"]),
  (.utf8Marked, ["utf_8_sig"]),
  (.latin1, ["latin_1", "latin1", "latin", "l1", "8859", "cp819", "csisolatin1", "ibm819",
    "iso8859", "iso8859_1", "iso_8859_1", "iso_8859_1_1987", "iso_ir_100"]),
  (.ascii, ["ascii", "us_ascii", "us", "646", "ansi_x3.4_1968", "ansi_x3_4_1968",
    "ansi_x3.4_1986", "cp367", "csascii", "ibm367", "iso646_us", "iso_646.irv_1991",
    "iso_ir_6"])]

/-- The encoding of a name. -/
def ofName? (name : Text) : Option Encoding :=
  (names.find? fun e => e.2.any fun known => known.toList == normalizeName name).map Prod.fst

/-! ## Reading -/

/-- The number of bytes that a lead byte announces, and the range of the
byte behind it. -/
def leadByte? (b : Nat) : Option (Nat × Nat × Nat) :=
  if 0xc2 ≤ b && b ≤ 0xdf then some (2, 0x80, 0xbf)
  else if b == 0xe0 then some (3, 0xa0, 0xbf)
  else if b == 0xed then some (3, 0x80, 0x9f)
  else if 0xe1 ≤ b && b ≤ 0xef then some (3, 0x80, 0xbf)
  else if b == 0xf0 then some (4, 0x90, 0xbf)
  else if 0xf1 ≤ b && b ≤ 0xf3 then some (4, 0x80, 0xbf)
  else if b == 0xf4 then some (4, 0x80, 0x8f)
  else none

/-- Whether a byte continues a character. -/
def isTail (b : UInt8) : Bool := 0x80 ≤ b.toNat && b.toNat ≤ 0xbf

/-- The fault of `count` bytes from position `first` on. -/
def utf8Fault (byte : UInt8) (first count : Nat) (reason : String) : DecodeError :=
  { codec := "utf-8", byte, first, count, reason }

/-- What is wrong with a byte that starts no character. -/
def invalidStart : String := "invalid start byte"

/-- What is wrong with bytes that another byte should have followed. -/
def invalidContinuation : String := "invalid continuation byte"

/-- What is wrong with bytes at the end that announce more. -/
def unexpectedEnd : String := "unexpected end of data"

/-- The six low bits of a continuation byte. -/
def tailBits (b : UInt8) : Nat := b.toNat - 0x80

/-- The text of UTF-8 bytes, the first of them at position `pos`. -/
def decodeUtf8 (pos : Nat) : List UInt8 → Except DecodeError Text
  | [] => .ok []
  | b₀ :: rest₀ =>
    if b₀.toNat < 0x80 then
      (decodeUtf8 (pos + 1) rest₀).map (Char.ofNat b₀.toNat :: ·)
    else
      match leadByte? b₀.toNat with
      | none => .error (utf8Fault b₀ pos 1 invalidStart)
      | some (size, low, high) =>
        match rest₀ with
        | [] => .error (utf8Fault b₀ pos 1 unexpectedEnd)
        | b₁ :: rest₁ =>
          if b₁.toNat < low || high < b₁.toNat then
            .error (utf8Fault b₀ pos 1 invalidContinuation)
          else if size = 2 then
            (decodeUtf8 (pos + 2) rest₁).map
              (Char.ofNat ((b₀.toNat - 0xc0) * 0x40 + tailBits b₁) :: ·)
          else
            match rest₁ with
            | [] => .error (utf8Fault b₀ pos 2 unexpectedEnd)
            | b₂ :: rest₂ =>
              if !isTail b₂ then .error (utf8Fault b₀ pos 2 invalidContinuation)
              else if size = 3 then
                (decodeUtf8 (pos + 3) rest₂).map
                  (Char.ofNat ((b₀.toNat - 0xe0) * 0x1000 + tailBits b₁ * 0x40 +
                    tailBits b₂) :: ·)
              else
                match rest₂ with
                | [] => .error (utf8Fault b₀ pos 3 unexpectedEnd)
                | b₃ :: rest₃ =>
                  if !isTail b₃ then .error (utf8Fault b₀ pos 3 invalidContinuation)
                  else
                    (decodeUtf8 (pos + 4) rest₃).map
                      (Char.ofNat ((b₀.toNat - 0xf0) * 0x40000 + tailBits b₁ * 0x1000 +
                        tailBits b₂ * 0x40 + tailBits b₃) :: ·)

/-- The text of ASCII bytes, the first of them at position `pos`. -/
def decodeAscii (pos : Nat) : List UInt8 → Except DecodeError Text
  | [] => .ok []
  | b :: rest =>
    if b.toNat < 0x80 then (decodeAscii (pos + 1) rest).map (Char.ofNat b.toNat :: ·)
    else
      .error { codec := "ascii", byte := b, first := pos, count := 1,
               reason := "ordinal not in range(128)" }

/-- The byte order mark of UTF-8. -/
def byteOrderMark : List UInt8 := [0xef, 0xbb, 0xbf]

/-- **The text of bytes.** Positions after a byte order mark count from
behind it; bytes that are a beginning of the mark and nothing else are
no text at all. -/
def decode (e : Encoding) (bytes : List UInt8) : Except DecodeError Text :=
  match e with
  | .utf8 => decodeUtf8 0 bytes
  | .utf8Marked =>
    if byteOrderMark.isPrefixOf bytes then decodeUtf8 0 (bytes.drop 3)
    else if bytes.isPrefixOf byteOrderMark then .ok []
    else decodeUtf8 0 bytes
  | .latin1 => .ok (bytes.map fun b => Char.ofNat b.toNat)
  | .ascii => decodeAscii 0 bytes

/-! ## Writing -/

/-- The UTF-8 bytes of a character. -/
def utf8Bytes (c : Char) : List UInt8 :=
  let n := c.toNat
  if n < 0x80 then [n.toUInt8]
  else if n < 0x800 then [(0xc0 + n / 0x40).toUInt8, (0x80 + n % 0x40).toUInt8]
  else if n < 0x10000 then
    [(0xe0 + n / 0x1000).toUInt8, (0x80 + n / 0x40 % 0x40).toUInt8, (0x80 + n % 0x40).toUInt8]
  else
    [(0xf0 + n / 0x40000).toUInt8, (0x80 + n / 0x1000 % 0x40).toUInt8,
      (0x80 + n / 0x40 % 0x40).toUInt8, (0x80 + n % 0x40).toUInt8]

/-- One byte for each character below `limit`; the fault covers the
first run of characters that have none. -/
def encodeBytes (codec : String) (limit pos : Nat) : Text → Except EncodeError (List UInt8)
  | [] => .ok []
  | c :: rest =>
    if c.toNat < limit then
      (encodeBytes codec limit (pos + 1) rest).map (c.toNat.toUInt8 :: ·)
    else
      .error { codec, char := c, first := pos,
               count := 1 + (rest.takeWhile fun d => limit ≤ d.toNat).length,
               reason := "ordinal not in range(" ++ toString limit ++ ")" }

/-- The bytes of a text, without a byte order mark. -/
def encode (e : Encoding) (t : Text) : Except EncodeError (List UInt8) :=
  match e with
  | .utf8 | .utf8Marked => .ok (t.flatMap utf8Bytes)
  | .latin1 => encodeBytes "latin-1" 256 0 t
  | .ascii => encodeBytes "ascii" 128 0 t

/-- What stands before the first text written to a file. -/
def mark : Encoding → List UInt8
  | .utf8Marked => byteOrderMark
  | _ => []

/-! ## Codecs -/

/-- **The codec of an encoding.** A byte order mark goes with the first
text that is written. -/
def codec (e : Encoding) : Codec where
  decode bytes := (e.decode bytes).mapError DecodeError.message
  encode before t :=
    match e.encode t with
    | .error fault => .error fault.message
    | .ok bytes => .ok (if before.isEmpty then e.mark ++ bytes else bytes)

/-- What is said of an unknown encoding. -/
def unknownMessage (name : Text) : String := "unknown encoding: " ++ Text.str name

/-- The codecs that the program brings with it. -/
def codecs : Codecs := fun name =>
  match ofName? name with
  | none => .error (unknownMessage name)
  | some e => .ok e.codec

end Encoding

end PropertyFile
