import PropertyFile.CodePoint.Basic
import PropertyFile.Reading

/-!
# Reading a text with halves

A text that may hold halves of surrogate pairs is read as any text is:
its lines are joined and cut where its shape says so. Only resolving
escapes looks at the halves. A text without a backslash stays as it is.
In any other the halves are put together, those that the text holds as
well as those that are written as numeric escapes, and one that is left
without a partner becomes U+FFFD: what is read is then a text of
characters (`CodeText.unescape`).
-/

namespace PropertyFile

namespace CodeText

/-! ## Lines -/

/-- The first line of a text, and the later ones. -/
def cut : CodeText → CodeText × List CodeText
  | [] => ([], [])
  | .char '\r' :: .char '\n' :: rest => let (line, later) := cut rest; ([], line :: later)
  | .char '\r' :: rest => let (line, later) := cut rest; ([], line :: later)
  | .char '\n' :: rest => let (line, later) := cut rest; ([], line :: later)
  | c :: rest => let (line, later) := cut rest; (c :: line, later)

/-- Whether a text ends in a line break; true of the empty text. -/
def finalBreak (t : CodeText) : Bool := (t.cut.1 :: t.cut.2).getLast? = some []

/-- **The physical lines of a text.** -/
def lines (t : CodeText) : List CodeText :=
  if t.finalBreak then (t.cut.1 :: t.cut.2).dropLast else t.cut.1 :: t.cut.2

/-! ## Escapes -/

/-- The number of the code point that stands behind a backslash. -/
def named : CodePoint → Nat
  | .char c => (Unescape.named c).toNat
  | .half n => (CodePoint.half n).number

/-- **The code points of an escaped text**, or the escape that lacks its
digits, as far as it reached. -/
def codes : CodeText → Except CodeText (List Nat)
  | [] => .ok []
  | c :: rest =>
    if c = .char escapeMark then
      match rest with
      | [] => .ok [escapeMark.toNat]
      | e :: rest =>
        if e = .char 'u' then
          match rest with
          | h₁ :: h₂ :: h₃ :: h₄ :: rest' =>
            match Unescape.fourDigits? h₁.shape h₂.shape h₃.shape h₄.shape with
            | some code => (codes rest').map (code :: ·)
            | none => .error [c, e, h₁, h₂, h₃, h₄]
          | cutOff => .error (c :: e :: cutOff)
        else (codes rest).map (named e :: ·)
    else (codes rest).map (c.number :: ·)

/-- **A text with its escapes resolved.** -/
def unescape (t : CodeText) : Except CodeText CodeText :=
  if .char escapeMark ∈ t then (codes t).map fun found => (Unescape.join found).points
  else .ok t

end CodeText

/-- A property as it was read. -/
structure CodeProperty where
  /-- The key, its escapes resolved. -/
  key : CodeText
  /-- The value, its escapes resolved. -/
  value : CodeText
  /-- The literal text between key and value. -/
  separator : Text
  /-- The comment and blank lines since the property before. -/
  comments : List CodeText
  /-- The number of the physical line the property starts on, from 1. -/
  line : Nat
deriving DecidableEq, Repr

/-- What makes a text malformed. -/
inductive CodeFault where
  /-- The last line of the text asks for a line to continue it. -/
  | unterminated
  /-- A numeric escape lacks its four hexadecimal digits; as far as it
  reached. -/
  | escape (fragment : CodeText)
deriving DecidableEq, Repr

/-- What is said of a fault. -/
def CodeFault.message : CodeFault → String
  | .unterminated => "Unterminated line continuation"
  | .escape fragment => "Malformed \\uXXXX escape: " ++ fragment.quoted

/-- How reading a text ended. -/
inductive CodeEnding where
  /-- At the end of the text, with the comment and blank lines behind
  the last property. -/
  | complete (trailing : List CodeText)
  /-- At a fault, with the comment and blank lines read before it and
  the number of the line it is reported for. -/
  | failed (pending : List CodeText) (fault : CodeFault) (line : Nat)
deriving DecidableEq, Repr

/-- The property on a logical line. -/
def CodeProperty.ofLine (comments : List CodeText) (number : Nat) (line : CodeText) :
    Except CodeText CodeProperty := do
  let parts := LineParts.ofLine line.shape
  let key ← CodeText.unescape (line.take parts.key.length)
  let value ← CodeText.unescape (line.drop (parts.key.length + parts.separator.length))
  return { key, value, separator := parts.separator, comments, line := number }

/-- The properties of a text in order, and how reading it ended. -/
structure CodeReading where
  /-- The properties that were read. -/
  properties : List CodeProperty
  /-- What came after them. -/
  ending : CodeEnding
deriving DecidableEq, Repr

namespace CodeReading

/-- Reads on at physical line `number`, with the comment lines `pending`
and, inside a continued property, the line it starts on and its lines so
far. -/
def run (number : Nat) (pending : List CodeText) (unfinished : Option (Nat × CodeText)) :
    List CodeText → CodeReading
  | [] =>
    match unfinished with
    | none => ⟨[], .complete pending⟩
    | some _ => ⟨[], .failed pending .unterminated (number - 1)⟩
  | physical :: rest =>
    if unfinished.isNone && isCommentLine physical.shape then
      run (number + 1) (pending ++ [physical]) none rest
    else
      let start := (unfinished.map Prod.fst).getD number
      let line := (unfinished.map Prod.snd).getD [] ++ physical.dropWhile (isSpacing ·.shape)
      if endsWithContinuation line.shape then
        run (number + 1) pending (some (start, line.dropLast)) rest
      else
        match CodeProperty.ofLine pending start line with
        | .error fragment => ⟨[], .failed pending (.escape fragment) start⟩
        | .ok property =>
          let later := run (number + 1) [] none rest
          ⟨property :: later.properties, later.ending⟩

/-- **Reading a text.** -/
def ofText (t : CodeText) : CodeReading := run 1 [] none t.lines

end CodeReading

/-! ## Texts of characters -/

/-- A property of characters. -/
def CodeProperty.ofProperty (p : Property) : CodeProperty where
  key := p.key.points
  value := p.value.points
  separator := p.separator
  comments := p.comments.map Text.points
  line := p.line

/-- A fault in a text of characters. -/
def CodeFault.ofFault : ReadFault → CodeFault
  | .unterminated => .unterminated
  | .escape e => .escape e.fragment.points

/-- The end of a text of characters. -/
def CodeEnding.ofEnding : Ending → CodeEnding
  | .complete trailing => .complete (trailing.map Text.points)
  | .failed pending fault line => .failed (pending.map Text.points) (.ofFault fault) line

/-- What reading a text of characters comes to. -/
def CodeReading.ofReading (r : Reading) : CodeReading where
  properties := r.properties.map .ofProperty
  ending := .ofEnding r.ending

end PropertyFile
