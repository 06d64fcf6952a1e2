/-!
# Texts

Everything this library reads and writes is a **text**: a list of
characters. A list, and not a packed string, because the grammar of a
property file is read character by character from the left, and the
laws about it are inductions on exactly that list. Packed strings occur
only where a finished message leaves the library (`Text.str`).

The few operations that core lists lack are gathered here: cutting a
text at a character, joining lines around a separator, removing a run of
characters from the end, and making all line breaks the same.
-/

namespace PropertyFile

/-- A text is the list of its characters. -/
abbrev Text := List Char

namespace Text

/-- The packed string with the characters of a text. -/
abbrev str (t : Text) : String := String.ofList t

/-- Puts a character in front of the first of several texts; with no
text at all it becomes the only one. -/
def consHead (c : Char) : List Text → List Text
  | [] => [[c]]
  | t :: ts => (c :: t) :: ts

/-- **Cutting at a character**: the stretches between the occurrences of
`sep`, so one text more than `sep` occurs. -/
def splitOn (sep : Char) : Text → List Text
  | [] => [[]]
  | c :: rest => if c = sep then [] :: splitOn sep rest else consHead c (splitOn sep rest)

/-- **Joining around a separator**: the texts in order, `sep` between
each two of them. -/
def joinWith (sep : Text) : List Text → Text
  | [] => []
  | [t] => t
  | t :: u :: ts => t ++ sep ++ joinWith sep (u :: ts)

/-- The text without the characters satisfying `p` at its end. -/
def dropEndWhile (p : Char → Bool) : Text → Text
  | [] => []
  | c :: rest =>
    match dropEndWhile p rest with
    | [] => if p c then [] else [c]
    | d :: kept => c :: d :: kept

/-- Every occurrence of `c` replaced by the text `new`. -/
def replace (c : Char) (new : Text) (t : Text) : Text :=
  t.flatMap fun d => if d = c then new else [d]

/-- The text with every line break made a line feed. -/
def unifyBreaks : Text → Text
  | [] => []
  | '\r' :: '\n' :: rest => '\n' :: unifyBreaks rest
  | c :: rest => (if c = '\r' then '\n' else c) :: unifyBreaks rest

/-! ## Lemmas -/

theorem splitOn_ne_nil (sep : Char) (t : Text) : splitOn sep t ≠ [] := by
  cases t with
  | nil => simp [splitOn]
  | cons c rest =>
    unfold splitOn
    split
    · simp
    · cases splitOn sep rest <;> simp [consHead]

@[simp] theorem joinWith_singleton (sep t : Text) : joinWith sep [t] = t := rfl

theorem joinWith_cons (sep t : Text) {ts : List Text} (h : ts ≠ []) :
    joinWith sep (t :: ts) = t ++ sep ++ joinWith sep ts := by
  cases ts with
  | nil => exact absurd rfl h
  | cons u us => rfl

/-- Joining around a character what was cut at it gives the text back. -/
theorem joinWith_splitOn (sep : Char) (t : Text) : joinWith [sep] (splitOn sep t) = t := by
  induction t with
  | nil => rfl
  | cons c rest ih =>
    unfold splitOn
    split
    · next h => rw [joinWith_cons _ _ (splitOn_ne_nil sep rest), ih, h]; rfl
    · next h =>
      cases hs : splitOn sep rest with
      | nil => exact absurd hs (splitOn_ne_nil sep rest)
      | cons u us =>
        rw [hs] at ih
        cases us with
        | nil => simpa [consHead, joinWith] using ih
        | cons v vs => simpa [consHead, joinWith] using ih

end Text

end PropertyFile
