import PropertyFile.Marks
import PropertyFile.Text.Blank
import PropertyFile.Text.Quoted

/-!
# List delimiters

With a list delimiter a property holds several values on one line. A
delimiter that belongs to a value is written with a backslash in front.
Any single character but the backslash may serve as delimiter, and this
is part of the type (`ListDelimiter`); where lists are not in use there
is none, so most operations are on `Option ListDelimiter`.
-/

namespace PropertyFile

/-- A character that separates the values of a list. -/
structure ListDelimiter where
  /-- The character. -/
  char : Char
  /-- The backslash is taken. -/
  ne_escape : char ≠ escapeMark
deriving DecidableEq

/-- Why a text is no list delimiter. -/
inductive DelimiterFault where
  /-- It is not one character. -/
  | notSingle (given : Text)
  /-- It is the backslash. -/
  | escapeMark
deriving DecidableEq, Repr

/-- What is said of a fault. -/
def DelimiterFault.message : DelimiterFault → String
  | .notSingle given => "List delimiter must be a single character, got " ++ Text.quoted given
  | .escapeMark => "The escape character cannot be used as list delimiter"

namespace ListDelimiter

/-- The delimiter of one character. -/
def ofChar? (c : Char) : Option ListDelimiter :=
  if h : c = PropertyFile.escapeMark then none else some ⟨c, h⟩

/-- The delimiter given by a text. -/
def ofText : Text → Except DelimiterFault ListDelimiter
  | [c] => if h : c = PropertyFile.escapeMark then .error .escapeMark else .ok ⟨c, h⟩
  | t => .error (.notSingle t)

/-- The characters whose escapes have to survive until the value is cut
into its parts. -/
def kept : Option ListDelimiter → Text
  | none => []
  | some d => [PropertyFile.escapeMark, d.char]

/-- The stretches between the delimiters that no backslash protects.
Protected, a delimiter or a backslash stands for itself; before any
other character, and at the end, a backslash stays. -/
def cut (d : ListDelimiter) : Text → List Text
  | [] => [[]]
  | c :: rest =>
    if c = PropertyFile.escapeMark then
      match rest with
      | [] => [[c]]
      | e :: rest =>
        let parts := cut d rest
        if e = d.char ∨ e = PropertyFile.escapeMark then Text.consHead e parts
        else Text.consHead c (Text.consHead e parts)
    else if c = d.char then [] :: cut d rest
    else Text.consHead c (cut d rest)

/-- **The values of a raw value.** Where it is really cut, and `trim`
asks for it, blanks around the parts are dropped. -/
def split (d : Option ListDelimiter) (trim : Bool) (raw : Text) : List Text :=
  match d with
  | none => [raw]
  | some d =>
    let parts := d.cut raw
    if trim && 1 < parts.length then parts.map Text.strip else parts

/-- The value with a backslash before each of its delimiters. -/
def protect (d : Option ListDelimiter) (value : Text) : Text :=
  match d with
  | none => value
  | some d => Text.replace d.char [PropertyFile.escapeMark, d.char] value

/-- **The values on one line**; `none` where several values would need a
delimiter and there is none. -/
def join (d : Option ListDelimiter) (values : List Text) : Option Text :=
  match d with
  | none =>
    match values with
    | [value] => some value
    | _ => none
  | some d => some (Text.joinWith [d.char] (values.map (protect (some d))))

end ListDelimiter

end PropertyFile
