import PropertyFile.Toml.Document
import PropertyFile.Toml.Literal

/-!
# Reading a configuration file

The reader of TOML documents that the program brings with it (`parse`).
It reads from the left, and a line ends at a line feed.

Where several things stand one behind the other — the assignments of an
inline table, the statements of a document — reading them yields those
in front of a fault beside the fault itself: a contradiction among them
is noticed first.
-/

namespace PropertyFile.Toml

/-! ## Keys -/

/-- One key without quotation marks. Spaces around it are dropped, none
may stand in it, and it is not empty. -/
def bareKey (t : Text) : Except Fault (Text × Text) :=
  let inKey (c : Char) : Bool := isBareKey c || isSpace c
  let key := Text.strip (t.takeWhile inKey)
  if key.isEmpty || key.contains ' ' then .error .malformed else .ok (key, t.dropWhile inKey)

/-- One key, in quotation marks on one line or without. -/
def simpleKey (t : Text) : Except Fault (Text × Text) :=
  match skipSpaces t with
  | '"' :: rest =>
    if ['"', '"'].isPrefixOf rest then .error .malformed
    else (lineString true '"' rest).map fun (key, rest) => (key, skipSpaces rest)
  | '\'' :: rest =>
    if ['\'', '\''].isPrefixOf rest then .error .malformed
    else (lineString false '\'' rest).map fun (key, rest) => (key, skipSpaces rest)
  | rest => bareKey rest

/-- Keys with dots between them, `most` at most. -/
def keys : (most : Nat) → Text → Except Fault (KeyPath × Text)
  | 0, _ => .error .malformed
  | most + 1, t => do
    let (key, rest) ← simpleKey t
    match rest with
    | '.' :: rest =>
      let (more, rest) ← keys most rest
      return (key :: more, rest)
    | rest => return ([key], rest)

/-- A key or several with dots between them. -/
def key (t : Text) : Except Fault (KeyPath × Text) := keys (t.length + 1) t

/-! ## Values -/

/-- A word that has to stand at the start of the text. -/
def word (w : String) (v : Value) (t : Text) : Except Fault (Value × Text) :=
  if w.toList.isPrefixOf t then .ok (v, t.drop w.length) else .error .malformed

/-- Whether a number begins here that is written by a word. -/
def startsWithWord (t : Text) : Bool :=
  let w := (t.takeWhile fun c => !endsNumber c).take 4
  w = "inf".toList || w = "nan".toList

/-- Passes over a comment, up to the end of its line. -/
def comment (t : Text) : Except Fault Text :=
  let inside := t.takeWhile (· != '\n')
  if inside.any isControl then .error .malformed else .ok (t.drop inside.length)

theorem length_of_comment {t rest : Text} (h : comment t = .ok rest) : rest.length ≤ t.length := by
  unfold comment at h
  simp only at h
  split at h
  · cases h
  · cases h
    simp

/-- Passes over white space, line feeds and comments. -/
def skipFiller (t : Text) : Except Fault Text :=
  match _h : t.dropWhile isWhite with
  | '#' :: inside =>
    match _hc : comment inside with
    | .error f => .error f
    | .ok rest => skipFiller rest
  | rest => .ok rest
termination_by t.length
decreasing_by
  have hd := (List.dropWhile_sublist isWhite (l := t)).length_le
  have hc := length_of_comment _hc
  rw [_h] at hd
  simp at hd
  omega

/-- Passes over the equals sign between a key and its value. -/
def equalsSign (t : Text) : Except Fault Text :=
  match skipSpaces t with
  | '=' :: rest =>
    match skipSpaces rest with
    | '=' :: _ => .error .malformed
    | rest => .ok rest
  | _ => .error .malformed

mutual

/-- **A value**; `fuel` bounds how many readers are at work within each
other or one after the other. -/
def value : (fuel : Nat) → Text → Except Fault (Value × Text)
  | 0, _ => .error .malformed
  | fuel + 1, t =>
    match t with
    | [] => .error .malformed
    | '"' :: rest => (string true '"' rest).map fun (s, rest) => (.string s, rest)
    | '\'' :: rest => (string false '\'' rest).map fun (s, rest) => (.string s, rest)
    | '[' :: rest => (items fuel false rest).map fun (items, rest) => (.array items, rest)
    | '\x7b' :: rest =>
      let (assignments, ending) := assignments fuel true rest
      match inlineTable assignments with
      | .error c => .error (.conflict c)
      | .ok table => ending.map fun rest => (.table table, rest)
    | c :: rest =>
      if c = 't' then word "true" (.boolean true) (c :: rest)
      else if c = 'f' then word "false" (.boolean false) (c :: rest)
      else if c = '+' || c = '-' || startsWithWord (c :: rest) then
        let raw := (c :: rest).takeWhile fun c => !endsNumber c
        match number? raw with
        | some v => .ok (v, (c :: rest).drop raw.length)
        | none => .error .malformed
      else if isPlainDigit c then digitValue (c :: rest)
      else .error .malformed

/-- The items of an array, from behind its opening bracket or a comma or,
if `complete`, from behind an item. -/
def items : (fuel : Nat) → (complete : Bool) → Text → Except Fault (List Value × Text)
  | 0, _, _ => .error .malformed
  | fuel + 1, complete, t => do
    match ← skipFiller t with
    | [] => .error .malformed
    | ']' :: rest => return ([], rest)
    | c :: rest =>
      if complete then
        if c = ',' then items fuel false rest else .error .malformed
      else
        let (v, rest) ← value fuel (c :: rest)
        let (more, rest) ← items fuel true rest
        return (v :: more, rest)

/-- The assignments of an inline table, and what stands behind its
closing brace or is wrong: from behind the opening brace or a comma if
`fresh`, and else from behind an assignment. -/
def assignments : (fuel : Nat) → (fresh : Bool) → Text →
    List (KeyPath × Value) × Except Fault Text
  | 0, _, _ => ([], .error .malformed)
  | fuel + 1, fresh, t =>
    match skipFiller t with
    | .error f => ([], .error f)
    | .ok ('\x7d' :: rest) => ([], .ok rest)
    | .ok t =>
      if fresh then
        match assignment fuel t with
        | .error f => ([], .error f)
        | .ok (path, v, rest) =>
          let (more, ending) := assignments fuel false rest
          ((path, v) :: more, ending)
      else
        match t with
        | ',' :: rest => assignments fuel true rest
        | _ => ([], .error .malformed)

/-- A key with its value. -/
def assignment : (fuel : Nat) → Text → Except Fault (KeyPath × Value × Text)
  | 0, _ => .error .malformed
  | fuel + 1, t => do
    let (path, rest) ← key t
    let rest ← equalsSign rest
    let (v, rest) ← value fuel rest
    return (path, v, rest)

end

/-! ## Statements -/

/-- Passes over the end of a line: nothing but spaces and a comment up to
the line feed. -/
def lineEnd (t : Text) : Except Fault Text :=
  match skipSpaces t with
  | [] => .ok []
  | '\n' :: rest => .ok rest
  | '#' :: rest => (comment rest).map (List.drop 1)
  | _ => .error .malformed

/-- The end of a header, from behind its keys. The second of the brackets
that close the header of an array is not looked at. -/
def headerEnd (array : Bool) : Text → Except Fault Text
  | ']' :: rest => lineEnd (if array then rest.drop 1 else rest)
  | _ => .error .malformed

/-- The statement at the start of a line, and what follows its line. The
keys of a header count even if something is wrong behind them: they end
the sections before them. -/
def statement (t : Text) : Except Fault (Statement × Except Fault Text) :=
  match t with
  | '[' :: '[' :: rest =>
    (key rest).map fun (path, rest) => (.header true path, headerEnd true rest)
  | '[' :: rest =>
    (key rest).map fun (path, rest) => (.header false path, headerEnd false rest)
  | t => do
    let (path, v, rest) ← assignment (2 * t.length + 2) t
    let rest ← lineEnd rest
    return (.assign path v, .ok rest)

/-- The statements of a document in front of its first fault, and that
fault; each statement uses up some of the text, of which there is no more
than `fuel`. -/
def statements : (fuel : Nat) → Text → List Statement × Option Fault
  | 0, _ => ([], none)
  | fuel + 1, t =>
    match skipFiller t with
    | .error f => ([], some f)
    | .ok [] => ([], none)
    | .ok t =>
      match statement t with
      | .error f => ([], some f)
      | .ok (s, .error f) => ([s], some f)
      | .ok (s, .ok rest) =>
        let (more, fault) := statements fuel rest
        (s :: more, fault)

/-- **The table of a document.** -/
def parse : Reader := fun t =>
  let (statements, fault) := statements (t.length + 1) t
  tableOf statements fault

end PropertyFile.Toml
