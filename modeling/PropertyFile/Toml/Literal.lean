import PropertyFile.Text.Blank
import PropertyFile.Text.Digit
import PropertyFile.Text.Hex
import PropertyFile.Toml.Fault
import PropertyFile.Toml.Value

/-!
# Strings, numbers, days and times

The values of a TOML document that hold no other values. Each reader
takes one from the start of a text and returns it with the rest; a
number or a day ends where a blank, a comment or a closing mark begins,
and is read as a whole.
-/

namespace PropertyFile.Toml

/-! ## Characters -/

/-- Spaces and tabs. -/
def isSpace (c : Char) : Bool := c == ' ' || c == '\t'

/-- Spaces, tabs and line feeds. -/
def isWhite (c : Char) : Bool := isSpace c || c == '\n'

/-- Control characters, tabs excepted. -/
def isControl (c : Char) : Bool := (c.toNat < 0x20 && c != '\t') || c.toNat == 0x7f

/-- The characters of a key without quotation marks. -/
def isBareKey (c : Char) : Bool := c.isAlphanum || c == '-' || c == '_'

/-- The characters that end a number. -/
def endsNumber (c : Char) : Bool := isWhite c || c == '#' || c == ',' || c == ']' || c == '\x7d'

/-- The text without spaces and tabs at its start. -/
def skipSpaces (t : Text) : Text := t.dropWhile isSpace

/-! ## Strings -/

/-- The character that an escape stands for, and the length of the
escape without its backslash. -/
def escaped? (t : Text) : Option (Char × Nat) :=
  match t with
  | 'b' :: _ => some ('\x08', 1)
  | 't' :: _ => some ('\t', 1)
  | 'n' :: _ => some ('\n', 1)
  | 'f' :: _ => some ('\x0c', 1)
  | 'r' :: _ => some ('\r', 1)
  | 'e' :: _ => some ('\x1b', 1)
  | '"' :: _ => some ('"', 1)
  | '\\' :: _ => some ('\\', 1)
  | 'x' :: digits => numbered 2 digits
  | 'u' :: digits => numbered 4 digits
  | 'U' :: digits => numbered 8 digits
  | _ => none
where
  /-- The character with a code point of that many hexadecimal digits. -/
  numbered (count : Nat) (digits : Text) : Option (Char × Nat) :=
    let code := digits.take count
    if code.length < count then none
    else (Text.hexNumber? code).bind fun n =>
      if n.isValidChar then some (Char.ofNat n, count + 1) else none

/-- What stands up to the closing mark of a string on one line. In a
`basic` string a backslash begins an escape. -/
def lineString (basic : Bool) (mark : Char) : Text → Except Fault (Text × Text)
  | [] => .error .malformed
  | c :: rest =>
    if isControl c then .error .malformed
    else if c = mark then .ok ([], rest)
    else if basic && c = '\\' then
      match escaped? rest with
      | none => .error .malformed
      | some (char, length) =>
        (lineString basic mark (rest.drop length)).map fun (t, rest) => (char :: t, rest)
    else (lineString basic mark rest).map fun (t, rest) => (c :: t, rest)
termination_by t => t.length
decreasing_by all_goals simp only [List.length_drop, List.length_cons]; omega

/-- What stands up to the closing marks of a string on several lines:
three of them, or up to five, of which the first ones belong to the
string. A backslash at the end of a line takes all white space behind it
away. -/
def blockString (basic : Bool) (mark : Char) : Text → Except Fault (Text × Text)
  | [] => .error .malformed
  | c :: rest =>
    if isControl c && c ≠ '\n' then .error .malformed
    else if c = mark then
      let marks := rest.takeWhile (· == mark)
      let count := marks.length + 1
      if count < 3 then
        (blockString basic mark (rest.drop marks.length)).map fun (t, rest) =>
          (List.replicate count mark ++ t, rest)
      else if 6 ≤ count then .error .malformed
      else .ok (List.replicate (count - 3) mark, rest.drop marks.length)
    else if basic && c = '\\' then
      let white := rest.takeWhile isWhite
      if !white.isEmpty then
        if white.contains '\n' then blockString basic mark (rest.drop white.length)
        else .error .malformed
      else
        match escaped? rest with
        | none => .error .malformed
        | some (char, length) =>
          (blockString basic mark (rest.drop length)).map fun (t, rest) => (char :: t, rest)
    else (blockString basic mark rest).map fun (t, rest) => (c :: t, rest)
termination_by t => t.length
decreasing_by all_goals simp only [List.length_drop, List.length_cons]; omega

/-- A string, from behind the first of its marks. -/
def string (basic : Bool) (mark : Char) (t : Text) : Except Fault (Text × Text) :=
  if [mark, mark].isPrefixOf t then
    match t.drop 2 with
    | '\n' :: rest => blockString basic mark rest
    | rest => blockString basic mark rest
  else lineString basic mark t

/-! ## Numbers, days and times -/

/-- The digits of a base. -/
def digitOf? (base : Nat) (c : Char) : Option Nat :=
  if base = 10 then Text.digitValue? c
  else (Text.hexValue? c).bind fun n => if n < base then some n else none

/-- The text without the underscores that stand between two digits. -/
def dropUnderscores (isDigit : Char → Bool) : Text → Text
  | a :: '_' :: b :: rest =>
    if isDigit a && isDigit b then a :: dropUnderscores isDigit (b :: rest)
    else a :: dropUnderscores isDigit ('_' :: b :: rest)
  | c :: rest => c :: dropUnderscores isDigit rest
  | [] => []
termination_by t => t.length

/-- The number written by digits of a base. -/
def natural? (base : Nat) : Text → Option Nat
  | [] => none
  | digits => digits.foldlM (fun n c => (digitOf? base c).map (base * n + ·)) 0

/-- A number with a sign. -/
def signed (negative : Bool) (n : Nat) : Int := if negative then -n else n

/-- The number written behind `e`: digits with or without a sign. -/
def power? (t : Text) : Option Int :=
  match t with
  | '-' :: digits => (natural? 10 digits).map fun n => -n
  | '+' :: digits => (natural? 10 digits).map fun n => n
  | digits => (natural? 10 digits).map fun n => n

/-- A number with a fraction, an exponent or both, or one of the words
for numbers that no digits can write. -/
def real? (negative : Bool) (t : Text) : Option Real :=
  if t = "inf".toList || t = "infinity".toList then some (.infinite negative)
  else if t = "nan".toList then some .nan
  else
    let (base, power) := (t.takeWhile (· != 'e'), t.dropWhile (· != 'e'))
    let (whole, fraction) := (base.takeWhile (· != '.'), (base.dropWhile (· != '.')).drop 1)
    let exponent := if power.isEmpty then some 0 else power? (power.drop 1)
    match natural? 10 (whole ++ fraction), exponent with
    | some digits, some power => some (.decimal negative digits (power - fraction.length))
    | _, _ => none

/-- The digits 0 to 9. -/
def isPlainDigit (c : Char) : Bool := '0' ≤ c && c ≤ '9'

/-- A number from its sign and what stands behind it. Zeros in front,
underscores other than between digits, and points without a digit on
either side are refused. A whole number with more decimal digits than can
be shown is read as one with a fraction. -/
def unsignedNumber? (sign : Option Char) (t : Text) : Option Value :=
  let starts (s : String) : Bool := s.toList.isPrefixOf t
  let marked := starts "0o" || starts "0x" || starts "0b"
  let negative := sign == some '-'
  if 1 < t.length && ((starts "0" && !(marked || starts "0." || starts "0e")) ||
      (sign.isSome && starts ".")) then none
  else if marked && sign.isSome then none
  else
    let (base, isDigit) : Nat × (Char → Bool) :=
      if starts "0b" then (2, fun c => c == '0' || c == '1')
      else if starts "0o" then (8, fun c => '0' ≤ c && c ≤ '7')
      else if starts "0x" then (16, fun c => (Text.hexValue? c).isSome)
      else (10, isPlainDigit)
    let clean := (dropUnderscores isDigit t).map Char.toLower
    let number := Text.dropEndWhile Text.isBlank clean
    if clean.contains '_' then none
    else if base = 10 then
      if (clean.takeWhile (· != 'e')).getLast? == some '.' then none
      else
        match if number.length ≤ mostDigits then natural? 10 number else none with
        | some n => some (.integer (signed negative n))
        | none => (real? negative number).map .real
    else (natural? base (number.drop 2)).map fun n => .integer (signed negative n)

/-- A number. -/
def number? : Text → Option Value
  | '+' :: t => unsignedNumber? (some '+') t
  | '-' :: t => unsignedNumber? (some '-') t
  | t => unsignedNumber? none t

/-- Two digits making a number from `low` to `high`. -/
def twoDigits? (low high : Nat) : Text → Option (Nat × Text)
  | a :: b :: rest =>
    if isPlainDigit a && isPlainDigit b then
      let n := 10 * (a.toNat - 0x30) + (b.toNat - 0x30)
      if low ≤ n && n ≤ high then some (n, rest) else none
    else none
  | _ => none

/-- The text behind a character. -/
def behind? (c : Char) : Text → Option Text
  | d :: rest => if c = d then some rest else none
  | [] => none

/-- How many days a month has. -/
def daysIn (year month : Nat) : Nat :=
  if month = 2 then
    if year % 4 = 0 && (year % 100 ≠ 0 || year % 400 = 0) then 29 else 28
  else if month = 4 || month = 6 || month = 9 || month = 11 then 30
  else 31

/-- A day: year, month and day with hyphens between them. -/
def date? (t : Text) : Option (Date × Text) := do
  let year ← natural? 10 (t.takeWhile isPlainDigit)
  let (month, rest) ← (behind? '-' (t.dropWhile isPlainDigit)).bind (twoDigits? 1 12)
  let (day, rest) ← (behind? '-' rest).bind (twoDigits? 1 31)
  if 1 ≤ year && year ≤ 9999 && day ≤ daysIn year month then some (⟨year, month, day⟩, rest)
  else none

/-- The seconds of a time from behind their colon, with a fraction if
there is a point, as seconds and millionths. -/
def seconds? (t : Text) : Option (Nat × Nat × Text) := do
  let (second, rest) ← twoDigits? 0 59 t
  match rest with
  | '.' :: rest =>
    let digits := rest.takeWhile isPlainDigit
    let micro ← natural? 10 ((digits ++ List.replicate 6 '0').take 6)
    if digits.isEmpty then none else some (second, micro, rest.dropWhile isPlainDigit)
  | rest => some (second, 0, rest)

/-- A time: hour, minute and second with colons between them, where the
second may be left out. -/
def time? (t : Text) : Option (Time × Text) := do
  let (hour, rest) ← twoDigits? 0 23 t
  let (minute, rest) ← (behind? ':' rest).bind (twoDigits? 0 59)
  match rest with
  | ':' :: rest =>
    (seconds? rest).map fun (second, micro, rest) => (⟨hour, minute, second, micro⟩, rest)
  | rest => some (⟨hour, minute, 0, 0⟩, rest)

/-- The zone of a time. -/
def offset? : Text → Option (Option Offset)
  | [] => some none
  | [c] => if c = 'Z' || c = 'z' then some (some .zulu) else none
  | sign :: t => do
    let (hours, rest) ← twoDigits? 0 23 t
    let (minutes, rest) ← (behind? ':' rest).bind (twoDigits? 0 59)
    if rest.isEmpty && (sign = '+' || sign = '-') then
      some (some (.byHours (sign = '-') hours minutes))
    else none

/-- A day with a time. -/
def dateTime? (t : Text) : Option Value := do
  let (d, rest) ← date? t
  match rest with
  | c :: rest =>
    if c = 'T' || c = 't' || c = ' ' then
      let (time, rest) ← time? rest
      let offset ← offset? rest
      some (.dateTime d time offset)
    else none
  | [] => none

/-- A day alone, or a time alone. -/
def dayOrTime? (t : Text) : Option Value :=
  match date? t, time? t with
  | some (d, []), _ => some (.date d)
  | _, some (time, []) => some (.time time)
  | _, _ => none

/-- A value that begins with a digit. Behind a day, a time may follow
after a space. -/
def digitValue (t : Text) : Except Fault (Value × Text) :=
  let raw := t.takeWhile fun c => !endsNumber c
  let rest := t.dropWhile fun c => !endsNumber c
  match dayOrTime? raw with
  | some (.date d) =>
    let later := rest.takeWhile fun c => c == ' ' || !endsNumber c
    let time := Text.dropEndWhile Text.isBlank later
    let rest := rest.dropWhile fun c => c == ' ' || !endsNumber c
    if time.isEmpty then .ok (.date d, rest)
    else ((dateTime? (raw ++ time)).map fun v => (v, rest)).elim (.error .malformed) .ok
  | some v => .ok (v, rest)
  | none =>
    (((dateTime? raw).or (number? raw)).map fun v => (v, rest)).elim (.error .malformed) .ok

end PropertyFile.Toml
