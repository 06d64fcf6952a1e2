import PropertyFile.Decimal.Shortest
import PropertyFile.Text.Quoted

/-!
# Values of a configuration file

The values that a TOML document holds, with tables in the order in which
their keys were written. A value built by hand may also be absent
(`Value.null`), which no document can say.

Messages show a value as they show a text, quoted where it is one
(`Value.shown`), and name its type (`Value.typeName`). Not every value can
be shown: a whole number with more than `mostDigits` decimal digits is not
written out, and neither is anything that holds one.
-/

namespace PropertyFile.Toml

/-- A number with a fraction or an exponent. -/
inductive Real where
  /-- The binary64 number nearest to `digits * 10 ^ exponent`. -/
  | decimal (negative : Bool) (digits : Nat) (exponent : Int)
  /-- A number above or below all others. -/
  | infinite (negative : Bool)
  /-- Not a number. -/
  | nan
deriving DecidableEq, Repr

/-- A day. -/
structure Date where
  /-- The year, from 1 to 9999. -/
  year : Nat
  /-- The month, from 1 on. -/
  month : Nat
  /-- The day of the month, from 1 on. -/
  day : Nat
deriving DecidableEq, Repr

/-- A time of the day. -/
structure Time where
  /-- The hour. -/
  hour : Nat
  /-- The minute. -/
  minute : Nat
  /-- The second. -/
  second : Nat
  /-- The fraction of a second, in millionths. -/
  microsecond : Nat
deriving DecidableEq, Repr

/-- How far a local time is ahead of universal time. -/
inductive Offset where
  /-- It is universal time. -/
  | zulu
  /-- It is ahead or behind by hours and minutes. -/
  | byHours (behind : Bool) (hours minutes : Nat)
deriving DecidableEq, Repr

/-- A value of a document. -/
inductive Value where
  /-- No value at all. -/
  | null
  /-- A text. -/
  | string (t : Text)
  /-- A whole number. -/
  | integer (n : Int)
  /-- A number with a fraction or an exponent. -/
  | real (r : Real)
  /-- A truth value. -/
  | boolean (b : Bool)
  /-- A day. -/
  | date (d : Date)
  /-- A time of the day. -/
  | time (t : Time)
  /-- A point in time, whose zone may be left open. -/
  | dateTime (d : Date) (t : Time) (offset : Option Offset)
  /-- Several values. -/
  | array (items : List Value)
  /-- Keys with values. -/
  | table (entries : List (Text × Value))
deriving Inhabited, Repr

/-- A table. -/
abbrev Table := List (Text × Value)

namespace Value

/-- The name of the type of a value. -/
def typeName : Value → String
  | .null => "NoneType"
  | .string _ => "str"
  | .integer _ => "int"
  | .real _ => "float"
  | .boolean _ => "bool"
  | .date _ => "date"
  | .time _ => "time"
  | .dateTime _ _ _ => "datetime"
  | .array _ => "list"
  | .table _ => "dict"

/-- The table that a value is. -/
def table? : Value → Option Table
  | .table entries => some entries
  | _ => none

end Value

/-! ## Showing values -/

/-- The decimal number as it is shown: positional from 0.0001 on and
below 10¹⁶, with at least one digit behind the point, and else with an
exponent of at least two digits. -/
def shownDecimal (s : Decimal.Scaled) : Text :=
  let s := s.trim
  let digits := Nat.toDigits 10 s.digits
  let point : Int := digits.length + s.exponent
  if -4 < point && point ≤ 16 then
    if point ≤ 0 then ['0', '.'] ++ List.replicate (-point).toNat '0' ++ digits
    else if (digits.length : Int) ≤ point then
      digits ++ List.replicate (point.toNat - digits.length) '0' ++ ['.', '0']
    else digits.take point.toNat ++ '.' :: digits.drop point.toNat
  else
    let power := point - 1
    let powerDigits := Nat.toDigits 10 power.natAbs
    digits.take 1 ++ (if digits.length = 1 then [] else '.' :: digits.drop 1) ++
      ['e', if power < 0 then '-' else '+'] ++
      (if powerDigits.length < 2 then '0' :: powerDigits else powerDigits)

/-- The sign of a number. -/
def sign (negative : Bool) : Text := if negative then ['-'] else []

/-- A number with a fraction as it is shown: by the fewest digits that
tell it from all others. -/
def Real.shown : Real → Text
  | .nan => "nan".toList
  | .infinite negative => sign negative ++ "inf".toList
  | .decimal negative digits exponent =>
    sign negative ++
      match Decimal.Binary64.ofDecimal? digits exponent with
      | none => "inf".toList
      | some b => if b.mantissa = 0 then "0.0".toList else shownDecimal b.shortest

/-- A call of a constructor, as messages show values without a notation
of their own. -/
def shownCall (name : String) (arguments : List Text) : Text :=
  name.toList ++ '(' :: Text.joinWith [',', ' '] arguments ++ [')']

/-- A number without sign as it is shown. -/
def shownNat (n : Nat) : Text := (toString n).toList

/-- The numbers of a day. -/
def Date.parts (d : Date) : List Text := [d.year, d.month, d.day].map shownNat

/-- The numbers of a time; seconds and their fraction are left out where
nothing but zeros would follow. -/
def Time.parts (t : Time) : List Text :=
  ([t.hour, t.minute] ++
    (if t.microsecond ≠ 0 then [t.second, t.microsecond]
      else if t.second ≠ 0 then [t.second] else [])).map shownNat

/-- A number of digits, filled up to two with a zero. -/
def twoDigits (n : Nat) : Text := if n < 10 then '0' :: shownNat n else shownNat n

/-- An offset as it is shown: its length in days and seconds, of which
only the days may be negative, and its name. -/
def Offset.shown (o : Offset) : Text :=
  let (delta, name) : List Text × Text := match o with
    | .zulu => (["0".toList], "UTC".toList)
    | .byHours behind hours minutes =>
      let seconds := 3600 * hours + 60 * minutes
      let name := (if behind then '-' else '+') :: twoDigits hours ++ ':' :: twoDigits minutes
      if seconds = 0 then (["0".toList], name)
      else if behind then
        (["days=-1".toList, "seconds=".toList ++ shownNat (86400 - seconds)], name)
      else (["seconds=".toList ++ shownNat seconds], name)
  shownCall "datetime.timezone" [shownCall "datetime.timedelta" delta, (Text.quoted name).toList]

/-- How many decimal digits a whole number may have to be shown. -/
def mostDigits : Nat := 4300

/-- A whole number is not shown, for it has too many digits. -/
structure LongNumber where
deriving DecidableEq, Repr

/-- What is said of a number with too many digits. -/
def LongNumber.message (_ : LongNumber) : String :=
  "Exceeds the limit (" ++ toString mostDigits ++ " digits) for integer string conversion; " ++
    "use sys.set_int_max_str_digits() to increase the limit"

/-- Whether a whole number has too many digits to be shown. -/
def isLong (n : Int) : Bool := Nat.pow 10 mostDigits ≤ n.natAbs

/-- A whole number as it is shown. -/
def shownInteger (n : Int) : Except LongNumber Text :=
  if isLong n then .error {} else .ok (toString n).toList

namespace Value

mutual

/-- **The value as messages show it.** -/
def shown : Value → Except LongNumber Text
  | .null => .ok "None".toList
  | .string t => .ok (Text.quoted t).toList
  | .integer n => shownInteger n
  | .real r => .ok r.shown
  | .boolean b => .ok (if b then "True".toList else "False".toList)
  | .date d => .ok (shownCall "datetime.date" d.parts)
  | .time t => .ok (shownCall "datetime.time" t.parts)
  | .dateTime d t offset =>
    .ok (shownCall "datetime.datetime" (d.parts ++ t.parts ++
      (offset.map fun o => "tzinfo=".toList ++ o.shown).toList))
  | .array items =>
    (shownItems items).map fun shown => '[' :: Text.joinWith [',', ' '] shown ++ [']']
  | .table entries =>
    (shownEntries entries).map fun shown => '\x7b' :: Text.joinWith [',', ' '] shown ++ ['\x7d']

/-- The items of an array as messages show them. -/
def shownItems : List Value → Except LongNumber (List Text)
  | [] => .ok []
  | v :: rest => do return (← v.shown) :: (← shownItems rest)

/-- The entries of a table as messages show them. -/
def shownEntries : List (Text × Value) → Except LongNumber (List Text)
  | [] => .ok []
  | (key, v) :: rest => do
    return ((Text.quoted key).toList ++ ':' :: ' ' :: (← v.shown)) :: (← shownEntries rest)

end

end Value

/-! ## Looking up -/

/-- The table at a path of keys, if every step leads to a table. -/
def Table.at? (t : Table) : List Text → Option Table
  | [] => some t
  | key :: rest => ((t.lookup key).bind Value.table?).bind fun inner => at? inner rest

/-- **The table at a dotted path.** -/
def Table.dotted? (t : Table) (path : Text) : Option Table := t.at? (Text.splitOn '.' path)

end PropertyFile.Toml
