import PropertyFile.Comment
import PropertyFile.OrderedMap
import PropertyFile.Text.Quoted

/-!
# Layouts

A layout is all of a property file but its values: per key the comment
before it, the blank lines before that, the separator and whether
several values share a line; and for the file its header and footer
comments, its line break and a few switches for writing. The keys have
an order, in which they are written.

Asking about an unknown key answers what a fresh entry holds and leaves
the layout as it is; changing a setting of an unknown key makes an
entry first (`Layout.modifyEntry`).

A layout also knows how deep the load is nested that is filling it
(`Layout.loadDepth`): mutations of a store reach its layout only while
no load is running, and only the outermost load settles what concerns
the file as a whole.
-/

namespace PropertyFile

/-- The layout of one key. -/
structure Entry where
  /-- The comment before the key, as it was read. -/
  comment : Option Text := none
  /-- How many blank lines stand before the comment. -/
  blankLines : Nat := 0
  /-- The text between key and value. -/
  separator : Text := defaultSeparator
  /-- Whether all values go on one line if they can. -/
  singleLine : Bool := true
deriving DecidableEq, Repr, Inhabited

/-- The entry with a further comment block behind its comment. -/
def Entry.addComment (e : Entry) (comment : Option Text) : Entry :=
  { e with comment := Comment.append e.comment comment }

/-- The layout of a property file. -/
structure Layout where
  /-- The entries of the keys, in the order of writing. -/
  entries : OrderedMap Entry := .empty
  /-- The comment at the top of the file. -/
  header : Option Text := none
  /-- The comment and blank lines behind the last property. -/
  footer : Option Text := none
  /-- A separator that replaces that of every key. -/
  globalSeparator : Option Text := none
  /-- The line break of the file, once it was set or found. -/
  lineSeparator? : Option Text := none
  /-- Whether every property goes on a single line. -/
  forceSingleLine : Bool := false
  /-- Whether the last line is ended by a line break. -/
  finalNewline : Bool := true
  /-- Whether blank lines at the end of the file are kept. -/
  keepTrailingBlankLines : Bool := true
  /-- How many loads are running, one inside the other. -/
  loadDepth : Nat := 0
deriving DecidableEq, Inhabited

/-- Why a setting cannot be asked for or changed. -/
inductive LayoutFault where
  /-- No key was named. -/
  | noKey
  /-- The number of blank lines is negative. -/
  | negativeBlankLines (number : Int)
deriving DecidableEq, Repr

/-- What is said of a fault. -/
def LayoutFault.message : LayoutFault → String
  | .noKey => "Property key must not be None"
  | .negativeBlankLines n => "Number of blank lines must not be negative: " ++ toString n

namespace Layout

/-! ## Entries -/

/-- The keys in the order of writing. -/
def keys (l : Layout) : List Text := l.entries.keys

/-- Whether the layout has an entry for a key. -/
def contains (l : Layout) (key : Text) : Bool := l.entries.contains key

/-- The entry of a key. -/
def entry? (l : Layout) (key : Text) : Option Entry := l.entries.get? key

/-- The entry of a key, a fresh one where there is none. -/
def entry (l : Layout) (key : Text) : Entry := (l.entry? key).getD {}

/-- **The layout with the entry of a key changed**, from a fresh one
where there was none. -/
def modifyEntry (l : Layout) (key : Text) (f : Entry → Entry) : Layout :=
  { l with entries := l.entries.update key fun old => f (old.getD {}) }

/-- The layout with an entry for the key. -/
def fetch (l : Layout) (key : Text) : Layout := l.modifyEntry key id

/-- The layout without the entry of a key. -/
def remove (l : Layout) (key : Text) : Layout := { l with entries := l.entries.erase key }

/-- The layout without entries, header and footer. -/
def clear (l : Layout) : Layout := { l with entries := .empty, header := none, footer := none }

/-- Whether a load is filling the layout. -/
def isLoading (l : Layout) : Bool := 0 < l.loadDepth

/-- An independent copy: no load fills it. -/
def copy (l : Layout) : Layout := { l with loadDepth := 0 }

/-! ## Settings of a key -/

/-- The layout with the comment of a key set, or removed. -/
def setComment (l : Layout) (key : Text) (comment : Option Text) : Layout :=
  l.modifyEntry key fun e => { e with comment }

/-- The comment of a key in canonical form. -/
def canonicalComment (l : Layout) (key : Text) (enforce : Bool) : Option Text :=
  (l.entry key).comment.map (Comment.canonical enforce)

/-- The layout with the number of blank lines before a key set. -/
def setBlankLines (l : Layout) (key : Text) (number : Int) : Except LayoutFault Layout :=
  if number < 0 then .error (.negativeBlankLines number)
  else .ok (l.modifyEntry key fun e => { e with blankLines := number.toNat })

/-- The layout with the choice of a single line for a key. -/
def setSingleLine (l : Layout) (key : Text) (singleLine : Bool) : Layout :=
  l.modifyEntry key fun e => { e with singleLine }

/-- The layout with the separator of a key set. -/
def setSeparator (l : Layout) (key : Text) (separator : Text) : Layout :=
  l.modifyEntry key fun e => { e with separator }

/-- The separator a key is written with: the global one if there is one,
else its own. -/
def separatorOf (l : Layout) (key : Text) : Text :=
  l.globalSeparator.getD (l.entry key).separator

/-! ## Settings of the file -/

/-- The header comment in canonical form. -/
def canonicalHeader (l : Layout) (enforce : Bool) : Option Text :=
  l.header.map (Comment.canonical enforce)

/-- The footer comment in canonical form. -/
def canonicalFooter (l : Layout) (enforce : Bool) : Option Text :=
  l.footer.map (Comment.canonical enforce)

/-- The line break the file is written with: a line feed where none, or
an empty one, is set. -/
def lineSeparator (l : Layout) : Text :=
  match l.lineSeparator? with
  | none | some [] => ['\n']
  | some chars => chars

/-- The layout as a message shows it: by its keys. -/
def describe (l : Layout) : String :=
  "PropertiesLayout(keys=[" ++ String.intercalate ", " (l.keys.map Text.quoted) ++ "])"

end Layout

end PropertyFile
