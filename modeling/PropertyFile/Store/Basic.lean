import PropertyFile.Event
import PropertyFile.Layout.Lines
import PropertyFile.Variables

/-!
# Stores

A store maps keys to one or more values, in the order in which the keys
came in, and keeps the layout of the file that the properties come
from. It changes in two ways. **Mutations** (`Store.mutate`) change the
values and let the layout follow by the events that announce them;
**loads** (in `PropertyFile.Store.Load`) fill both from a text.

A key without values does not exist: adding nothing to a key changes
nothing, and setting a key to nothing removes it.
-/

namespace PropertyFile

/-- The values of the keys of a store. -/
abbrev Values := OrderedMap (List Text)

namespace Values

/-- The texts of a value, each cut at the list delimiter. -/
def parts (d : Option ListDelimiter) (v : Value) : List Text :=
  v.texts.flatMap (ListDelimiter.split d true)

/-- The values with those of a key extended. -/
def add (d : Option ListDelimiter) (values : Values) (key : Text) (v : Value) : Values :=
  match parts d v with
  | [] => values
  | new => values.update key fun old => old.getD [] ++ new

/-- All values of a key; none for an unknown one. -/
def list (values : Values) (key : Text) : List Text := (values.get? key).getD []

end Values

/-- The changes a caller can make. -/
inductive Mutation where
  /-- Adds values to a key. -/
  | add (key : Text) (v : Value)
  /-- Replaces the values of a key. -/
  | set (key : Text) (v : Value)
  /-- Removes a key. -/
  | remove (key : Text)
  /-- Removes all keys. -/
  | clear
deriving DecidableEq, Repr

namespace Mutation

/-- What a change does to the values. A key that is set comes back at
the end. -/
def apply (d : Option ListDelimiter) (values : Values) : Mutation → Values
  | .add key v => values.add d key v
  | .set key v => Values.add d (values.erase key) key v
  | .remove key => values.erase key
  | .clear => .empty

/-- The announcement of a change. -/
def event (beforeUpdate : Bool) : Mutation → Event
  | .add key v => ⟨.addProperty, some key, some v, beforeUpdate⟩
  | .set key v => ⟨.setProperty, some key, some v, beforeUpdate⟩
  | .remove key => ⟨.clearProperty, some key, none, beforeUpdate⟩
  | .clear => ⟨.clear, none, none, beforeUpdate⟩

end Mutation

/-- The settings of a store. -/
structure StoreOptions where
  /-- The delimiter of list values. -/
  delimiter : Option ListDelimiter := none
  /-- The key of directives to include a source that has to be there. -/
  includeKey : Option Text := some "include".toList
  /-- The key of directives to include a source that may be missing. -/
  includeOptionalKey : Option Text := some "includeoptional".toList
  /-- Whether directives are followed; if not they are dropped. -/
  includesAllowed : Bool := true
  /-- What variables in the names of included sources stand for. -/
  lookup : Option Lookup := none
  /-- The name of the encoding of files. -/
  encoding : Text := "utf-8".toList
  /-- Whether characters outside printable ASCII are written escaped. -/
  escapeUnicode : Bool := false

/-- Properties with the layout of their file. -/
structure Store where
  /-- The settings. -/
  options : StoreOptions := {}
  /-- The values of the keys. -/
  values : Values := .empty
  /-- The layout. -/
  layout : Layout := {}

namespace Store

/-- **The store after a change**, its layout kept in step. -/
def mutate (st : Store) (m : Mutation) : Store :=
  { st with
    values := m.apply st.options.delimiter st.values
    layout := st.layout.observe (m.event false) }

/-- How the store writes properties. -/
def style (st : Store) : WriteStyle := ⟨st.options.delimiter, st.options.escapeUnicode⟩

/-- **The text of the store**, along its layout. -/
def toText (st : Store) : Text := st.layout.save st.style st.values

/-- The store as a message shows it: by the number of its keys. -/
def describe (st : Store) : String :=
  "PropertiesStore(keys=" ++ toString st.values.size ++ ")"

/-- The pieces in which the text of the store is written. -/
def pieces (st : Store) : List Text := st.layout.pieces st.style st.values

end Store

end PropertyFile
