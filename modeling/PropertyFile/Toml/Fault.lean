import PropertyFile.Toml.Value

/-!
# What a document comes to

A text may be no TOML document at all, or it may be written as one but
say something that contradicts what it said before. The second kind of
fault is a `Conflict`: it names what the two places disagree on. What
reads texts as documents is a `Reader`; whoever wants the table of a
document is given one, and does not depend on how it reads.
-/

namespace PropertyFile.Toml

/-- What a part of a document and an earlier one disagree on. -/
inductive Conflict where
  /-- A key has been used already. -/
  | taken (key : Text)
  /-- A table is complete, and is written once more in another way. -/
  | reopened
deriving DecidableEq, Repr

/-- What is said of a conflict. -/
def Conflict.message : Conflict → String
  | .taken key => "Key \"" ++ Text.str key ++ "\" already exists."
  | .reopened => "Redefinition of an existing table"

/-- Why a text has no table. -/
inductive Fault where
  /-- It is no document. -/
  | malformed
  /-- It contradicts itself. -/
  | conflict (c : Conflict)
deriving DecidableEq, Repr

/-- A reader of documents: from a text whose line breaks are line feeds,
the table that it says, or why it says none. -/
abbrev Reader := Text → Except Fault Table

end PropertyFile.Toml
