import PropertyFile.Text.Basic

/-!
# Values

Where a caller hands over the value of a key, or is shown one, a key
with a single value has a text and a key with several values a list of
texts. A store itself always keeps lists.
-/

namespace PropertyFile

/-- The value of a key: one text, or several. -/
inductive Value where
  /-- One text. -/
  | one (t : Text)
  /-- Several texts, in order. -/
  | many (ts : List Text)
deriving DecidableEq, Repr

/-- The texts of a value. -/
def Value.texts : Value → List Text
  | .one t => [t]
  | .many ts => ts

/-- The value of a list of texts. -/
def Value.ofTexts : List Text → Value
  | [t] => .one t
  | ts => .many ts

@[simp] theorem Value.texts_ofTexts (ts : List Text) : (Value.ofTexts ts).texts = ts := by
  unfold Value.ofTexts
  split <;> rfl

end PropertyFile
