import PropertyFile.Text.Basic

/-!
# References to variables

The name of an included file may refer to variables. A **reference** is
a dollar sign and a name in braces, where the name is not empty and
holds neither dollar signs nor braces. All references are replaced at
once: what stands in for one is never looked at again, and a reference
to an unknown variable stays as it is.
-/

namespace PropertyFile

/-- What variables stand for. -/
abbrev Lookup := Text → Option Text

namespace Variables

/-- Whether a character may occur in the name of a variable. -/
def isNameChar (c : Char) : Bool := c != '$' && c != '\x7b' && c != '\x7d'

/-- The name of the reference whose opening brace stands before the
text, and what follows its closing brace. -/
def reference? (t : Text) : Option (Text × Text) :=
  match t.takeWhile isNameChar, t.dropWhile isNameChar with
  | c :: name, '\x7d' :: after => some (c :: name, after)
  | _, _ => none

theorem length_of_reference? {t name after : Text} (h : reference? t = some (name, after)) :
    after.length < t.length := by
  have ht := congrArg List.length (List.takeWhile_append_dropWhile (p := isNameChar) (l := t))
  unfold reference? at h
  split at h
  · next c name' after' h₁ h₂ =>
    obtain ⟨rfl, rfl⟩ := by simpa using h
    rw [h₁, h₂] at ht
    simp at ht
    omega
  · cases h

/-- **The text with its references replaced.** -/
def expand (lookup : Lookup) : Text → Text
  | [] => []
  | '$' :: '\x7b' :: rest =>
    match _h : reference? rest with
    | none => '$' :: expand lookup ('\x7b' :: rest)
    | some (name, after) =>
      (lookup name).getD ('$' :: '\x7b' :: name ++ ['\x7d']) ++ expand lookup after
  | c :: rest => c :: expand lookup rest
termination_by t => t.length
decreasing_by
  · simp
  · have := length_of_reference? _h
    simp
    omega
  · simp

end Variables

end PropertyFile
