import PropertyFile.Proofs.PhysicalLine
import PropertyFile.Value
import PropertyFile.Writer

/-!
# The break of a line is written with the next line

A writer never knows, when it writes a line, whether that is the last
one. So it leaves the line break to whatever call comes to write the
next line, and to the end the question whether the last line gets one.
What it **holds** at any time is a list of lines, joined by line breaks,
with one break due if there are any lines at all (`Writer.Holds`).

Each call adds its own lines to what the writer holds: a line one, a
comment one or more, a property as many as there are groups of values
that share a line (`Writer.groups`), which may be none. A run of calls
therefore comes to the lines of the calls, one after the other
(`Writer.output_run`), whatever kinds of calls they are and however many
lines they write.
-/

namespace PropertyFile

namespace Writer

open Text

/-! ## What a writer holds -/

/-- **A writer holds lines**: they are all it has written, and the break of
the last one is due. -/
structure Holds (o : WriterOptions) (w : Writer) (lines : List Text) : Prop where
  /-- Between the lines there are breaks, and nothing else is there. -/
  output_eq : w.output = joinWith o.terminator lines
  /-- A break is due if there is a line to end. -/
  breakDue_eq : w.breakDue = !lines.isEmpty

variable {o : WriterOptions} {w : Writer} {held : List Text}

/-- A new writer holds no lines. -/
theorem holds_fresh (o : WriterOptions) (separator? : Option Text) :
    ({ separator? } : Writer).Holds o [] :=
  ⟨rfl, rfl⟩

/-- A line is written behind the break that is due, and its own is due
then. -/
theorem Holds.writeLine (h : w.Holds o held) (line : Text) :
    (w.writeLine o line).Holds o (held ++ [line]) := by
  refine ⟨?_, by simp [Writer.writeLine]⟩
  -- the first line has no break before it, neither written nor joined
  rw [joinWith_concat, ← h.output_eq]
  cases hheld : held.isEmpty <;> simp [Writer.writeLine, write, h.breakDue_eq, hheld]

theorem Holds.writeLines (h : w.Holds o held) (more : List Text) :
    (w.writeLines o more).Holds o (held ++ more) := by
  induction more generalizing w held with
  | nil => simpa [Writer.writeLines] using h
  | cons line rest ih =>
    rw [Writer.writeLines, List.foldl_cons, ← Writer.writeLines, List.append_cons]
    exact ih (h.writeLine line)

/-- **At the end**, the break of the last line is written if it is asked
for. -/
theorem Holds.output_finish (h : w.Holds o held) (final : Bool) :
    (w.finish o final).output = textOfLines o.terminator final held := by
  rw [textOfLines_eq, finish, h.output_eq, h.breakDue_eq, Bool.and_comm]

/-! ## The lines of a property -/

/-- **The values that share a line**: all of them if there is just one, or
if a single line is asked for and there is a delimiter to join them; else
each has a line to itself. -/
def groups (d : Option ListDelimiter) (values : List Text) (singleLine : Bool) :
    List (List Text) :=
  if values.length = 1 ∨ values ≠ [] ∧ singleLine = true ∧ d.isSome = true then [values]
  else values.map ([·])

/-- The property line with some of its values. -/
def groupLine (style : WriteStyle) (separator key : Text) (values : List Text) : Text :=
  propertyLine style.ascii key separator <|
    joinWith (style.delimiter.map ListDelimiter.char).toList <|
      values.map fun v => ListDelimiter.protect style.delimiter (Escape.value style.ascii separator v)

/-- Values can be joined if there is a delimiter, or just one of them. -/
theorem join_eq (d : Option ListDelimiter) (values : List Text) :
    ListDelimiter.join d values =
      if values.length = 1 ∨ d.isSome = true then
        some (joinWith (d.map ListDelimiter.char).toList (values.map (ListDelimiter.protect d)))
      else none := by
  cases d with
  | some d => simp [ListDelimiter.join]
  | none =>
    match values with
    | [] => rfl
    | [value] => rfl
    | value :: next :: rest => simp [ListDelimiter.join]

/-- A property has one line for each group of its values. -/
theorem propertyLines_eq_map_groups (style : WriteStyle) (separator key : Text)
    (values : List Text) (singleLine : Bool) :
    propertyLines style separator key values singleLine
      = (groups style.delimiter values singleLine).map (groupLine style separator key) := by
  have hseparate : (values.map (Escape.value style.ascii separator)).map (fun value =>
      propertyLine style.ascii key separator (ListDelimiter.protect style.delimiter value))
      = (values.map ([·])).map (groupLine style separator key) := by
    rw [List.map_map, List.map_map]
    rfl
  unfold propertyLines groups
  dsimp only
  rw [hseparate, join_eq, List.length_map, List.map_map]
  by_cases hnil : values = []
  · rw [hnil]
    rfl
  · rw [if_neg (by simpa using hnil)]
    by_cases hone : values.length = 1
    · simp [hone, groupLine, Function.comp_def]
    · cases singleLine with
      | false => simp [hone]
      | true => cases style.delimiter.isSome <;> simp [hone, hnil, groupLine, Function.comp_def]

/-! ## Calls -/

/-- A call to a writer that writes whole lines, or none. -/
inductive Call where
  /-- Adds a line; without a text, a blank one. -/
  | line (text? : Option Text)
  /-- Adds a comment block, if there is one. -/
  | comment (block? : Option Text)
  /-- Sets the separator of the properties that follow. -/
  | separator (separator? : Option Text)
  /-- Adds a property. -/
  | property (key : Text) (value : Value) (singleLine : Bool)

/-- The writer after a call. -/
def call (o : WriterOptions) (w : Writer) : Call → Writer
  | .line text? => w.writeLine o (text?.getD [])
  | .comment block? => w.writeComment o block?
  | .separator separator? => { w with separator? }
  | .property key value singleLine => w.writeProperty o key value.texts singleLine

/-- A new writer after some calls. -/
def run (o : WriterOptions) (calls : List Call) : Writer :=
  calls.foldl (call o) {}

/-- The lines of a call, where properties are written with the given
separator. -/
def Call.lines (style : WriteStyle) (separator : Text) : Call → List Text
  | .line text? => [text?.getD []]
  | .comment none => []
  | .comment (some block) => splitOn '\n' block
  | .separator _ => []
  | .property key value singleLine =>
    (groups style.delimiter value.texts singleLine).map (groupLine style separator key)

/-- The separator that is set after a call. -/
def Call.separatorAfter (separator? : Option Text) : Call → Option Text
  | .separator s? => s?
  | _ => separator?

/-- **The lines of some calls**, in their order. -/
def linesOf (o : WriterOptions) (separator? : Option Text) : List Call → List Text
  | [] => []
  | c :: calls =>
    c.lines o.style (o.globalSeparator.getD (separator?.getD [])) ++
      linesOf o (c.separatorAfter separator?) calls

theorem separator?_writeLines (o : WriterOptions) (w : Writer) (lines : List Text) :
    (w.writeLines o lines).separator? = w.separator? := by
  induction lines generalizing w with
  | nil => rfl
  | cons line rest ih => exact ih (w.writeLine o line)

theorem separator?_call (o : WriterOptions) (w : Writer) (c : Call) :
    (w.call o c).separator? = c.separatorAfter w.separator? := by
  cases c with
  | line text? => rfl
  | comment block? =>
    cases block? with
    | none => rfl
    | some block => exact separator?_writeLines o w _
  | separator separator? => rfl
  | property key value singleLine => exact separator?_writeLines o w _

/-- **A call adds its lines** to those the writer holds. -/
theorem Holds.call (h : w.Holds o held) (c : Call) :
    (w.call o c).Holds o (held ++ c.lines o.style (w.separator o)) := by
  cases c with
  | line text? => exact h.writeLine (text?.getD [])
  | comment block? =>
    cases block? with
    | none => exact (List.append_nil held).symm ▸ h
    | some block => exact h.writeLines (Comment.lines block)
  | separator separator? => simpa [Call.lines] using ⟨h.output_eq, h.breakDue_eq⟩
  | property key value singleLine =>
    rw [Call.lines, ← propertyLines_eq_map_groups]
    exact h.writeLines _

/-- **Calls add their lines** one after the other. -/
theorem Holds.calls (h : w.Holds o held) (calls : List Call) :
    (calls.foldl (Writer.call o) w).Holds o (held ++ linesOf o w.separator? calls) := by
  induction calls generalizing w held with
  | nil => simpa [linesOf] using h
  | cons c calls ih =>
    rw [List.foldl_cons, linesOf, ← List.append_assoc, ← separator?_call o w c]
    exact ih (h.call c)

/-- **The output of calls** is their lines joined by line breaks, with one
more break exactly if a final one is asked for and there is a line. -/
theorem output_run (o : WriterOptions) (calls : List Call) (final : Bool) :
    ((run o calls).finish o final).output
      = joinWith o.terminator (linesOf o none calls) ++
          if final = true ∧ linesOf o none calls ≠ [] then o.terminator else [] := by
  have h : (run o calls).Holds o (linesOf o none calls) := (holds_fresh o none).calls calls
  rw [h.output_finish, textOfLines_eq]
  simp

/-- A property without values writes no line, and neither takes the break
that is due nor leaves one. -/
example :
    let o : WriterOptions := ⟨⟨none, false⟩, "\r\n".toList, none⟩
    ((run o [.line (some "a".toList), .property "k".toList (.many []) true,
      .comment (some "# b\n".toList), .separator (some "=".toList),
      .property "k".toList (.many ["1".toList, "2".toList]) true]).finish o true).output
      = "a\r\n# b\r\n\r\nk=1\r\nk=2\r\n".toList := by
  decide +kernel

end Writer

end PropertyFile
