import PropertyFile.Proofs.Reading

/-!
# Logical lines

A **logical line** is what the physical lines of a file are read as
together: a comment line by itself, or a property with all the lines it
is continued over. Cutting a file into its logical lines loses nothing
(`flatMap_physical`), and reading a file is reading its logical lines one
after the other (`run_eq_read`): each is either readable or it ends the
reading, whatever stands around it.

So the properties of a file, apart from their comments and line numbers
(`Property.bare`), are those of its logical lines
(`isReadable_of_read`, `exists_read`), and logical lines can be taken out
of one file and put into another: where they stand, they are cut as they
were (`cut_physical_append`).
-/

namespace PropertyFile

/-- What some physical lines are read as together. -/
inductive LogicalLine where
  /-- A comment or blank line. -/
  | comment (line : Text)
  /-- A property: its physical lines, and the text they are joined to. -/
  | property (lines : List Text) (text : Text)
  /-- Lines at the end of a file that ask for a further one. -/
  | unterminated (lines : List Text)
deriving DecidableEq, Repr

/-- The property without its place: its comments and its line number. -/
def Property.bare (p : Property) : Property := { p with comments := [], line := 0 }

namespace LogicalLine

/-- The physical lines of a logical line. -/
def physical : LogicalLine → List Text
  | comment line => [line]
  | property lines _ => lines
  | unterminated lines => lines

/-- The beginning of a property that asks for a further line. -/
structure Begun where
  /-- Its physical lines so far. -/
  lines : List Text := []
  /-- The text they are joined to, the last backslash removed. -/
  text : Text := []
deriving DecidableEq, Repr

/-- **The logical lines of some physical lines**, behind the beginning of
a property if there is one. -/
def cut (begun : Option Begun) : List Text → List LogicalLine
  | [] => (begun.map fun b => unterminated b.lines).toList
  | line :: rest =>
    if begun.isNone && isCommentLine line then comment line :: cut none rest
    else
      let lines := (begun.getD {}).lines ++ [line]
      let text := (begun.getD {}).text ++ line.dropWhile isSpacing
      if endsWithContinuation text then cut (some ⟨lines, text.dropLast⟩) rest
      else property lines text :: cut none rest

/-- **Cutting loses nothing.** -/
theorem flatMap_physical (begun : Option Begun) (lines : List Text) :
    (cut begun lines).flatMap physical = (begun.getD {}).lines ++ lines := by
  induction lines generalizing begun with
  | nil =>
    cases begun with
    | none => rfl
    | some b => simp [cut, physical]
  | cons line rest ih =>
    rw [cut]
    split
    · next h =>
      obtain ⟨hnone, -⟩ := Bool.and_eq_true_iff.1 h
      obtain rfl := Option.isNone_iff_eq_none.1 hnone
      rw [List.flatMap_cons, ih]
      rfl
    · dsimp only
      split
      · rw [ih, Option.getD_some, List.append_assoc]
        rfl
      · rw [List.flatMap_cons, ih, physical, List.append_assoc]
        rfl

/-! ## Reading logical lines -/

/-- Reads logical lines from physical line `number` on, with the comment
lines `pending`. -/
def read (kept : Text) (number : Nat) (pending : List Text) : List LogicalLine → Reading
  | [] => ⟨[], .complete pending⟩
  | comment line :: rest => read kept (number + 1) (pending ++ [line]) rest
  | unterminated lines :: _ =>
    ⟨[], .failed pending .unterminated (number + lines.length - 1)⟩
  | property lines text :: rest =>
    match Property.ofLine kept pending number text with
    | .error e => ⟨[], .failed pending (.escape e) number⟩
    | .ok p =>
      let later := read kept (number + lines.length) [] rest
      ⟨p :: later.properties, later.ending⟩

/-- Reading on from the beginning of a property. -/
theorem run_begun (kept : Text) (number : Nat) (pending : List Text) (begun : Option Begun)
    (lines : List Text) :
    Reading.run kept (number + (begun.getD {}).lines.length) pending
        (begun.map fun b => ⟨number, b.text⟩) lines
      = read kept number pending (cut begun lines) := by
  induction lines generalizing number pending begun with
  | nil => cases begun <;> rfl
  | cons line rest ih =>
    -- the state of the reader is the same as that of the cutter: nothing,
    -- or a property that was begun on line `number`
    have hnone := fun n pending' => ih n pending' none
    have hstart : ((begun.map fun b => (⟨number, b.text⟩ : Reading.Unfinished)).map
        Reading.Unfinished.start).getD (number + (begun.getD {}).lines.length) = number := by
      cases begun <;> rfl
    have htext : ((begun.map fun b => (⟨number, b.text⟩ : Reading.Unfinished)).map
        Reading.Unfinished.line).getD [] = (begun.getD {}).text := by
      cases begun <;> rfl
    rw [Reading.run, cut, hstart, htext, Option.isNone_map]
    split
    · next h =>
      obtain ⟨hbegun, -⟩ := Bool.and_eq_true_iff.1 h
      obtain rfl := Option.isNone_iff_eq_none.1 hbegun
      exact hnone (number + 1) (pending ++ [line])
    · dsimp only
      split
      · refine Eq.trans ?_ (ih number pending (some ⟨_, _⟩))
        rw [Option.getD_some, List.length_append, List.length_singleton, Nat.add_assoc]
        rfl
      · rw [read]
        cases Property.ofLine kept pending number
            ((begun.getD {}).text ++ line.dropWhile isSpacing) with
        | error e => rfl
        | ok p =>
          have hrest := hnone (number + ((begun.getD {}).lines ++ [line]).length) []
          rw [List.length_append, List.length_singleton] at hrest
          dsimp only
          rw [List.length_append, List.length_singleton, ← hrest]
          rfl

/-- **Reading physical lines is reading the logical lines they make.** -/
theorem run_eq_read (kept : Text) (number : Nat) (pending lines : List Text) :
    Reading.run kept number pending none lines = read kept number pending (cut none lines) :=
  run_begun kept number pending none lines

theorem ofLines_eq_read (kept : Text) (lines : List Text) :
    Reading.ofLines kept lines = read kept 1 [] (cut none lines) :=
  run_eq_read kept 1 [] lines

/-- The property on a logical line, without its place. -/
def bare? (kept : Text) : LogicalLine → Option Property
  | property _ text => (Property.ofLine kept [] 0 text).toOption
  | _ => none

/-- Whether a logical line can be read: no escape is malformed and no
line is missing. -/
def IsReadable (kept : Text) : LogicalLine → Prop
  | comment _ => True
  | property _ text => ∃ p, Property.ofLine kept [] 0 text = .ok p
  | unterminated _ => False

/-- A property is read on a line as it is read on the line alone. -/
theorem ofLine_bare {kept text : Text} {pending : List Text} {number : Nat} {p : Property}
    (h : Property.ofLine kept pending number text = .ok p) :
    Property.ofLine kept [] 0 text = .ok p.bare :=
  ofLine_elsewhere h [] 0

/-- **What is read to the end is readable**, and the properties are those
of the logical lines. -/
theorem isReadable_of_read {kept : Text} {ls : List LogicalLine} {number : Nat}
    {pending : List Text} {properties : List Property} {trailing : List Text}
    (h : read kept number pending ls = ⟨properties, .complete trailing⟩) :
    (∀ l ∈ ls, l.IsReadable kept) ∧ properties.map Property.bare = ls.filterMap (bare? kept) := by
  induction ls generalizing number pending properties with
  | nil =>
    obtain ⟨rfl, -⟩ := Reading.mk.inj h
    exact ⟨fun l hl => absurd hl List.not_mem_nil, rfl⟩
  | cons l rest ih =>
    cases l with
    | comment line =>
      obtain ⟨hrest, hbare⟩ := ih h
      exact ⟨List.forall_mem_cons.2 ⟨trivial, hrest⟩, hbare⟩
    | unterminated lines => exact absurd (Reading.mk.inj h).2 nofun
    | property lines text =>
      rw [read] at h
      cases hp : Property.ofLine kept pending number text with
      | error e =>
        rw [hp] at h
        exact absurd (Reading.mk.inj h).2 nofun
      | ok p =>
        rw [hp] at h
        obtain ⟨rfl, hending⟩ := Reading.mk.inj h
        obtain ⟨hrest, hbare⟩ := @ih (number + lines.length) []
          (read kept (number + lines.length) [] rest).properties (by rw [← hending])
        have hline := ofLine_bare hp
        refine ⟨List.forall_mem_cons.2 ⟨⟨_, hline⟩, hrest⟩, ?_⟩
        rw [List.map_cons, hbare, List.filterMap_cons, bare?, hline]
        rfl

/-- **What is readable is read to the end.** -/
theorem exists_read {kept : Text} {ls : List LogicalLine} (h : ∀ l ∈ ls, l.IsReadable kept)
    (number : Nat) (pending : List Text) :
    ∃ properties trailing, read kept number pending ls = ⟨properties, .complete trailing⟩ ∧
      properties.map Property.bare = ls.filterMap (bare? kept) := by
  suffices hread : ∃ properties trailing,
      read kept number pending ls = ⟨properties, .complete trailing⟩ by
    obtain ⟨properties, trailing, hread⟩ := hread
    exact ⟨properties, trailing, hread, (isReadable_of_read hread).2⟩
  induction ls generalizing number pending with
  | nil => exact ⟨[], pending, rfl⟩
  | cons l rest ih =>
    obtain ⟨hl, hrest⟩ := List.forall_mem_cons.1 h
    cases l with
    | comment line => exact ih hrest (number + 1) (pending ++ [line])
    | unterminated lines => exact absurd hl id
    | property lines text =>
      obtain ⟨p, hp⟩ := hl
      obtain ⟨properties, trailing, hread⟩ := ih hrest (number + lines.length) []
      refine ⟨⟨p.key, p.value, p.separator, pending, number⟩ :: properties, trailing, ?_⟩
      rw [read, ofLine_elsewhere hp pending number]
      dsimp only
      rw [hread]

/-! ## Where logical lines stand -/

/-- Lines at the end of a file ask for a further one. -/
def IsTerminated : LogicalLine → Prop
  | unterminated _ => False
  | _ => True

theorem IsReadable.isTerminated {kept : Text} {l : LogicalLine} (h : l.IsReadable kept) :
    l.IsTerminated := by
  cases l with
  | comment line => trivial
  | property lines text => trivial
  | unterminated lines => exact h

/-- A logical line that was cut behind the beginning of a property is cut
the same way in front of other lines. -/
theorem cut_append_of_mem {begun : Option Begun} {lines : List Text} {l : LogicalLine}
    (hbegun : ∀ rest, cut none ((begun.getD {}).lines ++ rest) = cut begun rest)
    (hl : l ∈ cut begun lines) (hterminated : l.IsTerminated) (rest : List Text) :
    cut none (l.physical ++ rest) = l :: cut none rest := by
  induction lines generalizing begun with
  | nil =>
    cases begun with
    | none => exact absurd hl List.not_mem_nil
    | some b =>
      obtain rfl := List.mem_singleton.1 hl
      exact absurd hterminated id
  | cons line lines ih =>
    have hnext := fun rest => hbegun (line :: rest)
    rw [cut] at hl
    split at hl
    · next hcomment =>
      obtain rfl | hl := List.mem_cons.1 hl
      · obtain ⟨-, hline⟩ := Bool.and_eq_true_iff.1 hcomment
        show cut none (line :: rest) = _
        rw [cut, if_pos (by simp [hline])]
      · exact ih (fun _ => rfl) hl
    · next hcomment =>
      dsimp only at hl
      -- what was begun before the line is begun with it
      have hstep : ∀ rest, cut none ((begun.getD {}).lines ++ [line] ++ rest)
          = if endsWithContinuation ((begun.getD {}).text ++ line.dropWhile isSpacing) then
              cut (some ⟨(begun.getD {}).lines ++ [line],
                ((begun.getD {}).text ++ line.dropWhile isSpacing).dropLast⟩) rest
            else property ((begun.getD {}).lines ++ [line])
              ((begun.getD {}).text ++ line.dropWhile isSpacing) :: cut none rest := by
        intro rest
        rw [List.append_assoc, List.singleton_append, hnext, cut, if_neg hcomment]
      split at hl
      · next hcontinued =>
        refine ih (fun rest => ?_) hl
        rw [Option.getD_some, hstep, if_pos hcontinued]
      · next hended =>
        obtain rfl | hl := List.mem_cons.1 hl
        · rw [physical, hstep, if_neg hended]
        · exact ih (fun _ => rfl) hl

/-- **Logical lines can be put anywhere**: in front of other lines they
are cut as they were. -/
theorem cut_physical_append {lines : List Text} {l : LogicalLine} (hl : l ∈ cut none lines)
    (hterminated : l.IsTerminated) (rest : List Text) :
    cut none (l.physical ++ rest) = l :: cut none rest :=
  cut_append_of_mem (fun _ => rfl) hl hterminated rest

/-- Logical lines that were cut from files are cut again where they stand
one behind the other. -/
theorem cut_flatMap_physical {ls : List LogicalLine}
    (h : ∀ l ∈ ls, l.IsTerminated ∧ ∃ lines, l ∈ cut none lines) :
    cut none (ls.flatMap physical) = ls := by
  induction ls with
  | nil => rfl
  | cons l rest ih =>
    obtain ⟨⟨hterminated, lines, hl⟩, hrest⟩ := List.forall_mem_cons.1 h
    rw [List.flatMap_cons, cut_physical_append hl hterminated, ih hrest]

/-- The text of a logical line is not indented. -/
theorem noIndent_text {begun : Option Begun} (hbegun : ∀ b ∈ begun, NoIndent b.text)
    {lines ls : List Text} {text : Text} (h : property ls text ∈ cut begun lines) :
    NoIndent text := by
  induction lines generalizing begun with
  | nil => cases begun <;> simp [cut] at h
  | cons line rest ih =>
    have hnone : ∀ b ∈ (none : Option Begun), NoIndent b.text := fun b hb => absurd hb nofun
    have htext : NoIndent ((begun.getD {}).text ++ line.dropWhile isSpacing) := by
      refine NoIndent.append ?_ (noIndent_dropWhile line)
      cases begun with
      | none => exact fun _ _ h => absurd h nofun
      | some b => exact hbegun b rfl
    rw [cut] at h
    split at h
    · exact ih hnone ((List.mem_cons.1 h).resolve_left nofun)
    · dsimp only at h
      split at h
      · refine ih (fun b hb => ?_) h
        obtain rfl := Option.some.inj hb
        exact htext.dropLast
      · obtain heq | h := List.mem_cons.1 h
        · obtain ⟨-, rfl⟩ := LogicalLine.property.inj heq
          exact htext
        · exact ih hnone h

end LogicalLine

end PropertyFile
