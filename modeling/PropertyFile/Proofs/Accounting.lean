import PropertyFile.Proofs.Division
import PropertyFile.Proofs.PhysicalLine

/-!
# Every line is accounted for

A text that is read to the end is made up of what was read from it. Its
physical lines are, for each property in order, the comment lines in
front of it and the lines of the property itself, and at the end the
comment lines that belong to no property (`IsAccount`). No line is left
out, none is used twice, and the number a property was given is that of
its first line.

The converse holds as well. If the lines of a text can be accounted for
by some properties, then the text is read to the end, and these are the
properties that are read (`reading_complete_iff`). So an account says all
there is to say about such a reading.
-/

namespace PropertyFile

open PhysicalLines

/-- A property with the physical lines it is read from. -/
structure ReadProperty where
  /-- The property, with the comment lines in front of it. -/
  property : Property
  /-- Its own lines. -/
  lines : List Text
deriving DecidableEq, Repr

namespace ReadProperty

/-- All lines of a property, the comment lines in front included. -/
def physical (r : ReadProperty) : List Text := r.property.comments ++ r.lines

/-- The parts of the line that the lines of a property are joined to. -/
def parts (r : ReadProperty) : LineParts := LineParts.ofLine (LogicalLine.joined r.lines)

/-- **A property that is read from its lines.** -/
structure IsSound (kept : Text) (r : ReadProperty) : Prop where
  /-- Its comment lines are comment lines. -/
  comments : ∀ c ∈ r.property.comments, isCommentLine c = true
  /-- Its lines are those of a property. -/
  block : LogicalLine.IsBlock r.lines
  /-- Its key is the first part of what its lines are joined to. -/
  key : unescape [] r.parts.key = .ok r.property.key
  /-- Its separator is the second part, as it stands. -/
  separator : r.property.separator = r.parts.separator
  /-- Its value is the third part. -/
  value : unescape kept r.parts.value = .ok r.property.value

/-- **Properties that bear the numbers of their lines**, the first line of
all having number `start`. -/
def IsNumbered (start : Nat) (rs : List ReadProperty) : Prop :=
  ∀ before r after, rs = before ++ r :: after →
    r.property.line = start + (before.flatMap physical).length + r.property.comments.length

theorem isNumbered_nil (start : Nat) : IsNumbered start [] := by
  intro before r after h
  exact absurd h (by simp)

theorem isNumbered_cons_iff {start : Nat} {r : ReadProperty} {rest : List ReadProperty} :
    IsNumbered start (r :: rest) ↔
      r.property.line = start + r.property.comments.length ∧
        IsNumbered (start + r.physical.length) rest := by
  constructor
  · intro h
    refine ⟨h [] r rest rfl, fun before q after heq => ?_⟩
    rw [h (r :: before) q after (by rw [heq]; rfl), List.flatMap_cons, List.length_append]
    omega
  · rintro ⟨hr, hrest⟩ before q after heq
    cases before with
    | nil =>
      obtain ⟨rfl, -⟩ := List.cons.inj heq
      exact hr
    | cons b before =>
      obtain ⟨rfl, htail⟩ := List.cons.inj heq
      rw [hrest before q after htail, List.flatMap_cons, List.length_append]
      omega

/-- The logical lines of a property. -/
def logical (r : ReadProperty) : List LogicalLine :=
  r.property.comments.map .comment ++ [.property r.lines (LogicalLine.joined r.lines)]

end ReadProperty

open ReadProperty in
/-- **An account of physical lines**: properties that make up the lines,
together with the comment lines behind them. -/
structure IsAccount (kept : Text) (lines : List Text) (rs : List ReadProperty)
    (trailing : List Text) : Prop where
  /-- The lines are those of the properties, and the comment lines at the
  end. -/
  lines : lines = rs.flatMap physical ++ trailing
  /-- Each property is read from its lines. -/
  sound : ∀ r ∈ rs, r.IsSound kept
  /-- Each property starts on the line with its number, from 1. -/
  numbered : IsNumbered 1 rs
  /-- The lines at the end are comment lines. -/
  trailing : ∀ c ∈ trailing, isCommentLine c = true

namespace LogicalLine

open ReadProperty

theorem flatMap_physical_comments (comments : List Text) :
    (comments.map comment).flatMap LogicalLine.physical = comments := by
  rw [List.flatMap_map]
  exact List.flatMap_singleton' comments

theorem flatMap_physical_logical (rs : List ReadProperty) (trailing : List Text) :
    (rs.flatMap logical ++ trailing.map comment).flatMap LogicalLine.physical
      = rs.flatMap ReadProperty.physical ++ trailing := by
  rw [List.flatMap_append, flatMap_physical_comments, List.flatMap_assoc]
  refine congrArg (· ++ trailing) (congrArg rs.flatMap (funext fun r => ?_))
  rw [logical, List.flatMap_append, flatMap_physical_comments, List.flatMap_singleton]
  rfl

theorem read_comments (kept : Text) (number : Nat) (pending comments : List Text)
    (rest : List LogicalLine) :
    read kept number pending (comments.map comment ++ rest)
      = read kept (number + comments.length) (pending ++ comments) rest := by
  induction comments generalizing number pending with
  | nil => simp
  | cons line comments ih =>
    rw [List.map_cons, List.cons_append, read, ih, List.append_assoc, List.singleton_append,
      List.length_cons, Nat.add_assoc, Nat.add_comm 1]

/-- **Reading what is accounted for** gives the properties of the
account. -/
theorem read_logical {kept : Text} {rs : List ReadProperty} (hsound : ∀ r ∈ rs, r.IsSound kept)
    {start : Nat} (hnumbered : IsNumbered start rs) (trailing : List Text) :
    read kept start [] (rs.flatMap logical ++ trailing.map comment)
      = ⟨rs.map ReadProperty.property, .complete trailing⟩ := by
  induction rs generalizing start with
  | nil =>
    have hread := read_comments kept start [] trailing []
    rw [List.append_nil] at hread
    exact hread
  | cons r rest ih =>
    obtain ⟨hr, hrest⟩ := List.forall_mem_cons.1 hsound
    obtain ⟨hline, hlater⟩ := isNumbered_cons_iff.1 hnumbered
    have hproperty : Property.ofLine kept r.property.comments (start + r.property.comments.length)
        (joined r.lines) = .ok r.property :=
      Property.ofLine_eq_ok_iff.2 ⟨hr.key, hr.value, hr.separator, rfl, hline⟩
    have hnumber : start + r.property.comments.length + r.lines.length
        = start + r.physical.length := by
      rw [ReadProperty.physical, List.length_append, Nat.add_assoc]
    rw [List.flatMap_cons, logical, List.append_assoc, List.append_assoc, read_comments,
      List.nil_append, List.singleton_append, read, hproperty]
    dsimp only
    rw [hnumber, ih hrest hlater]
    rfl

/-- **What is read to the end is accounted for.** The induction is on the
logical lines; the comment lines that wait for their property are in
front of them. -/
theorem exists_logical_of_read {kept : Text} {ls : List LogicalLine}
    (hformed : ∀ l ∈ ls, l.IsFormed) {pending : List Text}
    (hpending : ∀ c ∈ pending, isCommentLine c = true) {start : Nat} {properties : List Property}
    {trailing : List Text}
    (h : read kept (start + pending.length) pending ls = ⟨properties, .complete trailing⟩) :
    ∃ rs, pending.map comment ++ ls = rs.flatMap logical ++ trailing.map comment ∧
      (∀ r ∈ rs, r.IsSound kept) ∧ IsNumbered start rs ∧
      rs.map ReadProperty.property = properties := by
  induction ls generalizing pending start properties with
  | nil =>
    obtain ⟨rfl, hending⟩ := Reading.mk.inj h
    obtain rfl := Ending.complete.inj hending
    exact ⟨[], List.append_nil _, fun r hr => absurd hr List.not_mem_nil, isNumbered_nil start, rfl⟩
  | cons l rest ih =>
    obtain ⟨hl, hrest⟩ := List.forall_mem_cons.1 hformed
    cases l with
    | comment line =>
      have hline : ∀ c ∈ pending ++ [line], isCommentLine c = true :=
        List.forall_mem_append.2 ⟨hpending, List.forall_mem_singleton.2 hl⟩
      rw [read, Nat.add_assoc, ← List.length_singleton (a := line), ← List.length_append] at h
      obtain ⟨rs, hlogical, hrs⟩ := ih hrest hline h
      refine ⟨rs, ?_, hrs⟩
      rw [← hlogical, List.map_append, List.append_assoc]
      rfl
    | unterminated lines => cases (Reading.mk.inj h).2
    | property lines text =>
      obtain ⟨hblock, rfl⟩ := hl
      rw [read] at h
      cases hp : Property.ofLine kept pending (start + pending.length) (joined lines) with
      | error e =>
        rw [hp] at h
        cases (Reading.mk.inj h).2
      | ok p =>
        rw [hp] at h
        obtain ⟨rfl, hending⟩ := Reading.mk.inj h
        obtain ⟨hkey, hvalue, hseparator, rfl, hnumber⟩ := Property.ofLine_eq_ok_iff.1 hp
        obtain ⟨rs, hlogical, hsound, hnumbered, hproperties⟩ :=
          @ih hrest [] (fun c hc => absurd hc List.not_mem_nil)
            (start + p.comments.length + lines.length) _ (by rw [← hending]; rfl)
        refine ⟨⟨p, lines⟩ :: rs, ?_, ?_, isNumbered_cons_iff.2 ⟨hnumber, ?_⟩,
          congrArg (p :: ·) hproperties⟩
        · rw [List.flatMap_cons, List.append_assoc, ← hlogical]
          simp [logical]
        · exact List.forall_mem_cons.2
            ⟨⟨hpending, hblock, hkey, hseparator, hvalue⟩, hsound⟩
        · rw [ReadProperty.physical, List.length_append, ← Nat.add_assoc]
          exact hnumbered

end LogicalLine

/-- An account divides its lines. -/
theorem IsAccount.isDivision {kept : Text} {lines trailing : List Text} {rs : List ReadProperty}
    (h : IsAccount kept lines rs trailing) :
    LogicalLine.IsDivision lines
      (rs.flatMap ReadProperty.logical ++ trailing.map LogicalLine.comment) := by
  have hcomments : ∀ {cs : List Text}, (∀ c ∈ cs, isCommentLine c = true) →
      ∀ l ∈ cs.map LogicalLine.comment, l.IsFormed ∧ l.IsTerminated := by
    intro cs hcs l hl
    obtain ⟨c, hc, rfl⟩ := List.mem_map.1 hl
    exact ⟨hcs c hc, trivial⟩
  have hall : ∀ l ∈ rs.flatMap ReadProperty.logical ++ trailing.map LogicalLine.comment,
      l.IsFormed ∧ l.IsTerminated := by
    intro l hl
    obtain hl | hl := List.mem_append.1 hl
    · obtain ⟨r, hr, hl⟩ := List.mem_flatMap.1 hl
      obtain hl | hl := List.mem_append.1 hl
      · exact hcomments (h.sound r hr).comments l hl
      · rw [List.mem_singleton.1 hl]
        exact ⟨⟨(h.sound r hr).block, rfl⟩, trivial⟩
    · exact hcomments h.trailing l hl
  exact ⟨(LogicalLine.flatMap_physical_logical rs trailing).trans h.lines.symm,
    fun l hl => (hall l hl).1, fun l hl => (hall l ((List.dropLast_subset _) hl)).2⟩

/-- What is read from lines to their end is an account of them. -/
theorem Reading.exists_isAccount {kept : Text} {lines : List Text} {properties : List Property}
    {trailing : List Text} (h : Reading.ofLines kept lines = ⟨properties, .complete trailing⟩) :
    ∃ rs, IsAccount kept lines rs trailing ∧ rs.map ReadProperty.property = properties := by
  rw [LogicalLine.ofLines_eq_read] at h
  have hdivision := LogicalLine.isDivision_iff.2 (Eq.refl (LogicalLine.cut none lines))
  obtain ⟨rs, hlogical, hsound, hnumbered, hproperties⟩ :=
    @LogicalLine.exists_logical_of_read kept _ hdivision.formed []
      (fun c hc => absurd hc List.not_mem_nil) 1 _ _ h
  rw [List.map_nil, List.nil_append] at hlogical
  refine ⟨rs, ⟨?_, hsound, hnumbered, fun c hc => ?_⟩, hproperties⟩
  · rw [← LogicalLine.flatMap_physical_logical, ← hlogical, hdivision.physical]
  · exact hdivision.formed (.comment c)
      (hlogical ▸ List.mem_append_right _ (List.mem_map_of_mem hc))

/-- Lines that are accounted for are read as the account says. -/
theorem IsAccount.ofLines_eq {kept : Text} {lines trailing : List Text} {rs : List ReadProperty}
    (h : IsAccount kept lines rs trailing) :
    Reading.ofLines kept lines = ⟨rs.map ReadProperty.property, .complete trailing⟩ := by
  rw [LogicalLine.ofLines_eq_read, h.isDivision.cut_eq]
  exact LogicalLine.read_logical h.sound h.numbered trailing

/-- **Reading to the end is accounting for every line.** A text is read as
some properties with some comment lines behind them if and only if these
properties, with lines of the text to be read from, are an account of all
its lines. -/
theorem reading_complete_iff (kept t : Text) (properties : List Property) (trailing : List Text) :
    Reading.ofLines kept (ofText t).lines = ⟨properties, .complete trailing⟩ ↔
      ∃ rs, IsAccount kept (ofText t).lines rs trailing ∧
        rs.map ReadProperty.property = properties := by
  constructor
  · exact Reading.exists_isAccount
  · rintro ⟨rs, haccount, rfl⟩
    exact haccount.ofLines_eq

/-- Lines that look like a comment or like nothing at all belong to the
property that asked for them. -/
example : Reading.ofLines [] (ofText "! c\n\tk=a\\\n # b\\\\\\\n\nl".toList).lines
    = ⟨[⟨['k'], "a# b\\".toList, ['='], ["! c".toList], 2⟩, ⟨['l'], [], [], [], 5⟩],
        .complete []⟩ := by
  decide +kernel

end PropertyFile
