import PropertyFile.Proofs.Accounting
import PropertyFile.Proofs.FailedRead
import PropertyFile.Proofs.Result

/-!
# Which texts are rejected

Reading a text stops at the first property that is **malformed**
(`LogicalLine.IsMalformed`), and at nothing else. There are two ways to be
malformed. A property is cut off if its last line is the last one of the
text and asks for a further one. Or an escape in its key or in its value
is a numeric one without its four digits (`HasMalformedEscape`). What
counts as an escape is found by going through the text in pairs; in a
value the pairs of kept characters are passed over.

So whether a text can be read is a matter of its logical lines
(`reading_failed_iff`). All properties before the malformed one are read,
and the fault is reported for the line this one starts on, or, if it is
cut off, for the last line of the text.
-/

namespace PropertyFile

open PhysicalLines

/-! ## Digits -/

/-- The hexadecimal digits. -/
def hexDigits : Text :=
  ['0', '1', '2', '3', '4', '5', '6', '7', '8', '9',
    'a', 'b', 'c', 'd', 'e', 'f', 'A', 'B', 'C', 'D', 'E', 'F']

/-- Digits that follow each other among the characters. -/
theorem mem_hexDigits_of_range {start size : Nat}
    (hall : ∀ n < size, Char.ofNat (start + n) ∈ hexDigits) {c : Char} (hle : start ≤ c.toNat)
    (hlt : c.toNat < start + size) : c ∈ hexDigits := by
  have hmem := hall (c.toNat - start) (by omega)
  rwa [Nat.add_sub_cancel' hle, Char.ofNat_toNat] at hmem

theorem hexValue?_ne_none_iff {c : Char} : Text.hexValue? c ≠ none ↔ c ∈ hexDigits := by
  constructor
  · intro h
    unfold Text.hexValue? at h
    simp only [Bool.and_eq_true, decide_eq_true_eq] at h
    split at h
    · next hc =>
      exact mem_hexDigits_of_range
        (by decide : ∀ n < 10, Char.ofNat (0x30 + n) ∈ hexDigits) hc.1 (by omega)
    split at h
    · next hc =>
      exact mem_hexDigits_of_range
        (by decide : ∀ n < 6, Char.ofNat (0x61 + n) ∈ hexDigits) hc.1 (by omega)
    split at h
    · next hc =>
      exact mem_hexDigits_of_range
        (by decide : ∀ n < 6, Char.ofNat (0x41 + n) ∈ hexDigits) hc.1 (by omega)
    · exact absurd rfl h
  · intro hc
    have hall : hexDigits.all (fun d => (Text.hexValue? d).isSome) = true := by decide
    exact Option.isSome_iff_ne_none.1 (List.all_eq_true.1 hall c hc)

/-- Whether a text starts with **four hexadecimal digits**. -/
def StartsWithDigits (t : Text) : Prop := 4 ≤ t.length ∧ ∀ c ∈ t.take 4, c ∈ hexDigits

instance (t : Text) : Decidable (StartsWithDigits t) := inferInstanceAs (Decidable (_ ∧ _))

/-- Four characters are the digits of a number if and only if all of them
are digits. -/
theorem startsWithDigits_iff {a b c d : Char} {rest : Text} :
    StartsWithDigits (a :: b :: c :: d :: rest) ↔
      ∃ code, Unescape.fourDigits? a b c d = some code := by
  have hfour : StartsWithDigits (a :: b :: c :: d :: rest) ↔
      ∀ x ∈ [a, b, c, d], Text.hexValue? x ≠ none := by
    simp only [hexValue?_ne_none_iff]
    exact and_iff_right (by simp)
  exact hfour.trans exists_hexNumber?_iff.symm

/-! ## Malformed escapes -/

/-- **A malformed escape**: in front of it the text is whole, so that it
is an escape, it is not one of those that are kept, and four hexadecimal
digits do not follow it. -/
def HasMalformedEscape (kept t : Text) : Prop :=
  'u' ∉ kept ∧ ∃ before after, t = before ++ escapeMark :: 'u' :: after ∧ IsWhole before ∧
    ¬ StartsWithDigits after

variable {kept : Text}

theorem not_hasMalformedEscape_nil : ¬ HasMalformedEscape kept [] := by
  rintro ⟨-, before, after, h, -⟩
  exact absurd h (by simp)

theorem not_hasMalformedEscape_mark : ¬ HasMalformedEscape kept [escapeMark] := by
  rintro ⟨-, before, after, h, -⟩
  have hlength := congrArg List.length h
  simp only [List.length_append, List.length_cons, List.length_nil] at hlength
  omega

theorem hasMalformedEscape_cons_iff {c : Char} (hc : c ≠ escapeMark) {rest : Text} :
    HasMalformedEscape kept (c :: rest) ↔ HasMalformedEscape kept rest := by
  refine and_congr_right fun _ => ?_
  constructor
  · rintro ⟨before, after, heq, hw, hdigits⟩
    obtain ⟨-, htail⟩ | ⟨before, -, hw, hrest⟩ := hw.of_cons_eq_append hc heq
    · exact absurd (List.cons.inj htail).1.symm hc
    · exact ⟨before, after, hrest, hw, hdigits⟩
  · rintro ⟨before, after, rfl, hw, hdigits⟩
    exact ⟨c :: before, after, rfl, .plain hc hw, hdigits⟩

/-- An escape is malformed itself, or one behind it is. -/
theorem hasMalformedEscape_pair_iff {e : Char} {rest : Text} :
    HasMalformedEscape kept (escapeMark :: e :: rest) ↔
      ('u' ∉ kept ∧ e = 'u' ∧ ¬ StartsWithDigits rest) ∨ HasMalformedEscape kept rest := by
  constructor
  · rintro ⟨hkept, before, after, heq, hw, hdigits⟩
    obtain ⟨-, htail⟩ | ⟨before, -, hw, hrest⟩ := hw.of_pair_eq_append heq
    · obtain ⟨-, htail⟩ := List.cons.inj htail
      obtain ⟨rfl, rfl⟩ := List.cons.inj htail
      exact .inl ⟨hkept, rfl, hdigits⟩
    · exact .inr ⟨hkept, before, after, hrest, hw, hdigits⟩
  · rintro (⟨hkept, rfl, hdigits⟩ | ⟨hkept, before, after, rfl, hw, hdigits⟩)
    · exact ⟨hkept, [], rest, rfl, .nil, hdigits⟩
    · exact ⟨hkept, escapeMark :: e :: before, after, rfl, .pair hw, hdigits⟩

/-- Behind four digits the text goes on as behind any characters. -/
theorem hasMalformedEscape_digits_iff {a b c d : Char} {code : Nat} {rest : Text}
    (h : Unescape.fourDigits? a b c d = some code) :
    HasMalformedEscape kept (a :: b :: c :: d :: rest) ↔ HasMalformedEscape kept rest := by
  have hne := fun x hx => (isOrdinary_of_fourDigits? h x hx).1
  rw [hasMalformedEscape_cons_iff (hne a (by simp)), hasMalformedEscape_cons_iff (hne b (by simp)),
    hasMalformedEscape_cons_iff (hne c (by simp)), hasMalformedEscape_cons_iff (hne d (by simp))]

/-- **Resolving the escapes of a text fails exactly if one of them is
malformed.** -/
theorem exists_codes_eq_error_iff (kept t : Text) :
    (∃ e, Unescape.codes kept t = .error e) ↔ HasMalformedEscape kept t := by
  fun_induction Unescape.codes kept t with
  | case1 =>
    refine iff_of_false ?_ not_hasMalformedEscape_nil
    rintro ⟨e, he⟩
    cases he
  | case2 =>
    refine iff_of_false ?_ not_hasMalformedEscape_mark
    rintro ⟨e, he⟩
    cases he
  | case3 e rest hkept ih =>
    have he : e ∈ kept := by simpa using hkept
    rw [exists_map_eq_error_iff, ih, hasMalformedEscape_pair_iff]
    exact (or_iff_right fun h => h.1 (h.2.1 ▸ he)).symm
  | case4 a b c d rest code hdigits hkept ih =>
    have hstarts : StartsWithDigits (a :: b :: c :: d :: rest) :=
      startsWithDigits_iff.2 ⟨code, hdigits⟩
    rw [exists_map_eq_error_iff, ih, hasMalformedEscape_pair_iff,
      hasMalformedEscape_digits_iff hdigits]
    exact (or_iff_right fun h => h.2.2 hstarts).symm
  | case5 a b c d rest hdigits hkept =>
    refine iff_of_true ⟨_, rfl⟩
      (hasMalformedEscape_pair_iff.2 (.inl ⟨by simpa using hkept, rfl, ?_⟩))
    rw [startsWithDigits_iff, hdigits]
    rintro ⟨code, hcode⟩
    cases hcode
  | case6 rest hshort hkept =>
    refine iff_of_true ⟨_, rfl⟩
      (hasMalformedEscape_pair_iff.2 (.inl ⟨by simpa using hkept, rfl, ?_⟩))
    -- fewer than four characters are left
    rintro ⟨hlength, -⟩
    rcases rest with _ | ⟨a, _ | ⟨b, _ | ⟨c, _ | ⟨d, rest⟩⟩⟩⟩
    case cons.cons.cons.cons => exact hshort a b c d rest rfl
    all_goals simp at hlength
  | case7 e rest _ hu ih =>
    rw [exists_map_eq_error_iff, ih, hasMalformedEscape_pair_iff]
    exact (or_iff_right fun h => hu h.2.1).symm
  | case8 c rest hc ih => rw [exists_map_eq_error_iff, ih, hasMalformedEscape_cons_iff hc]

theorem exists_unescape_eq_error_iff (kept t : Text) :
    (∃ e, unescape kept t = .error e) ↔ HasMalformedEscape kept t := by
  rw [unescape, exists_map_eq_error_iff, exists_codes_eq_error_iff]

/-! ## Malformed properties -/

namespace LogicalLine

/-- **A malformed property**: it is cut off, or there is a malformed escape
in its key or in its value. -/
def IsMalformed (kept : Text) : LogicalLine → Prop
  | comment _ => False
  | property _ text =>
    HasMalformedEscape [] (LineParts.ofLine text).key ∨
      HasMalformedEscape kept (LineParts.ofLine text).value
  | unterminated _ => True

/-- What is not malformed can be read, and nothing else can. -/
theorem isReadable_iff {l : LogicalLine} : l.IsReadable kept ↔ ¬ l.IsMalformed kept := by
  cases l with
  | comment line => exact iff_of_true trivial id
  | unterminated lines => exact iff_of_false id fun h => h trivial
  | property lines text =>
    show (∃ p, Property.ofLine kept [] 0 text = .ok p) ↔
      ¬ (HasMalformedEscape [] (LineParts.ofLine text).key ∨
        HasMalformedEscape kept (LineParts.ofLine text).value)
    rw [← exists_unescape_eq_error_iff, ← exists_unescape_eq_error_iff]
    constructor
    · rintro ⟨p, hp⟩ (⟨e, he⟩ | ⟨e, he⟩)
      · exact absurd ((Property.ofLine_eq_ok_iff.1 hp).1.symm.trans he) nofun
      · exact absurd ((Property.ofLine_eq_ok_iff.1 hp).2.1.symm.trans he) nofun
    · intro h
      obtain ⟨hkey, hvalue⟩ := not_or.1 h
      cases hk : unescape [] (LineParts.ofLine text).key with
      | error e => exact absurd ⟨e, hk⟩ hkey
      | ok key =>
        cases hv : unescape kept (LineParts.ofLine text).value with
        | error e => exact absurd ⟨e, hv⟩ hvalue
        | ok value =>
          exact ⟨⟨key, value, (LineParts.ofLine text).separator, [], 0⟩,
            Property.ofLine_eq_ok_iff.2 ⟨hk, hv, rfl, rfl, rfl⟩⟩

end LogicalLine

open LogicalLine

/-- **The first malformed property** among the logical lines of some
physical lines. -/
structure IsFirstMalformed (kept : Text) (lines : List Text) (before : List LogicalLine)
    (bad : LogicalLine) (behind : List LogicalLine) : Prop where
  /-- It is one of the logical lines. -/
  division : IsDivision lines (before ++ bad :: behind)
  /-- None of those before it is malformed. -/
  before : ∀ l ∈ before, ¬ l.IsMalformed kept
  /-- It is malformed itself. -/
  malformed : bad.IsMalformed kept

/-- What stands before the first malformed property can be read, and it
can not. -/
theorem IsFirstMalformed.beforeFault_eq {lines : List Text} {before behind : List LogicalLine}
    {bad : LogicalLine} (h : IsFirstMalformed kept lines before bad behind) :
    beforeFault kept (cut none lines) = before ∧ ∃ fault, bad.fault? kept = some fault := by
  have hbefore : ∀ l ∈ before, (l.fault? kept).isNone = true := fun l hl =>
    Option.isNone_iff_eq_none.2 (fault?_eq_none_iff.2 (isReadable_iff.2 (h.before l hl)))
  obtain ⟨fault, hfault⟩ := Option.ne_none_iff_exists'.1
    (fault?_eq_none_iff.not.2 fun hreadable => isReadable_iff.1 hreadable h.malformed)
  refine ⟨?_, fault, hfault⟩
  rw [h.division.cut_eq, beforeFault, List.takeWhile_append_of_pos hbefore,
    List.takeWhile_cons_of_neg (by simp [hfault]), List.append_nil]

/-- **What is read of lines with a malformed property**: the properties
before it, and its fault. -/
theorem IsFirstMalformed.ofLines_eq {lines : List Text} {before behind : List LogicalLine}
    {bad : LogicalLine} (h : IsFirstMalformed kept lines before bad behind) :
    ∃ rs pending fault, IsAccount kept (before.flatMap LogicalLine.physical) rs pending ∧
      bad.fault? kept = some fault ∧
      Reading.ofLines kept lines = ⟨rs.map ReadProperty.property, .failed pending fault
        (bad.faultLine (1 + (before.flatMap LogicalLine.physical).length))⟩ := by
  obtain ⟨hbefore, fault, hfault⟩ := h.beforeFault_eq
  obtain ⟨properties, pending, hread⟩ :=
    exists_read_append (fun l hl => isReadable_iff.2 (h.before l hl)) 1 []
  have hfails : Reading.ofLines kept lines = ⟨properties, .failed pending fault
      (bad.faultLine (1 + (before.flatMap LogicalLine.physical).length))⟩ := by
    rw [ofLines_eq_read, h.division.cut_eq, hread, read_of_fault?_eq_some hfault]
    exact congrArg (Reading.mk · _) (List.append_nil properties)
  obtain ⟨-, hcomplete⟩ := Reading.ofLines_beforeFault hfails
  rw [hbefore] at hcomplete
  obtain ⟨rs, haccount, rfl⟩ := Reading.exists_isAccount hcomplete
  exact ⟨rs, pending, fault, haccount, hfault, hfails⟩

/-- What fails has a first malformed property. -/
theorem Reading.exists_isFirstMalformed {lines : List Text} {properties : List Property}
    {pending : List Text} {fault : ReadFault} {number : Nat}
    (h : Reading.ofLines kept lines = ⟨properties, .failed pending fault number⟩) :
    ∃ before bad behind, IsFirstMalformed kept lines before bad behind := by
  obtain ⟨⟨bad, behind, hcut, hfault, -⟩, -⟩ := Reading.ofLines_beforeFault h
  have hbad : ¬ bad.IsReadable kept := by
    rw [← fault?_eq_none_iff, hfault]
    exact nofun
  exact ⟨_, bad, behind, isDivision_iff.2 hcut,
    fun l hl => isReadable_iff.1 (isReadable_of_mem_beforeFault hl),
    not_not.1 (isReadable_iff.not.1 hbad)⟩

/-- What is cut off ends the lines. -/
theorem IsFirstMalformed.length_eq {lines cutOff : List Text} {before behind : List LogicalLine}
    (h : IsFirstMalformed kept lines before (.unterminated cutOff) behind) :
    (before.flatMap LogicalLine.physical).length + cutOff.length = lines.length := by
  have hbehind : behind = [] := by
    by_contra hne
    refine h.division.terminated (.unterminated cutOff) ?_
    rw [List.dropLast_append_cons, List.dropLast_cons_of_ne_nil hne]
    exact List.mem_append_right _ List.mem_cons_self
  rw [← h.division.physical, hbehind, List.flatMap_append, List.length_append,
    List.flatMap_singleton]
  rfl

/-- **Reading fails exactly at the first malformed property.** All
properties before it are read, with the comment lines in front of them.
The fault is reported for the line the property starts on, or, if it is
cut off, for the last line of the text. -/
theorem reading_failed_iff (kept t : Text) :
    ((∃ properties pending fault number,
        Reading.ofLines kept (ofText t).lines = ⟨properties, .failed pending fault number⟩) ↔
      ∃ before bad behind, IsFirstMalformed kept (ofText t).lines before bad behind) ∧
    ∀ before bad behind, IsFirstMalformed kept (ofText t).lines before bad behind →
      ∃ rs pending fault number, IsAccount kept (before.flatMap LogicalLine.physical) rs pending ∧
        Reading.ofLines kept (ofText t).lines
          = ⟨rs.map ReadProperty.property, .failed pending fault number⟩ ∧
        (bad.IsTerminated ∧ (∃ e, fault = .escape e) ∧
            number = (before.flatMap LogicalLine.physical).length + 1 ∨
          ¬ bad.IsTerminated ∧ fault = .unterminated ∧ number = (ofText t).lines.length) := by
  refine ⟨⟨?_, ?_⟩, ?_⟩
  · rintro ⟨properties, pending, fault, number, h⟩
    exact Reading.exists_isFirstMalformed h
  · rintro ⟨before, bad, behind, h⟩
    obtain ⟨rs, pending, fault, -, -, hread⟩ := h.ofLines_eq
    exact ⟨_, pending, fault, _, hread⟩
  · intro before bad behind h
    obtain ⟨rs, pending, fault, haccount, hfault, hread⟩ := h.ofLines_eq
    refine ⟨rs, pending, fault, _, haccount, hread, ?_⟩
    cases bad with
    | comment line => exact absurd h.malformed id
    | property lines text =>
      have hescape : ∃ e, fault = .escape e := by
        unfold fault? at hfault
        dsimp only at hfault
        split at hfault
        · exact absurd hfault nofun
        · next e _ => exact ⟨e, (Option.some.inj hfault).symm⟩
      exact .inl ⟨trivial, hescape, Nat.add_comm 1 _⟩
    | unterminated lines =>
      refine .inr ⟨id, (Option.some.inj hfault).symm, ?_⟩
      have hlength := h.length_eq
      show 1 + (before.flatMap LogicalLine.physical).length + lines.length - 1 = _
      omega

/-- A comment asks for no further line, and in a value kept escapes are
passed over. The fault is on the second line of its property and is
reported for the first one. -/
example : Reading.ofLines ['\\', ',']
    (ofText "# c\\\na=\\,\\\\u00g\nk = \\\n \\u00e\nl".toList).lines
    = ⟨[⟨['a'], "\\,\\\\u00g".toList, ['='], ["# c\\".toList], 2⟩],
        .failed [] (.escape ⟨"\\u00e".toList⟩) 3⟩ := by
  decide +kernel

end PropertyFile
