import PropertyFile.CodePoint.Bytes
import PropertyFile.CodePoint.Store
import PropertyFile.Proofs.Escape
import PropertyFile.Proofs.Loading
import PropertyFile.Proofs.PhysicalLine

/-!
# Reading code points

Texts of characters are among those that may hold halves of surrogate
pairs (`Text.points`), and what is done to their code points is what is
done to them: they are cut into the same lines, their escapes are resolved
in the same way, and they are read as the same properties
(`CodeReading.ofText_points`), with the same faults.

Texts with halves are no less real than others: each of them is what some
bytes are read as (`CodeText.exists_ofBytes`).
-/

namespace PropertyFile

namespace Text

@[simp] theorem points_nil : points [] = [] := rfl

@[simp] theorem points_cons (c : Char) (t : Text) : points (c :: t) = .char c :: points t := rfl

@[simp] theorem points_append (t u : Text) : points (t ++ u) = points t ++ points u :=
  List.map_append

@[simp] theorem points_eq_nil_iff {t : Text} : points t = [] ↔ t = [] := List.map_eq_nil_iff

@[simp] theorem shape_points (t : Text) : t.points.shape = t := by
  rw [points, CodeText.shape, List.map_map]
  exact List.map_id t

theorem points_injective : Function.Injective points := fun t u h => by
  rw [← shape_points t, h, shape_points]

/-- Where the code points of a text start with a character, the text
does. -/
theorem exists_of_points_eq_cons {t : Text} {c : Char} {rest : CodeText}
    (h : t.points = .char c :: rest) : ∃ rest', t = c :: rest' := by
  obtain ⟨c', rest', rfl, hc, -⟩ := List.map_eq_cons_iff.1 h
  cases hc
  exact ⟨rest', rfl⟩

end Text

namespace CodeText

open Text

/-! ## Lines -/

theorem cut_points (t : Text) :
    t.points.cut
      = (points (PhysicalLines.cut t).1, (PhysicalLines.cut t).2.map fun x => points x.2) := by
  fun_induction PhysicalLines.cut t with
  | case1 => rfl
  | case2 rest line later hcut ih => simp [cut, ih, hcut]
  | case3 rest hne line later hcut ih =>
    have hlf : ∀ after, points rest = .char '\n' :: after → False := fun after h =>
      (exists_of_points_eq_cons h).elim hne
    rw [points_cons, cut.eq_3 _ hlf, ih, hcut]
    rfl
  | case4 rest line later hcut ih => simp [cut, ih, hcut]
  | case5 c rest hcrlf hcr hlf line later hcut ih =>
    have hne : ∀ {d : Char}, (c = d → False) → CodePoint.char c = .char d → False :=
      fun h hc => h (CodePoint.char.inj hc)
    rw [points_cons, cut.eq_5 _ _ (fun _ hc _ => hne hcr hc) (hne hcr) (hne hlf), ih, hcut]
    rfl

theorem stretches_points (t : Text) :
    t.points.cut.1 :: t.points.cut.2
      = ((PhysicalLines.cut t).1 :: (PhysicalLines.cut t).2.map Prod.snd).map points := by
  rw [cut_points, List.map_cons, List.map_map]
  rfl

theorem finalBreak_points (t : Text) :
    t.points.finalBreak = (PhysicalLines.ofText t).finalBreak := by
  rw [finalBreak, stretches_points, List.getLast?_map]
  simp only [PhysicalLines.ofText]
  generalize ((PhysicalLines.cut t).1 :: (PhysicalLines.cut t).2.map Prod.snd).getLast? = last
  cases last <;> simp

/-- A text of characters has the lines it has. -/
theorem lines_points (t : Text) : t.points.lines = (PhysicalLines.ofText t).lines.map points := by
  rw [lines, finalBreak_points, stretches_points, ← List.map_dropLast,
    ← apply_ite (List.map points)]
  refine congrArg (List.map points) ?_
  simp only [PhysicalLines.ofText, decide_eq_true_eq]

/-! ## Escapes -/

theorem codes_points (t : Text) :
    codes t.points = (Unescape.codes [] t).mapError fun e => e.fragment.points := by
  have hmap : ∀ (f : List Nat → List Nat) (x : Except MalformedEscape (List Nat)),
      ((x.map f).mapError fun e => e.fragment.points)
        = (x.mapError fun e => e.fragment.points).map f := by
    intro f x
    cases x <;> rfl
  fun_induction Unescape.codes [] t with
  | case1 | case2 => rfl
  | case3 => contradiction
  | case4 h₁ h₂ h₃ h₄ rest code hdigits _ ih =>
    rw [hmap, ← ih]
    simp [codes, CodePoint.shape, hdigits]
  | case5 h₁ h₂ h₃ h₄ rest hdigits =>
    simp [codes, CodePoint.shape, hdigits, Except.mapError]
  | case6 cutOff hshort =>
    rcases cutOff with _ | ⟨a, _ | ⟨b, _ | ⟨c, _ | ⟨d, rest⟩⟩⟩⟩
    · rfl
    · rfl
    · rfl
    · rfl
    · exact (hshort a b c d rest rfl).elim
  | case7 e rest _ hu ih =>
    rw [hmap, ← ih, points_cons, points_cons, codes.eq_def]
    simp [named, hu]
  | case8 c rest hc ih =>
    rw [hmap, ← ih, points_cons, codes.eq_def]
    simp [CodePoint.number, hc]

/-- Without a backslash there is nothing to resolve. -/
theorem unescape_of_not_mem {t : Text} (h : escapeMark ∉ t) :
    PropertyFile.unescape [] t = .ok t := by
  induction t with
  | nil => rfl
  | cons c rest ih =>
    obtain ⟨hc, hrest⟩ := not_or.1 (mt List.mem_cons.2 h)
    rw [Unescape.unescape_of_ne (Ne.symm hc), ih hrest]
    rfl

theorem unescape_points (t : Text) :
    unescape t.points
      = ((PropertyFile.unescape [] t).map points).mapError fun e => e.fragment.points := by
  have hmem : CodePoint.char escapeMark ∈ points t ↔ escapeMark ∈ t := by
    simp [points]
  rw [unescape]
  by_cases hmark : escapeMark ∈ t
  · rw [if_pos (hmem.2 hmark), codes_points, PropertyFile.unescape]
    cases Unescape.codes [] t <;> rfl
  · rw [if_neg (mt hmem.1 hmark), unescape_of_not_mem hmark]
    rfl

end CodeText

/-! ## Reading -/

open CodeText Text

theorem CodeFault.message_ofFault (f : ReadFault) : (ofFault f).message = f.message := by
  cases f with
  | unterminated => rfl
  | escape e =>
    refine congrArg ("Malformed \\uXXXX escape: " ++ ·) ?_
    rw [CodeText.quoted, shape_points, Text.quoted, points, List.flatMap_map]
    rfl

theorem CodeProperty.ofLine_points (comments : List Text) (number : Nat) (line : Text) :
    ofLine (comments.map points) number line.points
      = ((Property.ofLine [] comments number line).map ofProperty).mapError
          fun e => e.fragment.points := by
  have happend := LineParts.ofLine_append line
  rw [ofLine, Property.ofLine, shape_points]
  generalize LineParts.ofLine line = parts at happend
  have hkey : line.points.take parts.key.length = parts.key.points := by
    rw [points, ← List.map_take, ← happend, List.append_assoc, List.take_left]
    rfl
  have hvalue : line.points.drop (parts.key.length + parts.separator.length)
      = parts.value.points := by
    rw [points, ← List.map_drop, ← List.length_append, ← happend, List.drop_left]
    rfl
  rw [hkey, hvalue, unescape_points, unescape_points]
  cases PropertyFile.unescape [] parts.key with
  | error e => rfl
  | ok key => cases PropertyFile.unescape [] parts.value <;> rfl

namespace CodeReading

/-- A line of characters that announced another one. -/
def ofUnfinished (u : Reading.Unfinished) : Nat × CodeText := (u.start, u.line.points)

theorem run_points (number : Nat) (pending : List Text) (unfinished : Option Reading.Unfinished)
    (lines : List Text) :
    run number (pending.map points) (unfinished.map ofUnfinished) (lines.map points)
      = ofReading (Reading.run [] number pending unfinished lines) := by
  induction lines generalizing number pending unfinished with
  | nil => cases unfinished <;> rfl
  | cons physical rest ih =>
    have hstart : ((unfinished.map ofUnfinished).map Prod.fst).getD number
        = (unfinished.map Reading.Unfinished.start).getD number := by
      cases unfinished <;> rfl
    have hline : ((unfinished.map ofUnfinished).map Prod.snd).getD []
          ++ physical.points.dropWhile (isSpacing ·.shape)
        = points ((unfinished.map Reading.Unfinished.line).getD [] ++
            physical.dropWhile isSpacing) := by
      rw [points_append, points, List.dropWhile_map]
      cases unfinished <;> rfl
    rw [List.map_cons, run, Reading.run, Option.isNone_map, shape_points, hstart, hline]
    split
    · exact (congrArg (run (number + 1) · none (rest.map points)) List.map_append).symm.trans
        (ih (number + 1) (pending ++ [physical]) none)
    · dsimp only
      rw [shape_points]
      generalize (unfinished.map Reading.Unfinished.start).getD number = start
      generalize (unfinished.map Reading.Unfinished.line).getD [] ++
        physical.dropWhile isSpacing = line
      split
      · rw [points, ← List.map_dropLast]
        exact ih (number + 1) pending (some ⟨start, line.dropLast⟩)
      · rw [CodeProperty.ofLine_points]
        cases Property.ofLine [] pending start line with
        | error e => rfl
        | ok property =>
          have hrest := ih (number + 1) [] none
          simp only [List.map_nil, Option.map_none] at hrest
          simp only [Except.map, Except.mapError, hrest]
          rfl

/-- **Reading a text of characters** comes to what reading it is. -/
theorem ofText_points (t : Text) :
    ofText t.points = ofReading (Reading.ofLines [] (PhysicalLines.ofText t).lines) := by
  rw [ofText, lines_points]
  exact run_points 1 [] none _

end CodeReading

/-! ## Bytes -/

namespace CodePoint

theorem number_lt : ∀ c : CodePoint, c.number < 0x110000
  | char c => c.valid.elim (fun h => Nat.lt_trans h (by decide)) And.right
  | half n => Nat.lt_of_lt_of_le (Nat.add_lt_add_left n.isLt _) (by decide)

/-- A code point is that of its number. -/
theorem ofNumber?_number (c : CodePoint) : ofNumber? c.number = some c := by
  cases c with
  | char c =>
    have hvalid : c.toNat < 0xd800 ∨ 0xdfff < c.toNat ∧ c.toNat < 0x110000 := c.valid
    have hnot : ¬ (0xd800 ≤ (char c).number ∧ (char c).number - 0xd800 < 0x800) := by
      show ¬ (0xd800 ≤ c.toNat ∧ c.toNat - 0xd800 < 0x800)
      omega
    rw [ofNumber?, dif_neg hnot, if_pos (number_lt _), number, Char.ofNat_toNat]
  | half n =>
    have hnumber : 0xd800 + n.val - 0xd800 = n := Nat.add_sub_cancel_left _ _
    have hhalf : 0xd800 ≤ 0xd800 + n.val ∧ 0xd800 + n.val - 0xd800 < 0x800 :=
      ⟨Nat.le_add_right _ _, hnumber.symm ▸ n.isLt⟩
    rw [ofNumber?, number, dif_pos hhalf]
    exact congrArg (some <| half ·) (Fin.ext hnumber)

/-- A code point as it is written by its number, whatever it is. -/
def spelled (c : CodePoint) : Text := '\\' :: 'U' :: Text.hex 8 c.number

end CodePoint

namespace CodeText

open CodePoint

theorem numbered_hex (c : CodePoint) (rest : Text) :
    numbered 8 (Text.hex 8 c.number ++ rest) = .ok c := by
  have hdigits : ∀ d ∈ Text.hex 8 c.number, (Text.hexValue? d).isSome = true :=
    Text.forall_mem_hex (by decide) 8 _
  have hnumber : Text.hexNumber? (Text.hex 8 c.number) = some c.number :=
    Text.hexNumber?_hex (Nat.lt_trans c.number_lt (by decide))
  rw [numbered, List.take_left' (Text.length_hex 8 _), List.takeWhile_eq_self_iff.2 hdigits,
    hnumber]
  dsimp only
  rw [Text.length_hex, if_neg (Nat.lt_irrefl 8), ofNumber?_number]

/-- Bytes that belong to what stands before them are passed over. -/
theorem decodeFrom_taken (pos : Nat) (taken rest : List UInt8) :
    decodeFrom pos taken.length (taken ++ rest) = decodeFrom (pos + taken.length) 0 rest := by
  induction taken generalizing pos with
  | nil => rfl
  | cons b taken ih =>
    rw [List.length_cons, List.cons_append, decodeFrom, ih, Nat.add_right_comm]
    rfl

/-- The bytes of a text whose characters have one each. -/
def byteString (t : Text) : List UInt8 := t.map fun c => c.toNat.toUInt8

theorem byteChar_toUInt8 {c : Char} (h : c.toNat < 0x80) : byteChar c.toNat.toUInt8 = c := by
  rw [byteChar, Nat.toUInt8_eq, UInt8.toNat_ofNat', Nat.mod_eq_of_lt (Nat.lt_trans h (by decide)),
    Char.ofNat_toNat]

theorem map_byteChar {t : Text} (h : ∀ c ∈ t, c.toNat < 0x80) :
    (byteString t).map byteChar = t := by
  rw [byteString, List.map_map]
  exact (List.map_congr_left fun c hc => byteChar_toUInt8 (h c hc)).trans (List.map_id t)

/-- Where a backslash and a letter announce a number, the code point of
that number is read. -/
theorem decodeFrom_announced {letter : Char} {behind : Text} {digits : Nat} {c : CodePoint}
    {rest : List UInt8} (hrest : rest.map byteChar = letter :: behind)
    (hletter : announcedDigits? letter = some digits) (hnumber : numbered digits behind = .ok c)
    (pos : Nat) :
    decodeFrom pos 0 ('\\'.toNat.toUInt8 :: rest)
      = (decodeFrom (pos + 1) (digits + 1) rest).map (c :: ·) := by
  have hmark : byteChar '\\'.toNat.toUInt8 = '\\' := rfl
  simp only [decodeFrom, hmark, hrest, hletter, hnumber]

theorem decodeFrom_spelled (pos : Nat) (c : CodePoint) (rest : List UInt8) :
    decodeFrom pos 0 (byteString c.spelled ++ rest)
      = (decodeFrom (pos + 10) 0 rest).map (c :: ·) := by
  have hnumber : (byteString ('U' :: Text.hex 8 c.number)).map byteChar
      = 'U' :: Text.hex 8 c.number :=
    map_byteChar <| List.forall_mem_cons.2 ⟨by decide, Text.forall_mem_hex (by decide) 8 _⟩
  have hrest : (byteString ('U' :: Text.hex 8 c.number) ++ rest).map byteChar
      = 'U' :: (Text.hex 8 c.number ++ rest.map byteChar) := by
    rw [List.map_append, hnumber, List.cons_append]
  have hlength : (byteString ('U' :: Text.hex 8 c.number)).length = 9 := by
    rw [byteString, List.length_map, List.length_cons, Text.length_hex]
  have htaken := decodeFrom_taken (pos + 1) (byteString ('U' :: Text.hex 8 c.number)) rest
  rw [hlength] at htaken
  exact (decodeFrom_announced hrest rfl (numbered_hex c _) pos).trans
    (congrArg (Except.map (c :: ·)) htaken)

/-- **Every text of code points** is that of some bytes. -/
theorem exists_ofBytes (t : CodeText) : ∃ bytes, ofBytes bytes = .ok t := by
  suffices h : ∀ pos, decodeFrom pos 0 (t.flatMap fun c => byteString c.spelled) = .ok t from
    ⟨_, h 0⟩
  induction t with
  | nil => exact fun pos => rfl
  | cons c t ih =>
    intro pos
    rw [List.flatMap_cons, decodeFrom_spelled, ih]
    rfl

end CodeText

end PropertyFile
