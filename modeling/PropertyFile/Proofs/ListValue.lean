import PropertyFile.Proofs.InStep
import PropertyFile.Proofs.PropertyLine

/-!
# List values read back

A value passes through four hands before it is a value again. Writing
escapes its characters, and then puts a backslash before each list
delimiter in what it has written; reading resolves the escapes but for
those of the delimiter and the backslash, and then cuts the result where
a delimiter has no backslash before it.

What should be read of a value is the value with a backslash before each
of its delimiters and backslashes (`ListDelimiter.guard`), for that is
what is cut into the value alone, and joined with others into just these
(`cut_joinWith_guard`). Character by character this is so as long as the
delimiter **spares** what is written for the character
(`ListDelimiter.Spares`): it takes no part in an escape and is not what
the escape stands for. Where it does not, the value is cut in two or
cannot be read at all, so a value comes back exactly if all that is
written for it is spared (`split_protect_iff`).
-/

namespace PropertyFile

/-! ## What a value is written as -/

namespace Escape

/-- The characters of a value, each with what is written for it. -/
def pieces (ascii : Bool) (separator : Text) : Text → List (Char × Text)
  | [] => []
  | c :: rest =>
    (c, valueChar ascii true (separator.any isAssign) c) ::
      rest.map fun c => (c, valueChar ascii false true c)

theorem flatMap_pieces (ascii : Bool) (separator v : Text) :
    (pieces ascii separator v).flatMap Prod.snd = value ascii separator v := by
  cases v with
  | nil => rfl
  | cons c rest =>
    rw [pieces, List.flatMap_cons, List.flatMap_map]
    rfl

theorem map_pieces (ascii : Bool) (separator v : Text) :
    (pieces ascii separator v).map Prod.fst = v := by
  cases v with
  | nil => rfl
  | cons c rest =>
    rw [pieces, List.map_cons, List.map_map]
    exact congrArg (c :: ·) (List.map_id' rest)

/-- **A piece of a value**: a text that stands for a character, which for
a backslash is two of them. -/
structure IsPiece (c : Char) (w : Text) : Prop where
  /-- It stands for the character. -/
  writes : Writes c w
  /-- A backslash is written in one way. -/
  mark : c = escapeMark → w = [escapeMark, escapeMark]

theorem isPiece_valueChar (ascii first marked : Bool) (c : Char) :
    IsPiece c (valueChar ascii first marked c) :=
  ⟨writes_valueChar ascii first marked c, by rintro rfl; rfl⟩

theorem exists_of_mem_pieces {ascii : Bool} {separator v : Text} {p : Char × Text}
    (h : p ∈ pieces ascii separator v) :
    ∃ first marked, (separator.any isAssign = true → marked = true) ∧
      p.2 = valueChar ascii first marked p.1 := by
  cases v with
  | nil => exact absurd h List.not_mem_nil
  | cons c rest =>
    obtain rfl | h := List.mem_cons.1 h
    · exact ⟨true, _, id, rfl⟩
    · obtain ⟨c, -, rfl⟩ := List.mem_map.1 h
      exact ⟨false, true, fun _ => rfl, rfl⟩

theorem isPiece_of_mem {ascii : Bool} {separator v : Text} {p : Char × Text}
    (h : p ∈ pieces ascii separator v) : IsPiece p.1 p.2 := by
  obtain ⟨first, marked, -, hp⟩ := exists_of_mem_pieces h
  exact hp ▸ isPiece_valueChar ascii first marked p.1

/-- The characters of a numeric escape. -/
theorem mem_numeric {code : Nat} {x : Char} (h : x ∈ numeric code) :
    x = escapeMark ∨ x = 'u' ∨ x ∈ Text.hex 4 code := by
  simpa [numeric] using h

theorem mark_mem_unicode (c : Char) : 'u' ∈ unicode c := by
  unfold unicode
  dsimp only
  split <;> simp [numeric]

end Escape

namespace ListDelimiter

variable {d : ListDelimiter}

/-! ## Raw values -/

/-- A character as it stands in a raw value. -/
def guardChar (d : ListDelimiter) (c : Char) : Text :=
  if c = d.char ∨ c = escapeMark then [escapeMark, c] else [c]

/-- **The raw value that is cut into one value alone**: each delimiter and
each backslash has a backslash before it. -/
def guard (d : ListDelimiter) (v : Text) : Text := v.flatMap d.guardChar

theorem cut_guardChar (c : Char) (rest : Text) :
    d.cut (d.guardChar c ++ rest) = Text.consHead c (d.cut rest) := by
  unfold guardChar
  split
  · next h =>
    rw [List.cons_append, List.singleton_append, cut.eq_def]
    simp [h]
  · next h =>
    rw [not_or] at h
    rw [List.singleton_append, cut.eq_def]
    simp [h]

/-- A guarded value in front of a raw one makes its first part longer. -/
theorem cut_guard_append (v : Text) {rest first : Text} {later : List Text}
    (h : d.cut rest = first :: later) : d.cut (d.guard v ++ rest) = (v ++ first) :: later := by
  induction v with
  | nil => exact h
  | cons c v ih =>
    rw [guard, List.flatMap_cons, List.append_assoc, cut_guardChar]
    exact congrArg (Text.consHead c) ih

/-- A guarded value is not cut. -/
theorem cut_guard (v : Text) : d.cut (d.guard v) = [v] := by
  have hcut := cut_guard_append (d := d) v (show d.cut [] = [[]] from rfl)
  rwa [List.append_nil, List.append_nil] at hcut

theorem cut_delimiter (rest : Text) : d.cut (d.char :: rest) = [] :: d.cut rest := by
  rw [cut.eq_def]
  simp [d.ne_escape]

theorem length_consHead (c : Char) {parts : List Text} (h : parts ≠ []) :
    (Text.consHead c parts).length = parts.length := by
  cases parts with
  | nil => exact absurd rfl h
  | cons part rest => rfl

/-- **Guarded values that are joined come apart again**, whatever they
hold. -/
theorem cut_joinWith_guard {vs : List Text} (h : vs ≠ []) :
    d.cut (Text.joinWith [d.char] (vs.map d.guard)) = vs := by
  induction vs with
  | nil => exact absurd rfl h
  | cons v us ih =>
    cases us with
    | nil => exact cut_guard v
    | cons u us =>
      rw [List.map_cons, Text.joinWith_cons _ _ (by simp), List.append_assoc,
        List.singleton_append, cut_guard_append v (cut_delimiter _), ih (List.cons_ne_nil _ _),
        List.append_nil]

/-- Dropping blanks leaves the number of parts as it is. -/
theorem length_split (trim : Bool) (raw : Text) :
    (split (some d) trim raw).length = (d.cut raw).length := by
  unfold split
  dsimp only
  split <;> simp

/-- A raw value that is cut at a delimiter has two parts at least. -/
theorem two_le_length_cut_delimiter (rest : Text) : 2 ≤ (d.cut (d.char :: rest)).length := by
  rw [cut_delimiter, List.length_cons]
  exact Nat.succ_le_succ (List.length_pos_iff.2 (d.cut_ne_nil rest))

/-! ## Protecting -/

theorem protect_append (t u : Text) :
    protect (some d) (t ++ u) = protect (some d) t ++ protect (some d) u :=
  List.flatMap_append

theorem protect_of_not_mem {t : Text} (h : d.char ∉ t) : protect (some d) t = t := by
  induction t with
  | nil => rfl
  | cons c t ih =>
    rw [List.mem_cons, not_or] at h
    change (if c = d.char then _ else [c]) ++ protect (some d) t = c :: t
    rw [if_neg (Ne.symm h.1), ih h.2]
    rfl

theorem protect_mark_cons (e : Char) (t : Text) :
    protect (some d) (escapeMark :: e :: t)
      = escapeMark :: protect (some d) [e] ++ protect (some d) t := by
  rw [show escapeMark :: e :: t = [escapeMark] ++ ([e] ++ t) from rfl, protect_append,
    protect_append, protect_of_not_mem (mt List.mem_singleton.1 d.ne_escape)]
  rfl

theorem protect_delimiter : protect (some d) [d.char] = [escapeMark, d.char] := by
  change (if d.char = d.char then _ else _) ++ [] = _
  rw [if_pos rfl]
  rfl

/-- A backslash stands before the first delimiter of a text. -/
theorem mark_mem_take_protect {t : Text} (h : d.char ∈ t) :
    escapeMark ∈ (protect (some d) t).take t.length := by
  induction t with
  | nil => exact absurd h List.not_mem_nil
  | cons c t ih =>
    change escapeMark ∈ ((if c = d.char then [escapeMark, d.char] else [c]) ++
      protect (some d) t).take (t.length + 1)
    split
    · exact List.mem_cons_self
    · next hc =>
      have hmem := (List.mem_cons.1 h).resolve_left (Ne.symm hc)
      exact List.mem_cons_of_mem _ (ih hmem)

/-! ## Reading what is protected -/

section Reading

open Unescape

variable {c : Char} {w rest : Text}

/-- An escape of the backslash or the delimiter is left as it is. -/
theorem codes_kept {e : Char} (he : e ∈ kept (some d)) (rest : Text) :
    codes (kept (some d)) (escapeMark :: e :: rest)
      = (codes (kept (some d)) rest).map (escapeMark.toNat :: e.toNat :: ·) := by
  rw [codes.eq_def]
  simp [he]

theorem unescape_kept {e : Char} (he : e ∈ kept (some d)) (rest : Text) :
    unescape (kept (some d)) (escapeMark :: e :: rest)
      = (unescape (kept (some d)) rest).map (escapeMark :: e :: ·) := by
  unfold unescape
  rw [codes_kept he]
  cases codes (kept (some d)) rest with
  | error e => rfl
  | ok later =>
    refine congrArg Except.ok ?_
    rw [join_toNat, join_toNat]

theorem mem_kept {e : Char} : e ∈ kept (some d) ↔ e = escapeMark ∨ e = d.char := by
  simp [kept]

/-- **A delimiter spares a piece**: it takes no part in the escape, and is
not what the escape stands for. -/
def Spares (d : ListDelimiter) (c : Char) (w : Text) : Prop :=
  w = [c] ∨ c = escapeMark ∨ d.char ∉ w ∧ c ≠ d.char

instance (d : ListDelimiter) (c : Char) (w : Text) : Decidable (d.Spares c w) :=
  inferInstanceAs (Decidable (_ ∨ _))

/-- A piece that is spared is read as its character, guarded. -/
theorem Spares.unescape_protect (hspares : d.Spares c w) (hw : Escape.IsPiece c w)
    (rest : Text) :
    unescape (kept (some d)) (protect (some d) w ++ rest)
      = (unescape (kept (some d)) rest).map (d.guardChar c ++ ·) := by
  by_cases hmark : c = escapeMark
  · rw [hw.mark hmark, hmark, protect_of_not_mem (by simp [d.ne_escape])]
    rw [guardChar, if_pos (.inr rfl)]
    exact unescape_kept (mem_kept.2 (.inl rfl)) rest
  by_cases hself : w = [c]
  · by_cases hc : c = d.char
    · rw [hself, hc, protect_delimiter, guardChar, if_pos (.inl rfl)]
      exact unescape_kept (mem_kept.2 (.inr rfl)) rest
    · rw [hself, protect_of_not_mem (by simpa using Ne.symm hc), guardChar,
        if_neg (by simp [hc, hmark])]
      exact unescape_of_ne hmark rest
  obtain ⟨hmem, hc⟩ := (hspares.resolve_left hself).resolve_left hmark
  rw [protect_of_not_mem hmem, guardChar, if_neg (by simp [hc, hmark])]
  cases hw.writes with
  | itself => exact absurd rfl hself
  | @named e hu hnamed =>
    have he : e ∉ kept (some d) := by
      rw [mem_kept]
      rintro (rfl | rfl)
      · exact hmark hnamed.symm
      · exact hmem (by simp)
    exact hnamed ▸ unescape_escape he hu rest
  | unicode =>
    refine unescape_unicode (fun hu => ?_) c rest
    obtain hu | hu := mem_kept.1 hu
    · exact absurd hu (by decide)
    · exact hmem (hu ▸ Escape.mark_mem_unicode c)

/-- A text that is read with a delimiter on its own is cut there. -/
theorem two_le_of_delimiter {raw : Text} {x : Except MalformedEscape Text}
    (h : x.map (d.char :: ·) = .ok raw) : 2 ≤ (d.cut raw).length := by
  cases x with
  | error e => cases h
  | ok later =>
    obtain rfl := Except.ok.inj h
    exact two_le_length_cut_delimiter later

/-- A delimiter behind two backslashes is one on its own. -/
theorem two_le_of_marks {raw : Text} (rest : Text)
    (h : unescape (kept (some d)) (escapeMark :: escapeMark :: d.char :: rest) = .ok raw) :
    2 ≤ (d.cut raw).length := by
  rw [unescape_kept (mem_kept.2 (.inl rfl)), unescape_of_ne d.ne_escape] at h
  cases hrest : unescape (kept (some d)) rest with
  | error e => rw [hrest] at h; cases h
  | ok later =>
    rw [hrest] at h
    obtain rfl := Except.ok.inj h
    dsimp only
    have hguard : escapeMark :: escapeMark :: d.char :: later
        = d.guardChar escapeMark ++ d.char :: later := by
      rw [guardChar, if_pos (.inr rfl)]
      rfl
    rw [hguard, cut_guardChar, length_consHead _ (d.cut_ne_nil _)]
    exact two_le_length_cut_delimiter later

/-- A numeric escape with a backslash among its digits is malformed. -/
theorem codes_of_mark_mem {digits : Text} (hu : d.char ≠ 'u')
    (h : escapeMark ∈ digits.take 4) :
    ∃ e, codes (kept (some d)) (escapeMark :: 'u' :: digits) = .error e := by
  have hkept : 'u' ∉ kept (some d) := by
    rw [mem_kept, not_or]
    exact ⟨by decide, Ne.symm hu⟩
  rw [codes.eq_def]
  simp only [List.contains_eq_mem, decide_eq_true_eq, if_true, if_neg hkept]
  split
  · next h₁ h₂ h₃ h₄ rest' =>
    cases hdigits : fourDigits? h₁ h₂ h₃ h₄ with
    | none => exact ⟨_, rfl⟩
    | some code => exact absurd rfl (isOrdinary_of_fourDigits? hdigits _ h).1
  · exact ⟨_, rfl⟩

/-- A numeric escape that the delimiter is a digit of cannot be read once
that is protected. -/
theorem codes_protect_numeric {code : Nat} (hu : d.char ≠ 'u')
    (h : d.char ∈ Text.hex 4 code) (rest : Text) :
    ∃ e, codes (kept (some d)) (protect (some d) (Escape.numeric code) ++ rest) = .error e := by
  have hmem := mark_mem_take_protect h
  rw [Text.length_hex] at hmem
  have hstart : protect (some d) (Escape.numeric code) ++ rest
      = escapeMark :: 'u' :: (protect (some d) (Text.hex 4 code) ++ rest) := by
    rw [Escape.numeric, protect_mark_cons, protect_of_not_mem (mt List.mem_singleton.1 hu)]
    rfl
  rw [hstart]
  refine codes_of_mark_mem hu ?_
  rw [List.take_append]
  exact List.mem_append_left _ hmem

/-- So can the numeric escapes of a character. -/
theorem unescape_protect_unicode (hu : d.char ≠ 'u') (hmem : d.char ∈ Escape.unicode c)
    (rest : Text) :
    ∃ e, unescape (kept (some d)) (protect (some d) (Escape.unicode c) ++ rest) = .error e := by
  suffices hcodes :
      ∃ e, codes (kept (some d)) (protect (some d) (Escape.unicode c) ++ rest) = .error e by
    obtain ⟨e, he⟩ := hcodes
    exact ⟨e, by rw [unescape, he]; rfl⟩
  have hhex : ∀ {code : Nat}, d.char ∈ Escape.numeric code → d.char ∈ Text.hex 4 code :=
    fun h => ((Escape.mem_numeric h).resolve_left d.ne_escape).resolve_left hu
  have hc : c.toNat.isValidChar := c.valid
  simp only [Nat.isValidChar] at hc
  unfold Escape.unicode at hmem ⊢
  dsimp only at hmem ⊢
  split
  · next hcode =>
    rw [if_pos hcode] at hmem
    exact codes_protect_numeric hu (hhex hmem) rest
  · next hcode =>
    rw [if_neg hcode] at hmem
    rw [protect_append, List.append_assoc]
    by_cases hhigh : d.char ∈ Escape.numeric (0xd800 + (c.toNat - 0x10000) / 0x400)
    · exact codes_protect_numeric hu (hhex hhigh) _
    · -- the first half is read, and then the second one fails
      obtain ⟨e, he⟩ := codes_protect_numeric hu
        (hhex ((List.mem_append.1 hmem).resolve_left hhigh)) rest
      have hkept : 'u' ∉ kept (some d) := by
        rw [mem_kept, not_or]
        exact ⟨by decide, Ne.symm hu⟩
      rw [protect_of_not_mem hhigh, codes_written_numeric hkept (by omega), he]
      exact ⟨e, rfl⟩

/-- **A piece that is not spared cuts the value**, if it can be read at
all. -/
theorem two_le_of_not_spares (hspares : ¬d.Spares c w) (hw : Escape.IsPiece c w) {raw : Text}
    (h : unescape (kept (some d)) (protect (some d) w ++ rest) = .ok raw) :
    2 ≤ (d.cut raw).length := by
  unfold Spares at hspares
  rw [not_or, not_or] at hspares
  obtain ⟨hself, hmark, hspares⟩ := hspares
  have hcases : d.char ∈ w ∨ d.char ∉ w ∧ c = d.char := by
    by_cases hmem : d.char ∈ w
    · exact .inl hmem
    · exact .inr ⟨hmem, by_contra fun hc => hspares ⟨hmem, hc⟩⟩
  cases hw.writes with
  | itself => exact absurd rfl hself
  | @named e hu hnamed =>
    rw [protect_mark_cons] at h
    by_cases he : e = d.char
    · rw [he, protect_delimiter] at h
      exact two_le_of_marks _ h
    · have hc : c = d.char := by
        refine (hcases.resolve_left fun hmem => ?_).2
        obtain hd | hd := List.mem_cons.1 hmem
        · exact d.ne_escape hd
        · exact he (List.mem_singleton.1 hd).symm
      have hekept : e ∉ kept (some d) := by
        rw [mem_kept]
        rintro (rfl | rfl)
        · exact hmark hnamed.symm
        · exact he rfl
      rw [protect_of_not_mem (mt List.mem_singleton.1 (Ne.symm he))] at h
      change unescape _ (escapeMark :: e :: (protect (some d) [] ++ rest)) = _ at h
      rw [unescape_escape hekept hu, hnamed, hc] at h
      exact two_le_of_delimiter h
  | unicode =>
    by_cases hu : d.char = 'u'
    · obtain ⟨t, ht⟩ : ∃ t, Escape.unicode c = escapeMark :: 'u' :: t := by
        unfold Escape.unicode
        dsimp only
        split <;> exact ⟨_, rfl⟩
      rw [ht, ← hu, protect_mark_cons, protect_delimiter] at h
      exact two_le_of_marks _ h
    · obtain hmem | ⟨hmem, hc⟩ := hcases
      · obtain ⟨e, he⟩ := unescape_protect_unicode hu hmem rest
        rw [he] at h
        cases h
      · have hkept : 'u' ∉ kept (some d) := by
          rw [mem_kept, not_or]
          exact ⟨by decide, Ne.symm hu⟩
        rw [protect_of_not_mem hmem, unescape_unicode hkept, hc] at h
        exact two_le_of_delimiter h

/-! ## Whole values -/

/-- Pieces that are spared are read as their characters, guarded. -/
theorem unescape_protect_pieces {ps : List (Char × Text)}
    (hps : ∀ p ∈ ps, Escape.IsPiece p.1 p.2) (h : ∀ p ∈ ps, d.Spares p.1 p.2) (rest : Text) :
    unescape (kept (some d)) (protect (some d) (ps.flatMap Prod.snd) ++ rest)
      = (unescape (kept (some d)) rest).map (d.guard (ps.map Prod.fst) ++ ·) := by
  induction ps with
  | nil => exact (Escape.map_nil_append _).symm
  | cons p ps ih =>
    obtain ⟨hp, hps⟩ := List.forall_mem_cons.1 hps
    obtain ⟨hspares, h⟩ := List.forall_mem_cons.1 h
    rw [List.flatMap_cons, protect_append, List.append_assoc, hspares.unescape_protect hp,
      ih hps h]
    cases unescape (kept (some d)) rest with
    | error e => rfl
    | ok later => exact congrArg Except.ok (List.append_assoc _ _ _).symm

/-- **A value whose pieces are spared is read guarded**, whatever
follows. -/
theorem unescape_protect_value {ascii : Bool} {separator v : Text}
    (h : ∀ p ∈ Escape.pieces ascii separator v, d.Spares p.1 p.2) (rest : Text) :
    unescape (kept (some d)) (protect (some d) (Escape.value ascii separator v) ++ rest)
      = (unescape (kept (some d)) rest).map (d.guard v ++ ·) := by
  rw [← Escape.flatMap_pieces,
    unescape_protect_pieces (fun p hp => Escape.isPiece_of_mem hp) h, Escape.map_pieces]

/-- Pieces that are not all spared cut the value. -/
theorem two_le_of_pieces {ps : List (Char × Text)} (hps : ∀ p ∈ ps, Escape.IsPiece p.1 p.2)
    (h : ¬∀ p ∈ ps, d.Spares p.1 p.2) {raw : Text}
    (hraw : unescape (kept (some d)) (protect (some d) (ps.flatMap Prod.snd)) = .ok raw) :
    2 ≤ (d.cut raw).length := by
  induction ps generalizing raw with
  | nil => exact absurd (fun p hp => absurd hp List.not_mem_nil) h
  | cons p ps ih =>
    obtain ⟨hp, hps⟩ := List.forall_mem_cons.1 hps
    rw [List.flatMap_cons, protect_append] at hraw
    by_cases hspares : d.Spares p.1 p.2
    · rw [hspares.unescape_protect hp] at hraw
      cases hrest : unescape (kept (some d)) (protect (some d) (ps.flatMap Prod.snd)) with
      | error e => rw [hrest] at hraw; cases hraw
      | ok later =>
        rw [hrest] at hraw
        obtain rfl := Except.ok.inj hraw
        rw [cut_guardChar, length_consHead _ (d.cut_ne_nil later)]
        exact ih hps (fun h' => h (List.forall_mem_cons.2 ⟨hspares, h'⟩)) hrest
    · exact two_le_of_not_spares hspares hp hraw

/-- **A value comes back exactly if all of its pieces are spared.** -/
theorem split_protect_iff {ascii : Bool} {separator v : Text} :
    (unescape (kept (some d)) (protect (some d) (Escape.value ascii separator v))).map
        (split (some d) true) = .ok [v] ↔
      ∀ p ∈ Escape.pieces ascii separator v, d.Spares p.1 p.2 := by
  constructor
  · refine fun h => by_contra fun hspares => ?_
    rw [← Escape.flatMap_pieces] at h
    cases hraw : unescape (kept (some d)) (protect (some d)
        ((Escape.pieces ascii separator v).flatMap Prod.snd)) with
    | error e => rw [hraw] at h; cases h
    | ok raw =>
      rw [hraw] at h
      have htwo := two_le_of_pieces (fun p hp => Escape.isPiece_of_mem hp) hspares hraw
      have hone := congrArg List.length (Except.ok.inj h)
      rw [length_split, List.length_singleton] at hone
      omega
  · intro h
    have hraw := unescape_protect_value h []
    rw [List.append_nil] at hraw
    rw [hraw]
    change Except.ok (split (some d) true (d.guard v ++ [])) = _
    rw [List.append_nil]
    unfold split
    dsimp only
    rw [cut_guard]
    rfl

/-- What is written for some values on one line. -/
def joined (d : ListDelimiter) (ascii : Bool) (separator : Text) (vs : List Text) : Text :=
  Text.joinWith [d.char] ((vs.map (Escape.value ascii separator)).map (protect (some d)))

end Reading

end ListDelimiter

end PropertyFile
