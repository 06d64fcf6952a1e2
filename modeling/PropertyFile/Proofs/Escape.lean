import PropertyFile.Escape
import PropertyFile.Proofs.Text
import PropertyFile.Unescape

/-!
# Escaped texts

A text is **escaped** (`IsEscaped`) if it is made of plain characters
and of complete escapes: it can be read from the left without being cut
off in the middle of one. Writing a key or a value gives an escaped
text, whatever its characters are, and resolving the escapes of an
escaped text never fails.

More precisely every character is written as one of the texts that stand
for it (`Writes`), and such a text is resolved into that character
whatever follows: resolving escapes undoes escaping (`unescape_key`,
`unescape_value`). A character beyond the sixteenth bit is no exception.
It is written as two numeric escapes, and the two halves meet again
because no character is half of a surrogate pair by itself.
-/

namespace PropertyFile

namespace Unescape

variable {kept : Text}

/-! ## Resolving one escape -/

theorem codes_of_ne {c : Char} (h : c ≠ escapeMark) (rest : Text) :
    codes kept (c :: rest) = (codes kept rest).map (c.toNat :: ·) := by
  rw [codes.eq_def]
  exact if_neg h

theorem codes_escape {e : Char} (hk : e ∉ kept) (hu : e ≠ 'u') (rest : Text) :
    codes kept (escapeMark :: e :: rest) = (codes kept rest).map ((named e).toNat :: ·) := by
  rw [codes.eq_def]
  simp [hk, hu]

theorem codes_numeric {a b c d : Char} {code : Nat} (hk : 'u' ∉ kept)
    (h : fourDigits? a b c d = some code) (rest : Text) :
    codes kept (escapeMark :: 'u' :: a :: b :: c :: d :: rest)
      = (codes kept rest).map (code :: ·) := by
  rw [codes.eq_def]
  simp [hk, h]

/-! ## Joining code points -/

theorem isHigh_toNat (c : Char) : isHigh c.toNat = false := by
  have hc : c.toNat.isValidChar := c.valid
  simp only [Nat.isValidChar] at hc
  simp only [isHigh, Bool.and_eq_false_iff, decide_eq_false_iff_not]
  omega

theorem single_toNat (c : Char) : single c.toNat = c := by
  have hc : c.toNat.isValidChar := c.valid
  have hlow : isLow c.toNat = false := by
    simp only [Nat.isValidChar] at hc
    simp only [isLow, Bool.and_eq_false_iff, decide_eq_false_iff_not]
    omega
  simp [single, isHigh_toNat, hlow]

/-- The code point of a character stands for that character alone. -/
theorem join_toNat (c : Char) (rest : List Nat) : join (c.toNat :: rest) = c :: join rest := by
  cases rest with
  | nil => exact congrArg (· :: []) (single_toNat c)
  | cons code rest =>
    rw [join, isHigh_toNat, Bool.false_and, if_neg Bool.false_ne_true, single_toNat]

/-- The two halves of a character beyond the sixteenth bit are joined
again. -/
theorem join_halves {c : Char} (h : 0xffff < c.toNat) (rest : List Nat) :
    join ((0xd800 + (c.toNat - 0x10000) / 0x400) :: (0xdc00 + (c.toNat - 0x10000) % 0x400) :: rest)
      = c :: join rest := by
  have hc : c.toNat.isValidChar := c.valid
  simp only [Nat.isValidChar] at hc
  have hhigh : isHigh (0xd800 + (c.toNat - 0x10000) / 0x400) = true := by
    simp only [isHigh, Bool.and_eq_true, decide_eq_true_eq]
    omega
  have hlow : isLow (0xdc00 + (c.toNat - 0x10000) % 0x400) = true := by
    simp only [isLow, Bool.and_eq_true, decide_eq_true_eq]
    omega
  have hpair : pair (0xd800 + (c.toNat - 0x10000) / 0x400)
      (0xdc00 + (c.toNat - 0x10000) % 0x400) = c := by
    rw [pair, show 0x10000 + (0xd800 + (c.toNat - 0x10000) / 0x400 - 0xd800) * 0x400
      + (0xdc00 + (c.toNat - 0x10000) % 0x400 - 0xdc00) = c.toNat by omega, Char.ofNat_toNat]
  rw [join, hhigh, hlow, Bool.and_self, if_pos rfl, hpair]

/-- No code points but none at all come to the empty text. -/
theorem join_eq_nil_iff {codes : List Nat} : join codes = [] ↔ codes = [] := by
  cases codes with
  | nil => simp [join]
  | cons code rest =>
    rw [join.eq_def]
    cases rest with
    | nil => simp
    | cons low rest =>
      dsimp only
      split <;> simp

theorem map_cons_ne_nil {f : List Nat → List Nat} (hf : ∀ ns, f ns ≠ [])
    (x : Except MalformedEscape (List Nat)) : x.map f ≠ .ok [] := by
  cases x with
  | error e => nofun
  | ok ns => exact fun h => hf ns (Except.ok.inj h)

/-- Only the empty text comes to no code points. -/
theorem eq_nil_of_codes_eq_nil {t : Text} (h : codes kept t = .ok []) : t = [] := by
  fun_induction codes kept t with
  | case1 => rfl
  | case2 | case5 | case6 => cases h
  | case3 | case4 | case7 | case8 =>
    exact absurd h (map_cons_ne_nil (fun _ => List.cons_ne_nil _ _) _)

/-- Only the empty text is resolved into the empty text. -/
theorem eq_nil_of_unescape_eq_nil {t : Text} (h : unescape kept t = .ok []) : t = [] := by
  unfold unescape at h
  cases hc : codes kept t with
  | error e => rw [hc] at h; exact absurd h nofun
  | ok ns =>
    rw [hc] at h
    have hns : ns = [] := join_eq_nil_iff.1 (Except.ok.inj h)
    exact eq_nil_of_codes_eq_nil (hns ▸ hc)

/-! ## Resolving the escapes of one character -/

/-- Code points that stand for one character whatever follows make it
the first of the text. -/
theorem unescape_of_codes {t rest : Text} {c : Char} (front : List Nat)
    (hcodes : codes kept t = (codes kept rest).map (front ++ ·))
    (hjoin : ∀ later, join (front ++ later) = c :: join later) :
    unescape kept t = (unescape kept rest).map (c :: ·) := by
  rw [unescape, unescape, hcodes]
  cases codes kept rest with
  | error e => rfl
  | ok later => exact congrArg Except.ok (hjoin later)

theorem unescape_of_ne {c : Char} (h : c ≠ escapeMark) (rest : Text) :
    unescape kept (c :: rest) = (unescape kept rest).map (c :: ·) :=
  unescape_of_codes [c.toNat] (codes_of_ne h rest) (join_toNat c)

theorem unescape_escape {e : Char} (hk : e ∉ kept) (hu : e ≠ 'u') (rest : Text) :
    unescape kept (escapeMark :: e :: rest) = (unescape kept rest).map (named e :: ·) :=
  unescape_of_codes [(named e).toNat] (codes_escape hk hu rest) (join_toNat (named e))

/-- The digits of a number are read as that number. -/
theorem fourDigits?_hex {code : Nat} (h : code ≤ 0xffff) :
    ∃ a b c d, Text.hex 4 code = [a, b, c, d] ∧ fourDigits? a b c d = some code := by
  refine ⟨_, _, _, _, rfl, ?_⟩
  have hfits : code < Nat.pow 16 4 := by
    show code < 65536
    omega
  exact Text.hexNumber?_hex hfits

theorem codes_written_numeric {code : Nat} (hk : 'u' ∉ kept) (h : code ≤ 0xffff) (rest : Text) :
    codes kept (Escape.numeric code ++ rest) = (codes kept rest).map (code :: ·) := by
  obtain ⟨a, b, c, d, hhex, hdigits⟩ := fourDigits?_hex h
  rw [Escape.numeric, hhex]
  exact codes_numeric hk hdigits rest

/-- A character written by its code point is read as that character. -/
theorem unescape_unicode (hk : 'u' ∉ kept) (c : Char) (rest : Text) :
    unescape kept (Escape.unicode c ++ rest) = (unescape kept rest).map (c :: ·) := by
  have hc : c.toNat.isValidChar := c.valid
  simp only [Nat.isValidChar] at hc
  unfold Escape.unicode
  by_cases h : c.toNat ≤ 0xffff
  · rw [if_pos h]
    exact unescape_of_codes [c.toNat] (codes_written_numeric hk h rest) (join_toNat c)
  · rw [if_neg h, List.append_assoc]
    refine unescape_of_codes [0xd800 + (c.toNat - 0x10000) / 0x400,
      0xdc00 + (c.toNat - 0x10000) % 0x400] ?_ (join_halves (by omega))
    rw [codes_written_numeric hk (by omega), codes_written_numeric hk (by omega)]
    cases codes kept rest <;> rfl

end Unescape

namespace Escape

open Unescape

/-! ## What stands for a character -/

/-- **The texts that stand for a character** in a key or a value: the
character itself, a backslash and the letter that names it, or its
numeric escape. -/
inductive Writes (c : Char) : Text → Prop
  | itself : c ≠ escapeMark → Writes c [c]
  | named {e : Char} : e ≠ 'u' → Unescape.named e = c → Writes c [escapeMark, e]
  | unicode : Writes c (Escape.unicode c)

/-- A text that stands for a character is read as that character. -/
theorem Writes.unescape_append {c : Char} {u : Text} (h : Writes c u) (rest : Text) :
    unescape [] (u ++ rest) = (unescape [] rest).map (c :: ·) := by
  cases h with
  | itself hc => exact unescape_of_ne hc rest
  | named hu hc => exact hc ▸ unescape_escape List.not_mem_nil hu rest
  | unicode => exact unescape_unicode List.not_mem_nil c rest

theorem writes_plain {ascii : Bool} {c : Char} (h : c ≠ escapeMark) : Writes c (plain ascii c) := by
  unfold plain
  split
  · exact .unicode
  · exact .itself h

/-- A mark of the format is named by itself. -/
theorem writes_mark {c : Char} (h : isAssign c ∨ isSpacing c ∨ c = escapeMark ∨ isCommentMark c) :
    Writes c [escapeMark, c] := by
  simp only [isAssign, isSpacing, isCommentMark, Bool.or_eq_true, beq_iff_eq] at h
  obtain (rfl | rfl) | ((rfl | rfl) | rfl) | rfl | rfl | rfl := h
  all_goals exact .named (by decide) rfl

theorem writes_keyChar (ascii first : Bool) (c : Char) : Writes c (keyChar ascii first c) := by
  unfold keyChar
  split
  · next h => exact .named (by decide) (beq_iff_eq.1 h).symm
  split
  · next h => exact .named (by decide) (beq_iff_eq.1 h).symm
  split
  · next h =>
    rw [Bool.or_eq_true, Bool.or_eq_true, beq_iff_eq, or_assoc] at h
    exact writes_mark (h.imp_right fun h => h.imp_right .inl)
  · next hc =>
    split
    · next h => exact writes_mark (.inr (.inr (.inr (Bool.and_eq_true_iff.1 h).2)))
    · exact writes_plain fun h => hc (by rw [h]; rfl)

theorem writes_valueChar (ascii first marked : Bool) (c : Char) :
    Writes c (valueChar ascii first marked c) := by
  unfold valueChar
  split
  · next h => exact beq_iff_eq.1 h ▸ writes_mark (.inr (.inr (.inl rfl)))
  · next hc =>
    split
    · next h => exact .named (by decide) (beq_iff_eq.1 h).symm
    split
    · next h => exact .named (by decide) (beq_iff_eq.1 h).symm
    split
    · next h => exact .named (by decide) (beq_iff_eq.1 h).symm
    split
    · next h => exact .named (by decide) (beq_iff_eq.1 h).symm
    split
    · next h =>
      have hc := beq_iff_eq.1 (Bool.and_eq_true_iff.1 h).2
      exact writes_mark (.inr (.inl (by rw [hc]; rfl)))
    split
    · next h =>
      rw [Bool.and_eq_true, Bool.and_eq_true] at h
      exact writes_mark (.inl h.1.2)
    · exact writes_plain fun h => hc (by rw [h]; rfl)

/-! ## Reading what was escaped -/

theorem map_nil_append {ε : Type} (x : Except ε Text) : x.map ([] ++ ·) = x := by
  cases x <;> rfl

theorem map_append_map_cons {ε : Type} (c : Char) (t : Text) (x : Except ε Text) :
    (x.map (t ++ ·)).map (c :: ·) = x.map (c :: t ++ ·) := by
  cases x <;> rfl

/-- Characters written one after the other are read in their order. -/
theorem unescape_flatMap {f : Char → Text} (hf : ∀ c, Writes c (f c)) (t rest : Text) :
    unescape [] (t.flatMap f ++ rest) = (unescape [] rest).map (t ++ ·) := by
  induction t with
  | nil => exact (map_nil_append _).symm
  | cons c t ih =>
    rw [List.flatMap_cons, List.append_assoc, (hf c).unescape_append, ih, map_append_map_cons]

/-- **Resolving the escapes of a written key gives the key**, whatever
follows it. -/
theorem unescape_key (ascii : Bool) (k rest : Text) :
    unescape [] (key ascii k ++ rest) = (unescape [] rest).map (k ++ ·) := by
  cases k with
  | nil => exact (map_nil_append _).symm
  | cons c k =>
    rw [key, List.append_assoc, (writes_keyChar ascii true c).unescape_append,
      unescape_flatMap (writes_keyChar ascii false), map_append_map_cons]

/-- **Resolving the escapes of a written value gives the value.** -/
theorem unescape_value (ascii : Bool) (separator v : Text) :
    unescape [] (value ascii separator v) = .ok v := by
  cases v with
  | nil => rfl
  | cons c v =>
    rw [value, (writes_valueChar ascii true _ c).unescape_append]
    have h := unescape_flatMap (writes_valueChar ascii false true) v []
    rw [List.append_nil] at h
    rw [h]
    show Except.ok (c :: (v ++ [])) = _
    rw [List.append_nil]

/-! ## What is written holds no line break -/

theorem isLine_hex (width n : Nat) : Text.IsLine (Text.hex width n) :=
  Text.forall_mem_hex (by decide) width n

theorem isLine_numeric (code : Nat) : Text.IsLine (numeric code) :=
  Text.isLine_cons.2 ⟨by decide, Text.isLine_cons.2 ⟨by decide, isLine_hex 4 code⟩⟩

theorem isLine_unicode (c : Char) : Text.IsLine (unicode c) := by
  unfold unicode
  dsimp only
  split
  · exact isLine_numeric _
  · exact Text.isLine_append.2 ⟨isLine_numeric _, isLine_numeric _⟩

theorem isLine_plain (ascii : Bool) {c : Char} (h : c ≠ '\n' ∧ c ≠ '\r') :
    Text.IsLine (plain ascii c) := by
  unfold plain
  split
  · exact isLine_unicode c
  · exact Text.isLine_cons.2 ⟨h, Text.isLine_nil⟩

theorem isLine_escape {e : Char} (h : e ≠ '\n' ∧ e ≠ '\r') : Text.IsLine [escapeMark, e] :=
  Text.isLine_cons.2 ⟨by decide, Text.isLine_cons.2 ⟨h, Text.isLine_nil⟩⟩

theorem isLine_keyChar (ascii first : Bool) (c : Char) : Text.IsLine (keyChar ascii first c) := by
  unfold keyChar
  split
  · exact isLine_escape (by decide)
  split
  · exact isLine_escape (by decide)
  · next hn hr =>
    rw [beq_iff_eq] at hn hr
    split
    · exact isLine_escape ⟨hn, hr⟩
    split
    · exact isLine_escape ⟨hn, hr⟩
    · exact isLine_plain ascii ⟨hn, hr⟩

theorem isLine_valueChar (ascii first marked : Bool) (c : Char) :
    Text.IsLine (valueChar ascii first marked c) := by
  unfold valueChar
  iterate 4
    split
    · exact isLine_escape (by decide)
  next hn hr =>
    rw [beq_iff_eq] at hn hr
    split
    · exact isLine_escape (by decide)
    split
    · exact isLine_escape ⟨hn, hr⟩
    split
    · exact isLine_escape ⟨hn, hr⟩
    · exact isLine_plain ascii ⟨hn, hr⟩

theorem isLine_flatMap {f : Char → Text} (h : ∀ c, Text.IsLine (f c)) (t : Text) :
    Text.IsLine (t.flatMap f) := by
  intro d hd
  obtain ⟨c, -, hc⟩ := List.mem_flatMap.1 hd
  exact h c d hc

/-- A written key holds no line break. -/
theorem isLine_key (ascii : Bool) (k : Text) : Text.IsLine (key ascii k) := by
  cases k with
  | nil => exact Text.isLine_nil
  | cons c k =>
    exact Text.isLine_append.2
      ⟨isLine_keyChar ascii true c, isLine_flatMap (isLine_keyChar ascii false) k⟩

/-- A written value holds no line break. -/
theorem isLine_value (ascii : Bool) (separator v : Text) :
    Text.IsLine (value ascii separator v) := by
  cases v with
  | nil => exact Text.isLine_nil
  | cons c v =>
    exact Text.isLine_append.2
      ⟨isLine_valueChar ascii true _ c, isLine_flatMap (isLine_valueChar ascii false true) v⟩

end Escape

/-! ## Escaped texts -/

/-- A text is **escaped** if it can be read from the left without being
cut off inside an escape. -/
inductive IsEscaped : Text → Prop
  | nil : IsEscaped []
  | plain {c : Char} {rest : Text} : c ≠ escapeMark → IsEscaped rest → IsEscaped (c :: rest)
  | escape {e : Char} {rest : Text} : e ≠ 'u' → IsEscaped rest → IsEscaped (escapeMark :: e :: rest)
  | numeric {a b c d : Char} {code : Nat} {rest : Text} : Unescape.fourDigits? a b c d = some code →
      IsEscaped rest → IsEscaped (escapeMark :: 'u' :: a :: b :: c :: d :: rest)

namespace IsEscaped

theorem append {t u : Text} (ht : IsEscaped t) (hu : IsEscaped u) : IsEscaped (t ++ u) := by
  induction ht with
  | nil => exact hu
  | plain hc _ ih => exact .plain hc ih
  | escape he _ ih => exact .escape he ih
  | numeric hd _ ih => exact .numeric hd ih

/-- **The escapes of an escaped text can be resolved.** -/
theorem unescape_ok {t : Text} (h : IsEscaped t) : ∃ u, unescape [] t = .ok u := by
  suffices hcodes : ∃ ns, Unescape.codes [] t = .ok ns by
    obtain ⟨ns, hns⟩ := hcodes
    refine ⟨Unescape.join ns, ?_⟩
    rw [unescape, hns]
    rfl
  induction h with
  | nil => exact ⟨[], rfl⟩
  | plain hc _ ih =>
    obtain ⟨ns, hns⟩ := ih
    exact ⟨_, by rw [Unescape.codes_of_ne hc, hns]; rfl⟩
  | escape he _ ih =>
    obtain ⟨ns, hns⟩ := ih
    exact ⟨_, by rw [Unescape.codes_escape List.not_mem_nil he, hns]; rfl⟩
  | numeric hd _ ih =>
    obtain ⟨ns, hns⟩ := ih
    exact ⟨_, by rw [Unescape.codes_numeric List.not_mem_nil hd, hns]; rfl⟩

end IsEscaped

namespace Escape

theorem isEscaped_numeric {code : Nat} (h : code ≤ 0xffff) : IsEscaped (numeric code) := by
  obtain ⟨a, b, c, d, hhex, hdigits⟩ := Unescape.fourDigits?_hex h
  rw [numeric, hhex]
  exact .numeric hdigits .nil

/-- What stands for a character is escaped. -/
theorem Writes.isEscaped {c : Char} {u : Text} (h : Writes c u) : IsEscaped u := by
  have hc : c.toNat.isValidChar := c.valid
  simp only [Nat.isValidChar] at hc
  cases h with
  | itself hne => exact .plain hne .nil
  | named hu => exact .escape hu .nil
  | unicode =>
    unfold Escape.unicode
    by_cases h : c.toNat ≤ 0xffff
    · rw [if_pos h]
      exact isEscaped_numeric h
    · rw [if_neg h]
      exact (isEscaped_numeric (by omega)).append (isEscaped_numeric (by omega))

theorem isEscaped_flatMap {f : Char → Text} (hf : ∀ c, Writes c (f c)) (t : Text) :
    IsEscaped (t.flatMap f) := by
  induction t with
  | nil => exact .nil
  | cons c t ih => exact (hf c).isEscaped.append ih

theorem isEscaped_key (ascii : Bool) (k : Text) : IsEscaped (key ascii k) := by
  cases k with
  | nil => exact .nil
  | cons c k =>
    exact (writes_keyChar ascii true c).isEscaped.append
      (isEscaped_flatMap (writes_keyChar ascii false) k)

theorem isEscaped_value (ascii : Bool) (separator v : Text) :
    IsEscaped (value ascii separator v) := by
  cases v with
  | nil => exact .nil
  | cons c v =>
    exact (writes_valueChar ascii true _ c).isEscaped.append
      (isEscaped_flatMap (writes_valueChar ascii false true) v)

end Escape

end PropertyFile
