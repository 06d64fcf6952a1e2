import PropertyFile.Encoding
import PropertyFile.Proofs.Result

/-!
# Bytes of texts, and back

Reading undoes writing. In UTF-8 the bytes of a character are read as
that character, whatever follows them (`decodeUtf8_append`), and bytes
are a text only if they are the bytes of its characters
(`decodeUtf8_eq_ok_iff`). So a file that holds the bytes of a text,
behind the mark of its encoding if there is one, is read as that text in
every encoding (`decode_of_encode`): the codecs of the program are
faithful (`isFaithful_codec`).
-/

namespace PropertyFile

namespace Encoding

/-! ## Lead bytes -/

/-- **What a lead byte announces.** The byte behind it is narrowed down
where characters would be too short, be surrogates or be too large. -/
theorem leadByte?_eq_some_iff {b size low high : Nat} :
    leadByte? b = some (size, low, high)
      ↔ (size = 2 ∧ 0xc2 ≤ b ∧ b ≤ 0xdf ∧ low = 0x80 ∧ high = 0xbf)
        ∨ (size = 3 ∧ 0xe0 ≤ b ∧ b ≤ 0xef ∧ low = (if b = 0xe0 then 0xa0 else 0x80) ∧
            high = if b = 0xed then 0x9f else 0xbf)
        ∨ (size = 4 ∧ 0xf0 ≤ b ∧ b ≤ 0xf4 ∧ low = (if b = 0xf0 then 0x90 else 0x80) ∧
            high = if b = 0xf4 then 0x8f else 0xbf) := by
  simp only [leadByte?, Bool.and_eq_true, decide_eq_true_eq, beq_iff_eq]
  repeat' split
  all_goals simp only [Option.some.injEq, Prod.mk.injEq, reduceCtorEq, false_iff]
  all_goals omega

theorem isTail_iff {b : UInt8} : isTail b = true ↔ 0x80 ≤ b.toNat ∧ b.toNat ≤ 0xbf := by
  simp [isTail]

theorem tailBits_eq (b : UInt8) : tailBits b = b.toNat - 0x80 := rfl

/-! ## Characters in UTF-8 -/

/-- Bytes that spell the character of a number. -/
inductive Spells (n : Nat) : List UInt8 → Prop
  /-- A byte that is a character by itself. -/
  | one {b : UInt8} : b.toNat < 0x80 → n = b.toNat → Spells n [b]
  /-- A lead byte and the byte behind it. -/
  | two {b₀ b₁ : UInt8} {low high : Nat} :
      leadByte? b₀.toNat = some (2, low, high) → low ≤ b₁.toNat → b₁.toNat ≤ high →
      n = (b₀.toNat - 0xc0) * 0x40 + tailBits b₁ → Spells n [b₀, b₁]
  /-- A lead byte, the byte behind it and a further one. -/
  | three {b₀ b₁ b₂ : UInt8} {low high : Nat} :
      leadByte? b₀.toNat = some (3, low, high) → low ≤ b₁.toNat → b₁.toNat ≤ high →
      isTail b₂ = true →
      n = (b₀.toNat - 0xe0) * 0x1000 + tailBits b₁ * 0x40 + tailBits b₂ → Spells n [b₀, b₁, b₂]
  /-- A lead byte, the byte behind it and two further ones. -/
  | four {b₀ b₁ b₂ b₃ : UInt8} {low high : Nat} :
      leadByte? b₀.toNat = some (4, low, high) → low ≤ b₁.toNat → b₁.toNat ≤ high →
      isTail b₂ = true → isTail b₃ = true →
      n = (b₀.toNat - 0xf0) * 0x40000 + tailBits b₁ * 0x1000 + tailBits b₂ * 0x40 + tailBits b₃ →
      Spells n [b₀, b₁, b₂, b₃]

variable {n pos : Nat} {bytes rest : List UInt8}

theorem not_lt_of_leadByte? {b size low high : Nat} (h : leadByte? b = some (size, low, high)) :
    ¬ b < 0x80 := by
  have hranges := leadByte?_eq_some_iff.1 h
  omega

/-- **Spelled characters are read**, whatever follows their bytes. -/
theorem Spells.decodeUtf8_append (h : Spells n bytes) (pos : Nat) (rest : List UInt8) :
    decodeUtf8 pos (bytes ++ rest)
      = (decodeUtf8 (pos + bytes.length) rest).map (Char.ofNat n :: ·) := by
  have hin : ∀ {b : UInt8} {low high : Nat}, low ≤ b.toNat → b.toNat ≤ high →
      ¬ (b.toNat < low || high < b.toNat) = true := by
    intro b low high hlow hhigh
    simp [hlow, hhigh]
  cases h with
  | one h₀ hn =>
    rw [List.singleton_append, decodeUtf8, if_pos h₀, hn]
    rfl
  | two hlead hlow hhigh hn =>
    simp only [List.cons_append, List.nil_append, decodeUtf8, if_neg (not_lt_of_leadByte? hlead),
      hlead, if_neg (hin hlow hhigh), hn]
    rfl
  | three hlead hlow hhigh h₂ hn =>
    simp only [List.cons_append, List.nil_append, decodeUtf8, if_neg (not_lt_of_leadByte? hlead),
      hlead, if_neg (hin hlow hhigh), h₂, hn]
    rfl
  | four hlead hlow hhigh h₂ h₃ hn =>
    simp only [List.cons_append, List.nil_append, decodeUtf8, if_neg (not_lt_of_leadByte? hlead),
      hlead, if_neg (hin hlow hhigh), h₂, h₃, hn]
    rfl

/-- What is read begins with a character that is spelled. -/
theorem exists_spells_of_decodeUtf8 {b : UInt8} {t : Text}
    (h : decodeUtf8 pos (b :: rest) = .ok t) :
    ∃ n bytes rest' t', b :: rest = bytes ++ rest' ∧ Spells n bytes ∧ t = Char.ofNat n :: t' ∧
      decodeUtf8 (pos + bytes.length) rest' = .ok t' := by
  rw [decodeUtf8] at h
  split at h
  · next h₀ =>
    obtain ⟨t', ht', rfl⟩ := map_eq_ok_iff.1 h
    exact ⟨_, [b], rest, t', rfl, .one h₀ rfl, rfl, ht'⟩
  split at h
  · cases h
  next size low high hlead =>
  split at h
  · cases h
  next b₁ rest₁ =>
  split at h
  · cases h
  next hin =>
  obtain ⟨hlow, hhigh⟩ : low ≤ b₁.toNat ∧ b₁.toNat ≤ high := by simpa using hin
  split at h
  · next hsize =>
    subst hsize
    obtain ⟨t', ht', rfl⟩ := map_eq_ok_iff.1 h
    exact ⟨_, _, rest₁, t', rfl, .two hlead hlow hhigh rfl, rfl, ht'⟩
  next htwo =>
  split at h
  · cases h
  next b₂ rest₂ =>
  split at h
  · cases h
  next h₂ =>
  rw [Bool.not_eq_true', Bool.not_eq_false] at h₂
  split at h
  · next hsize =>
    subst hsize
    obtain ⟨t', ht', rfl⟩ := map_eq_ok_iff.1 h
    exact ⟨_, _, rest₂, t', rfl, .three hlead hlow hhigh h₂ rfl, rfl, ht'⟩
  next hthree =>
  split at h
  · cases h
  next b₃ rest₃ =>
  split at h
  · cases h
  next h₃ =>
  rw [Bool.not_eq_true', Bool.not_eq_false] at h₃
  obtain rfl : size = 4 := by
    have hranges := leadByte?_eq_some_iff.1 hlead
    omega
  obtain ⟨t', ht', rfl⟩ := map_eq_ok_iff.1 h
  exact ⟨_, _, rest₃, t', rfl, .four hlead hlow hhigh h₂ h₃ rfl, rfl, ht'⟩

theorem toNat_toUInt8 {m : Nat} (h : m < 0x100) : m.toUInt8.toNat = m := Nat.mod_eq_of_lt h

theorem toUInt8_of_eq {m : Nat} {b : UInt8} (h : m = b.toNat) : m.toUInt8 = b := by
  rw [h]
  exact UInt8.ofNat_toNat

section
variable {x y z w : Nat}

/-- Two bytes, given by their numbers. -/
theorem spells_of_two (hn : n = (x - 0xc0) * 0x40 + (y - 0x80)) (hx : 0xc2 ≤ x ∧ x ≤ 0xdf)
    (hy : 0x80 ≤ y ∧ y ≤ 0xbf) : Spells n [x.toUInt8, y.toUInt8] := by
  have hxb : x.toUInt8.toNat = x := toNat_toUInt8 (by omega)
  have hyb : y.toUInt8.toNat = y := toNat_toUInt8 (by omega)
  refine .two (leadByte?_eq_some_iff.2 (.inl ⟨rfl, ?_, ?_, rfl, rfl⟩)) ?_ ?_ ?_
  all_goals simp only [tailBits_eq, hxb, hyb]
  all_goals omega

/-- Three bytes, given by their numbers. -/
theorem spells_of_three (hn : n = (x - 0xe0) * 0x1000 + (y - 0x80) * 0x40 + (z - 0x80))
    (hvalid : 0x800 ≤ n ∧ (n < 0xd800 ∨ 0xdfff < n)) (hx : 0xe0 ≤ x ∧ x ≤ 0xef)
    (hy : 0x80 ≤ y ∧ y ≤ 0xbf) (hz : 0x80 ≤ z ∧ z ≤ 0xbf) :
    Spells n [x.toUInt8, y.toUInt8, z.toUInt8] := by
  have hxb : x.toUInt8.toNat = x := toNat_toUInt8 (by omega)
  have hyb : y.toUInt8.toNat = y := toNat_toUInt8 (by omega)
  have hzb : z.toUInt8.toNat = z := toNat_toUInt8 (by omega)
  refine .three (leadByte?_eq_some_iff.2 (.inr (.inl ⟨rfl, ?_, ?_, rfl, rfl⟩))) ?_ ?_
    (isTail_iff.2 ?_) ?_
  all_goals simp only [tailBits_eq, hxb, hyb, hzb]
  all_goals try split
  all_goals omega

/-- Four bytes, given by their numbers. -/
theorem spells_of_four
    (hn : n = (x - 0xf0) * 0x40000 + (y - 0x80) * 0x1000 + (z - 0x80) * 0x40 + (w - 0x80))
    (hvalid : 0x10000 ≤ n ∧ n < 0x110000) (hx : 0xf0 ≤ x ∧ x ≤ 0xf4) (hy : 0x80 ≤ y ∧ y ≤ 0xbf)
    (hz : 0x80 ≤ z ∧ z ≤ 0xbf) (hw : 0x80 ≤ w ∧ w ≤ 0xbf) :
    Spells n [x.toUInt8, y.toUInt8, z.toUInt8, w.toUInt8] := by
  have hxb : x.toUInt8.toNat = x := toNat_toUInt8 (by omega)
  have hyb : y.toUInt8.toNat = y := toNat_toUInt8 (by omega)
  have hzb : z.toUInt8.toNat = z := toNat_toUInt8 (by omega)
  have hwb : w.toUInt8.toNat = w := toNat_toUInt8 (by omega)
  refine .four (leadByte?_eq_some_iff.2 (.inr (.inr ⟨rfl, ?_, ?_, rfl, rfl⟩))) ?_ ?_
    (isTail_iff.2 ?_) (isTail_iff.2 ?_) ?_
  all_goals simp only [tailBits_eq, hxb, hyb, hzb, hwb]
  all_goals try split
  all_goals omega

end

/-- **A character is spelled by its bytes.** -/
theorem spells_utf8Bytes (c : Char) : Spells c.toNat (utf8Bytes c) := by
  have hvalid : c.toNat < 0xd800 ∨ 0xdfff < c.toNat ∧ c.toNat < 0x110000 := c.valid
  rw [utf8Bytes]
  generalize c.toNat = n at hvalid
  by_cases h₁ : n < 0x80
  · simp only [if_pos h₁]
    have hb : n.toUInt8.toNat = n := toNat_toUInt8 (by omega)
    exact .one (by rw [hb]; exact h₁) hb.symm
  simp only [if_neg h₁]
  by_cases h₂ : n < 0x800
  · simp only [if_pos h₂]
    exact spells_of_two (by omega) (by omega) (by omega)
  simp only [if_neg h₂]
  by_cases h₃ : n < 0x10000
  · simp only [if_pos h₃]
    exact spells_of_three (by omega) (by omega) (by omega) (by omega) (by omega)
  · simp only [if_neg h₃]
    exact spells_of_four (by omega) (by omega) (by omega) (by omega) (by omega) (by omega)

theorem toNat_ofNat (h : n < 0xd800 ∨ 0xdfff < n ∧ n < 0x110000) : (Char.ofNat n).toNat = n := by
  have hvalid : n.isValidChar := h
  rw [Char.ofNat, dif_pos hvalid]
  rfl

/-- **Bytes spell one character**, and are its bytes. -/
theorem Spells.utf8Bytes_eq (h : Spells n bytes) : utf8Bytes (Char.ofNat n) = bytes := by
  cases h with
  | one h₀ hn =>
    rw [utf8Bytes, toNat_ofNat (by omega)]
    simp only [if_pos (show n < 0x80 by omega)]
    rw [toUInt8_of_eq hn]
  | two hlead hlow hhigh hn =>
    have hranges := leadByte?_eq_some_iff.1 hlead
    rw [tailBits_eq] at hn
    rw [utf8Bytes, toNat_ofNat (by omega)]
    simp only [if_neg (show ¬ n < 0x80 by omega), if_pos (show n < 0x800 by omega),
      List.cons.injEq, and_true]
    exact ⟨toUInt8_of_eq (by omega), toUInt8_of_eq (by omega)⟩
  | @three b₀ b₁ b₂ low high hlead hlow hhigh h₂ hn =>
    obtain ⟨-, hmin, hmax, rfl, rfl⟩ := (leadByte?_eq_some_iff.1 hlead).resolve_left
      (fun h => nomatch h.1) |>.resolve_right fun h => nomatch h.1
    rw [isTail_iff] at h₂
    simp only [tailBits_eq] at hn
    have hvalid : 0x80 ≤ b₁.toNat ∧ b₁.toNat ≤ 0xbf ∧ 0x800 ≤ n ∧ (n < 0xd800 ∨ 0xdfff < n) := by
      split at hlow <;> split at hhigh <;> omega
    rw [utf8Bytes, toNat_ofNat (by omega)]
    simp only [if_neg (show ¬ n < 0x80 by omega), if_neg (show ¬ n < 0x800 by omega),
      if_pos (show n < 0x10000 by omega), List.cons.injEq, and_true]
    exact ⟨toUInt8_of_eq (by omega), toUInt8_of_eq (by omega), toUInt8_of_eq (by omega)⟩
  | @four b₀ b₁ b₂ b₃ low high hlead hlow hhigh h₂ h₃ hn =>
    obtain ⟨-, hmin, hmax, rfl, rfl⟩ := (leadByte?_eq_some_iff.1 hlead).resolve_left
      (fun h => nomatch h.1) |>.resolve_left fun h => nomatch h.1
    rw [isTail_iff] at h₂ h₃
    simp only [tailBits_eq] at hn
    have hvalid : 0x80 ≤ b₁.toNat ∧ b₁.toNat ≤ 0xbf ∧ 0x10000 ≤ n ∧ n < 0x110000 := by
      split at hlow <;> split at hhigh <;> omega
    rw [utf8Bytes, toNat_ofNat (by omega)]
    simp only [if_neg (show ¬ n < 0x80 by omega), if_neg (show ¬ n < 0x800 by omega),
      if_neg (show ¬ n < 0x10000 by omega), List.cons.injEq, and_true]
    exact ⟨toUInt8_of_eq (by omega), toUInt8_of_eq (by omega), toUInt8_of_eq (by omega),
      toUInt8_of_eq (by omega)⟩

/-! ## Texts -/

/-- **The texts of UTF-8 bytes.** Bytes are read as a text if and only if
they are the bytes of its characters. -/
theorem decodeUtf8_eq_ok_iff {t : Text} :
    decodeUtf8 pos bytes = .ok t ↔ bytes = t.flatMap utf8Bytes := by
  constructor
  · intro h
    induction t generalizing pos bytes with
    | nil =>
      cases bytes with
      | nil => rfl
      | cons b rest =>
        obtain ⟨_, _, _, _, -, -, ht, -⟩ := exists_spells_of_decodeUtf8 h
        cases ht
    | cons c t ih =>
      cases bytes with
      | nil => cases h
      | cons b rest =>
        obtain ⟨n, spelled, rest', t', hbytes, hspells, ht, hrest⟩ := exists_spells_of_decodeUtf8 h
        obtain ⟨rfl, rfl⟩ := List.cons.inj ht
        rw [hbytes, ih hrest, List.flatMap_cons, hspells.utf8Bytes_eq]
  · rintro rfl
    induction t generalizing pos with
    | nil => rfl
    | cons c t ih =>
      rw [List.flatMap_cons, (spells_utf8Bytes c).decodeUtf8_append, ih, Char.ofNat_toNat]
      rfl

/-- Texts without characters beyond ASCII. -/
theorem decodeAscii_of_forall {t : Text} (h : ∀ c ∈ t, c.toNat < 0x80) (pos : Nat) :
    decodeAscii pos (t.map fun c => c.toNat.toUInt8) = .ok t := by
  induction t generalizing pos with
  | nil => rfl
  | cons c t ih =>
    obtain ⟨hc, ht⟩ := List.forall_mem_cons.1 h
    have hbyte : c.toNat.toUInt8.toNat = c.toNat := toNat_toUInt8 (by omega)
    rw [List.map_cons, decodeAscii, hbyte, if_pos hc, ih ht, Char.ofNat_toNat]
    rfl

/-! ## Bytes in every encoding -/

theorem encodeBytes_eq_ok_iff {codec : String} {limit pos : Nat} {t : Text}
    {bytes : List UInt8} :
    encodeBytes codec limit pos t = .ok bytes
      ↔ (∀ c ∈ t, c.toNat < limit) ∧ bytes = t.map fun c => c.toNat.toUInt8 := by
  induction t generalizing pos bytes with
  | nil => simp [encodeBytes, eq_comm]
  | cons c rest ih =>
    by_cases hc : c.toNat < limit
    · rw [encodeBytes, if_pos hc]
      cases hrest : encodeBytes codec limit (pos + 1) rest with
      | error fault =>
        have hnone : ¬ ∀ d ∈ rest, d.toNat < limit := by
          intro hall
          have hok : encodeBytes codec limit (pos + 1) rest = .ok _ := ih.2 ⟨hall, rfl⟩
          rw [hrest] at hok
          cases hok
        simp [Except.map, hc, hnone]
      | ok later =>
        obtain ⟨hall, rfl⟩ := ih.1 hrest
        have hall' : ∀ d ∈ c :: rest, d.toNat < limit := List.forall_mem_cons.2 ⟨hc, hall⟩
        simp only [Except.map, Except.ok.injEq, and_iff_right hall', List.map_cons]
        exact eq_comm
    · rw [encodeBytes, if_neg hc]
      simp [hc]

/-- **Reading undoes writing.** In every encoding, the bytes of a text
behind the mark of files are read as that text. -/
theorem decode_of_encode {e : Encoding} {t : Text} {bytes : List UInt8}
    (h : e.encode t = .ok bytes) : e.decode (e.mark ++ bytes) = .ok t := by
  cases e with
  | utf8 =>
    cases h
    exact decodeUtf8_eq_ok_iff.2 rfl
  | utf8Marked =>
    cases h
    exact decodeUtf8_eq_ok_iff.2 rfl
  | latin1 =>
    obtain ⟨hall, rfl⟩ := encodeBytes_eq_ok_iff.1 h
    have hchars : t.map ((fun b : UInt8 => Char.ofNat b.toNat) ∘ fun c => c.toNat.toUInt8) = t := by
      refine List.ext_getElem (List.length_map _) ?_
      intro i hi ht
      rw [List.getElem_map, Function.comp_apply, toNat_toUInt8 (hall _ (List.getElem_mem ht)),
        Char.ofNat_toNat]
    show Except.ok ((t.map fun c => c.toNat.toUInt8).map fun b => Char.ofNat b.toNat) = .ok t
    rw [List.map_map, hchars]
  | ascii =>
    obtain ⟨hall, rfl⟩ := encodeBytes_eq_ok_iff.1 h
    exact decodeAscii_of_forall hall 0

/-- **Every codec of the program is faithful.** -/
theorem isFaithful_codec (e : Encoding) : e.codec.IsFaithful := by
  intro t bytes h
  cases hencode : e.encode t with
  | error fault =>
    simp only [codec, hencode] at h
    cases h
  | ok encoded =>
    simp only [codec, hencode] at h
    obtain rfl : e.mark ++ encoded = bytes := Except.ok.inj h
    show (e.decode _).mapError DecodeError.message = .ok t
    rw [decode_of_encode hencode]
    rfl

end Encoding

end PropertyFile
