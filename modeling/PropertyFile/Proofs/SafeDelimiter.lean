import PropertyFile.Proofs.ListValue

/-!
# Safe delimiters

Any character but the backslash may be a list delimiter, but not every
one is fit for it. The letters and digits of escapes are not, since a
backslash put before one of them breaks the escape; nor is a character
that is written as an escape, since reading resolves that into a
delimiter without a backslash. All others are **safe**
(`ListDelimiter.IsSafe`): they spare whatever is written for a value,
and only they do (`isSafe_of_spares`). Punctuation is always safe.
-/

namespace PropertyFile

/-- A character that is escaped by request is not written as itself. -/
theorem Escape.valueChar_ne_self {c : Char} (hc : c ≠ escapeMark) (h : isForeign c = true)
    {first marked : Bool} : valueChar true first marked c ≠ [c] := by
  unfold valueChar
  iterate 7
    split
    · exact fun hself => absurd (congrArg List.length hself) (by simp)
  unfold plain
  rw [if_pos (by simp [h])]
  obtain ⟨t, ht⟩ := unicode_cons c
  rw [ht]
  exact fun hself => hc (List.head_eq_of_cons_eq hself).symm

namespace ListDelimiter

/-- The characters that escapes by name are made of or stand for, and the
space, which has one at the start of a value. -/
def nameChars : List Char := ['t', 'n', 'r', 'f', '\t', '\n', '\r', '\x0c', ' ']

/-- The characters of numeric escapes. -/
def numericChars : List Char :=
  ['u', '0', '1', '2', '3', '4', '5', '6', '7', '8', '9', 'a', 'b', 'c', 'd', 'e', 'f']

/-- **A safe delimiter** takes part in no escape, and is not written as
one. Numeric escapes count only where they are written. -/
def IsSafe (d : ListDelimiter) (ascii : Bool) : Prop :=
  d.char ∉ nameChars ∧
    (ascii = true → Escape.isForeign d.char = false ∧ d.char ∉ numericChars)

instance (d : ListDelimiter) (ascii : Bool) : Decidable (d.IsSafe ascii) :=
  inferInstanceAs (Decidable (_ ∧ _))

variable {d : ListDelimiter}

theorem mem_hex {width n : Nat} {x : Char} (h : x ∈ Text.hex width n) : x ∈ numericChars :=
  Text.forall_mem_hex (by decide) width n x h

theorem mem_unicode {c x : Char} (h : x ∈ Escape.unicode c) :
    x = escapeMark ∨ x ∈ numericChars := by
  have hnumeric : ∀ {code : Nat}, x ∈ Escape.numeric code → x = escapeMark ∨ x ∈ numericChars := by
    intro code h
    obtain rfl | rfl | h := Escape.mem_numeric h
    · exact .inl rfl
    · exact .inr (by decide)
    · exact .inr (mem_hex h)
  unfold Escape.unicode at h
  dsimp only at h
  split at h
  · exact hnumeric h
  · exact (List.mem_append.1 h).elim hnumeric hnumeric

/-- **A safe delimiter spares everything** that is written in a value, but
for an assignment mark at the start where the separator has none. -/
theorem IsSafe.spares {ascii : Bool} (h : d.IsSafe ascii) {marked : Bool}
    (hmarked : isAssign d.char = true → marked = true) (first : Bool) (c : Char) :
    d.Spares c (Escape.valueChar ascii first marked c) := by
  obtain ⟨hname, hnumeric⟩ := h
  simp only [nameChars, List.mem_cons, List.not_mem_nil, or_false, not_or] at hname
  obtain ⟨ht, hn, hr, hf, htab, hfeed, hreturn, hform, hspace⟩ := hname
  have hescape : ∀ {e : Char}, d.char ≠ e → c ≠ d.char → d.Spares c [escapeMark, e] :=
    fun he hc => .inr (.inr ⟨by simp [d.ne_escape, he], hc⟩)
  unfold Escape.valueChar
  split
  · next hc => exact .inr (.inl (beq_iff_eq.1 hc))
  split
  · next hc => exact hescape ht (beq_iff_eq.1 hc ▸ Ne.symm htab)
  split
  · next hc => exact hescape hn (beq_iff_eq.1 hc ▸ Ne.symm hfeed)
  split
  · next hc => exact hescape hr (beq_iff_eq.1 hc ▸ Ne.symm hreturn)
  split
  · next hc => exact hescape hf (beq_iff_eq.1 hc ▸ Ne.symm hform)
  split
  · next hc =>
    have hc := beq_iff_eq.1 (Bool.and_eq_true_iff.1 hc).2
    exact hescape (hc ▸ hspace) (hc ▸ Ne.symm hspace)
  split
  · next hc =>
    simp only [Bool.and_eq_true, Bool.not_eq_true'] at hc
    have hne : c ≠ d.char := by
      rintro rfl
      rw [hmarked hc.1.2] at hc
      exact absurd hc.2 (by decide)
    exact hescape (Ne.symm hne) hne
  · unfold Escape.plain
    split
    · next hc =>
      rw [Bool.and_eq_true] at hc
      obtain ⟨hforeign, hdigit⟩ := hnumeric hc.1
      refine .inr (.inr ⟨fun hmem => ?_, ?_⟩)
      · exact (mem_unicode hmem).elim d.ne_escape hdigit
      · rintro rfl
        rw [hforeign] at hc
        exact absurd hc.2 (by decide)
    · exact .inl rfl

/-- The pieces of a value behind a separator with a mark are spared. -/
theorem IsSafe.spares_pieces {ascii : Bool} (h : d.IsSafe ascii) {s : Text}
    (hs : isAssign d.char = true → s.any isAssign = true) (v : Text) :
    ∀ p ∈ Escape.pieces ascii s v, d.Spares p.1 p.2 := by
  intro p hp
  obtain ⟨first, marked, hmarked, hpiece⟩ := Escape.exists_of_mem_pieces hp
  exact hpiece ▸ h.spares (fun ha => hmarked (hs ha)) first p.1

/-- A delimiter that spares all values is safe. -/
theorem isSafe_of_spares {d : ListDelimiter} {ascii : Bool}
    (h : ∀ v, ∀ p ∈ Escape.pieces ascii defaultSeparator v, d.Spares p.1 p.2) :
    d.IsSafe ascii := by
  -- a character that is not written as itself clashes with what it is written with
  have hclash : ∀ {x : Char} (c : Char), Escape.valueChar ascii true true c ≠ [c] →
      c ≠ escapeMark → (x ∈ Escape.valueChar ascii true true c ∨ c = x) → d.char ≠ x := by
    rintro _ c hbare hmark hx rfl
    obtain hself | hself | ⟨hmem, hne⟩ := h [c] (c, _) (List.mem_singleton_self _)
    · exact hbare hself
    · exact hmark hself
    · exact hx.elim hmem hne
  refine ⟨fun hmem => ?_, fun hascii => ⟨?_, fun hmem => ?_⟩⟩
  · have hnames : nameChars.all (fun x => let c := Unescape.named x
        Escape.valueChar ascii true true c ≠ [c] ∧ c ≠ escapeMark ∧
          (x ∈ Escape.valueChar ascii true true c ∨ c = x)) = true := by
      cases ascii <;> decide
    obtain ⟨hbare, hmark, hx⟩ := of_decide_eq_true (List.all_eq_true.1 hnames _ hmem)
    exact hclash _ hbare hmark hx rfl
  · subst hascii
    refine Bool.eq_false_iff.2 fun hforeign => ?_
    exact hclash d.char (Escape.valueChar_ne_self d.ne_escape hforeign) d.ne_escape (.inr rfl) rfl
  · subst hascii
    -- the numeric escapes of these four have all the digits
    have hnumbers : numericChars.all (fun x => ['\u0123', '\u4567', '\u89ab', '\ucdef'].any
        fun c => Escape.isForeign c ∧ c ≠ escapeMark ∧ x ∈ Escape.valueChar true true true c)
        = true := by
      decide
    obtain ⟨c, -, hc⟩ := List.any_eq_true.1 (List.all_eq_true.1 hnumbers _ hmem)
    obtain ⟨hforeign, hmark, hx⟩ := of_decide_eq_true hc
    exact hclash c (Escape.valueChar_ne_self hmark hforeign) hmark (.inl hx) rfl

end ListDelimiter

end PropertyFile
