import PropertyFile.Proofs.SafeDelimiter

/-!
# Keys and values survive escaping

Writing a line and taking a line apart share no rule. The writer goes
through a key or a value character by character and knows nothing of
what stands around it; the reader goes through the whole line and has
to find out where the key ends, where the value starts and where an
escape does. `written_line_reads_back` says that the two agree for every
key, every value and every separator that is not empty, and that a line
which is asked to be ASCII is.

The ASCII part rests on one fact (`isAscii_unicode`): a numeric escape is
made of the backslash, the letter `u` and hexadecimal digits, also when
a character needs two of them.
-/

namespace PropertyFile

/-! ## ASCII texts -/

/-- A text is **ASCII** if none of its characters lies beyond the seventh
bit. -/
def IsAscii (t : Text) : Prop := ∀ c ∈ t, c.toNat < 0x80

theorem isAscii_iff_all {t : Text} : IsAscii t ↔ (t.all fun c => c.toNat < 0x80) = true := by
  simp [IsAscii]

instance (t : Text) : Decidable (IsAscii t) := decidable_of_iff _ isAscii_iff_all.symm

theorem IsAscii.append {t u : Text} (ht : IsAscii t) (hu : IsAscii u) : IsAscii (t ++ u) :=
  fun c hc => (List.mem_append.1 hc).elim (ht c) (hu c)

theorem isAscii_flatMap {f : Char → Text} (h : ∀ c, IsAscii (f c)) (t : Text) :
    IsAscii (t.flatMap f) := by
  intro d hd
  obtain ⟨c, -, hc⟩ := List.mem_flatMap.1 hd
  exact h c d hc

theorem IsSeparator.isAscii {s : Text} (h : IsSeparator s) : IsAscii s := by
  intro c hc
  have hchar := h.chars c hc
  simp only [isSpacing, isAssign, Bool.or_eq_true, beq_iff_eq] at hchar
  obtain ((rfl | rfl) | rfl) | rfl | rfl := hchar
  all_goals decide

namespace Escape

/-- A backslash before an ASCII character. -/
theorem isAscii_escape {e : Char} (h : e.toNat < 0x80) : IsAscii [escapeMark, e] :=
  List.forall_mem_cons.2 ⟨by decide, List.forall_mem_singleton.2 h⟩

/-- **Numeric escapes are ASCII**, whatever they stand for. -/
theorem isAscii_unicode (c : Char) : IsAscii (unicode c) := by
  have hdigits : IsAscii ListDelimiter.numericChars := by decide
  intro d hd
  obtain rfl | hd := ListDelimiter.mem_unicode hd
  · decide
  · exact hdigits d hd

theorem isAscii_plain (c : Char) : IsAscii (plain true c) := by
  unfold plain
  split
  · exact isAscii_unicode c
  · next h =>
    simp only [isForeign, Bool.true_and, Bool.or_eq_true, decide_eq_true_eq, not_or] at h
    exact List.forall_mem_singleton.2 (by omega)

theorem isAscii_keyChar (first : Bool) (c : Char) : IsAscii (keyChar true first c) := by
  unfold keyChar
  split
  · decide
  split
  · decide
  split
  · next h =>
    simp only [isAssign, isSpacing, Bool.or_eq_true, beq_iff_eq] at h
    obtain ((rfl | rfl) | (rfl | rfl) | rfl) | rfl := h
    all_goals decide
  split
  · next h =>
    simp only [isCommentMark, Bool.and_eq_true, Bool.or_eq_true, beq_iff_eq] at h
    obtain ⟨-, rfl | rfl⟩ := h
    all_goals decide
  · exact isAscii_plain c

theorem isAscii_valueChar (first marked : Bool) (c : Char) :
    IsAscii (valueChar true first marked c) := by
  unfold valueChar
  iterate 5
    split
    · decide
  split
  · next h =>
    rw [Bool.and_eq_true, beq_iff_eq] at h
    exact isAscii_escape (h.2 ▸ by decide)
  split
  · next h =>
    simp only [isAssign, Bool.and_eq_true, Bool.or_eq_true, beq_iff_eq] at h
    obtain ⟨⟨-, rfl | rfl⟩, -⟩ := h
    all_goals decide
  · exact isAscii_plain c

theorem isAscii_key (k : Text) : IsAscii (key true k) := by
  cases k with
  | nil => exact fun _ hc => absurd hc List.not_mem_nil
  | cons c k => exact (isAscii_keyChar true c).append (isAscii_flatMap (isAscii_keyChar false) k)

theorem isAscii_value (s v : Text) : IsAscii (value true s v) := by
  cases v with
  | nil => exact fun _ hc => absurd hc List.not_mem_nil
  | cons c v =>
    exact (isAscii_valueChar true _ c).append (isAscii_flatMap (isAscii_valueChar false true) v)

end Escape

/-! ## The whole line -/

/-- **Keys and values survive escaping.** A key and a value written with
any separator that is not empty are found again at the places where they
were put, and each is resolved into what it was. The line asks for no
further line and holds no line break, and it is ASCII if that is asked
for. -/
theorem written_line_reads_back (ascii : Bool) (k v : Text) {s : Text} (hs : IsSeparator s)
    (hne : s ≠ []) :
    LineParts.ofLine (Escape.key ascii k ++ s ++ Escape.value ascii s v)
        = ⟨Escape.key ascii k, s, Escape.value ascii s v⟩ ∧
      unescape [] (Escape.key ascii k) = .ok k ∧
      unescape [] (Escape.value ascii s v) = .ok v ∧
      endsWithContinuation (Escape.key ascii k ++ s ++ Escape.value ascii s v) = false ∧
      Text.IsLine (Escape.key ascii k ++ s ++ Escape.value ascii s v) ∧
      (ascii = true → IsAscii (Escape.key ascii k ++ s ++ Escape.value ascii s v)) := by
  refine ⟨lineParts_propertyLine ascii hs (.inl hne), unescape_key_alone ascii k,
    Escape.unescape_value ascii s v, ?_, isLine_propertyLine ascii k v hs, ?_⟩
  · exact (isEscaped_propertyLine ascii k v hs).endsWithContinuation
  · rintro rfl
    exact ((Escape.isAscii_key k).append hs.isAscii).append (Escape.isAscii_value s v)

/-- A key that starts with a comment mark and ends in a backslash, a
value that starts with a colon and holds a character beyond the
sixteenth bit, and a separator without a mark. -/
theorem surrogate_line_reads_back :
    let s := ['\t', '\x0c']
    let line := ['\\', '#', 'a', '\\', '\\'] ++ s ++
      ['\\', ':', '\\', 'u', 'd', '8', '3', 'd', '\\', 'u', 'd', 'e', '0', '0', '\\', 'n']
    IsSeparator s ∧ s ≠ [] ∧
      Escape.key true ['#', 'a', '\\'] ++ s ++ Escape.value true s [':', '😀', '\n'] = line ∧
      LineParts.ofLine line = ⟨['\\', '#', 'a', '\\', '\\'], s, line.drop 7⟩ ∧
      unescape [] (line.drop 7) = .ok [':', '😀', '\n'] ∧ IsAscii line := by
  intro s line
  have hs : IsSeparator s := by decide
  have hne : s ≠ [] := by decide
  have hk : Escape.key true ['#', 'a', '\\'] = ['\\', '#', 'a', '\\', '\\'] := by decide
  have hv : Escape.value true s [':', '😀', '\n'] = line.drop 7 := by decide
  obtain ⟨hparts, -, hvalue, -, -, hascii⟩ :=
    written_line_reads_back true ['#', 'a', '\\'] [':', '😀', '\n'] hs hne
  rw [hk, hv] at hparts hascii
  rw [hv] at hvalue
  exact ⟨hs, hne, by rw [hk, hv]; rfl, hparts, hvalue, hascii rfl⟩

end PropertyFile
