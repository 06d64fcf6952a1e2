import PropertyFile.Proofs.PropertyLine

/-!
# The parts of a line are the only ones

A property line is taken apart by a walk from its start. What the walk
finds can be said without it: the key is cut off in front of the first
character that ends keys and is not the second one of an **escape pair**,
the separator is all of the spacing there with at most one assignment
mark, and the value is the rest (`LineParts.IsDecomposition`). These
conditions leave no choice. Every line has exactly one decomposition, and
it is the one that the walk finds (`LineParts.ofLine_eq_iff`).

Escape pairs are counted from the left, so whether a character is the
second one of a pair depends on all that stands before it. It is if and
only if what stands before it is not **whole** (`IsWhole`), and this can
be told by the backslashes at the end of that text alone
(`isWhole_iff`): they are the same ones that make a line continue.
-/

namespace PropertyFile

/-! ## Escape pairs -/

/-- A text is **whole** if it does not end in the middle of an escape
pair: counted from the left, every backslash has a character behind it. -/
inductive IsWhole : Text → Prop
  | nil : IsWhole []
  | plain {c : Char} {rest : Text} : c ≠ escapeMark → IsWhole rest → IsWhole (c :: rest)
  | pair {e : Char} {rest : Text} : IsWhole rest → IsWhole (escapeMark :: e :: rest)

/-- A whole text at the start of a text is empty, or has the first
character. -/
theorem IsWhole.of_cons_eq_append {c : Char} (hc : c ≠ escapeMark) {rest before tail : Text}
    (hw : IsWhole before) (h : c :: rest = before ++ tail) :
    before = [] ∧ tail = c :: rest ∨
      ∃ before', before = c :: before' ∧ IsWhole before' ∧ rest = before' ++ tail := by
  cases hw with
  | nil => exact .inl ⟨rfl, h.symm⟩
  | plain _ hw =>
    obtain ⟨rfl, hrest⟩ := List.cons.inj h
    exact .inr ⟨_, rfl, hw, hrest⟩
  | pair _ => exact absurd (List.cons.inj h).1 hc

/-- A whole text at the start of an escape pair is empty, or has the
pair. -/
theorem IsWhole.of_pair_eq_append {e : Char} {rest before tail : Text} (hw : IsWhole before)
    (h : escapeMark :: e :: rest = before ++ tail) :
    before = [] ∧ tail = escapeMark :: e :: rest ∨
      ∃ before', before = escapeMark :: e :: before' ∧ IsWhole before' ∧
        rest = before' ++ tail := by
  cases hw with
  | nil => exact .inl ⟨rfl, h.symm⟩
  | plain hc _ => exact absurd (List.cons.inj h).1.symm hc
  | pair hw =>
    obtain ⟨rfl, hrest⟩ := List.cons.inj (List.cons.inj h).2
    exact .inr ⟨_, rfl, hw, hrest⟩

/-- A text that is not whole has one backslash too many. -/
theorem isWhole_or_concat : ∀ t : Text, IsWhole t ∨ ∃ u, IsWhole u ∧ t = u ++ [escapeMark]
  | [] => .inl .nil
  | [c] => by
    by_cases hc : c = escapeMark
    · exact .inr ⟨[], .nil, by rw [hc]; rfl⟩
    · exact .inl (.plain hc .nil)
  | c :: e :: rest => by
    by_cases hc : c = escapeMark
    · subst hc
      obtain h | ⟨u, hu, rfl⟩ := isWhole_or_concat rest
      · exact .inl (.pair h)
      · exact .inr ⟨escapeMark :: e :: u, .pair hu, rfl⟩
    · obtain h | ⟨u, hu, heq⟩ := isWhole_or_concat (e :: rest)
      · exact .inl (.plain hc h)
      · exact .inr ⟨c :: u, .plain hc hu, by rw [heq]; rfl⟩

/-- Behind a whole text the backslashes count anew. -/
theorem IsWhole.endsWithContinuation_append {u : Text} (h : IsWhole u) (t : Text) :
    endsWithContinuation (u ++ t) = endsWithContinuation t := by
  induction h with
  | nil => rfl
  | plain hc _ ih =>
    rw [List.cons_append, endsWithContinuation_cons hc, ih]
  | pair _ ih =>
    rw [List.cons_append, List.cons_append, endsWithContinuation_escape, ih]

/-- **A text is whole if and only if it announces no further line.** -/
theorem isWhole_iff {t : Text} : IsWhole t ↔ endsWithContinuation t = false := by
  constructor
  · intro h
    rw [← List.append_nil t, h.endsWithContinuation_append]
    rfl
  · intro h
    obtain hw | ⟨u, hu, rfl⟩ := isWhole_or_concat t
    · exact hw
    · rw [hu.endsWithContinuation_append] at h
      exact absurd h (by decide)

instance (t : Text) : Decidable (IsWhole t) := decidable_of_iff _ isWhole_iff.symm

namespace LineParts

/-! ## Keys -/

/-- **The text of a key**: a character that ends keys occurs in it only
as the second one of an escape pair. -/
def IsKeyText (k : Text) : Prop :=
  ∀ before c after, k = before ++ c :: after → IsWhole before →
    isSpacing c = false ∧ isAssign c = false

theorem isKeyText_nil : IsKeyText [] := by
  intro before c after h
  exact absurd h (by simp)

theorem isKeyText_mark : IsKeyText [escapeMark] := by
  intro before c after h _
  cases before with
  | nil =>
    obtain ⟨rfl, -⟩ := List.cons.inj h
    exact ⟨rfl, rfl⟩
  | cons b before => exact absurd (List.cons.inj h).2 (by simp)

theorem IsKeyText.not_stop {c : Char} {k : Text} (h : IsKeyText (c :: k)) :
    isSpacing c = false ∧ isAssign c = false :=
  h [] c k rfl .nil

theorem isKeyText_cons_iff {c : Char} (hc : IsOrdinary c) {k : Text} :
    IsKeyText (c :: k) ↔ IsKeyText k := by
  constructor
  · intro hk before d after heq hw
    exact hk (c :: before) d after (by rw [heq]; rfl) (.plain hc.1 hw)
  · intro hk before d after heq hw
    obtain ⟨-, htail⟩ | ⟨before, -, hw, hrest⟩ := hw.of_cons_eq_append hc.1 heq
    · obtain ⟨rfl, -⟩ := List.cons.inj htail
      exact hc.2
    · exact hk before d after hrest hw

theorem isKeyText_pair_iff {e : Char} {k : Text} :
    IsKeyText (escapeMark :: e :: k) ↔ IsKeyText k := by
  constructor
  · intro hk before d after heq hw
    exact hk (escapeMark :: e :: before) d after (by rw [heq]; rfl) (.pair hw)
  · intro hk before d after heq hw
    obtain ⟨-, htail⟩ | ⟨before, -, hw, hrest⟩ := hw.of_pair_eq_append heq
    · -- the backslash itself ends no key
      obtain ⟨rfl, -⟩ := List.cons.inj htail
      exact ⟨rfl, rfl⟩
    · exact hk before d after hrest hw

/-- **What is cut off as a key**, and where: at the end of the line, or
between escape pairs in front of a character that ends keys. -/
theorem cutKey_spec (line : Text) :
    IsKeyText (cutKey line).1 ∧
      ((cutKey line).2 = [] ∨ IsWhole (cutKey line).1 ∧
        ∃ c rest, (cutKey line).2 = c :: rest ∧ (isSpacing c = true ∨ isAssign c = true)) := by
  fun_induction cutKey line with
  | case1 => exact ⟨isKeyText_nil, .inl rfl⟩
  | case2 => exact ⟨isKeyText_mark, .inl rfl⟩
  | case3 e rest key after hcut ih =>
    rw [hcut] at ih
    exact ⟨isKeyText_pair_iff.2 ih.1, ih.2.imp_right fun h => ⟨.pair h.1, h.2⟩⟩
  | case4 c rest hc hstop =>
    exact ⟨isKeyText_nil, .inr ⟨.nil, c, rest, rfl, by simpa using hstop⟩⟩
  | case5 c rest hc hstop key after hcut ih =>
    rw [hcut] at ih
    rw [Bool.or_eq_true, not_or, Bool.not_eq_true, Bool.not_eq_true] at hstop
    exact ⟨(isKeyText_cons_iff ⟨hc, hstop⟩).2 ih.1,
      ih.2.imp_right fun h => ⟨.plain hc h.1, h.2⟩⟩

/-- The text of a key is cut off as a key in front of nothing. -/
theorem cutKey_of_isKeyText {k : Text} (h : IsKeyText k) : cutKey k = (k, []) := by
  obtain ⟨-, hend | ⟨hw, c, rest, hrest, hc⟩⟩ := cutKey_spec k
  · have hall := cutKey_append k
    rw [hend, List.append_nil] at hall
    exact Prod.ext hall hend
  · -- the character in front of which it would be cut ends no key here
    have hstop := h (cutKey k).1 c rest (by rw [← hrest, cutKey_append]) hw
    simp [hstop] at hc

/-- No key ends inside a whole text of a key. -/
theorem IsKeyText.solid {k : Text} (hk : IsKeyText k) (hw : IsWhole k) : Solid k := by
  induction hw with
  | nil => exact solid_nil
  | @plain c rest hc _ ih =>
    have hordinary : IsOrdinary c := ⟨hc, hk.not_stop⟩
    exact (solid_of_ordinary (List.forall_mem_singleton.2 hordinary)).append
      (ih ((isKeyText_cons_iff hordinary).1 hk))
  | @pair e rest _ ih => exact (solid_escape e).append (ih (isKeyText_pair_iff.1 hk))

/-! ## Separators -/

/-- A separator is cut off with all that belongs to it. -/
theorem follows_cutSeparator (t : Text) : Follows (cutSeparator t).1 (cutSeparator t).2 := by
  have hfirst : ∀ (u : Text) (c : Char) (rest : Text), u.dropWhile isSpacing = c :: rest →
      isSpacing c = false := by
    intro u c rest h
    have hne : u.dropWhile isSpacing ≠ [] := h ▸ List.cons_ne_nil c rest
    have hhead := List.head_dropWhile_not isSpacing hne
    simpa [h] using hhead
  intro c v hv
  unfold cutSeparator at hv ⊢
  dsimp only at hv ⊢
  split at hv
  · exact absurd hv nofun
  · next a rest hdrop =>
    split at hv
    · next ha => exact ⟨hfirst rest c v hv, fun _ => by simp [ha]⟩
    · next ha =>
      obtain ⟨rfl, -⟩ := List.cons.inj hv
      exact ⟨hfirst t a rest hdrop, fun h => absurd h ha⟩

/-! ## The decomposition of a line -/

/-- **A decomposition of a line** into key, separator and value. -/
structure IsDecomposition (line : Text) (p : LineParts) : Prop where
  /-- The parts make up the line. -/
  append : p.key ++ p.separator ++ p.value = line
  /-- What ends keys is not in the key, unless it is escaped. -/
  key : IsKeyText p.key
  /-- The key does not end in the middle of an escape pair, unless the
  line does. -/
  whole : IsWhole p.key ∨ p.separator = [] ∧ p.value = []
  /-- The separator is spacing with at most one assignment mark. -/
  separator : IsSeparator p.separator
  /-- The separator does not go on into the value. -/
  follows : Follows p.separator p.value
  /-- There is no value without a separator. -/
  value : p.separator = [] → p.value = []

/-- The parts of a line are a decomposition of it. -/
theorem isDecomposition_ofLine (line : Text) : IsDecomposition line (ofLine line) where
  append := ofLine_append line
  key := (cutKey_spec line).1
  whole := by
    obtain ⟨-, hend | ⟨hw, -⟩⟩ := cutKey_spec line
    · right
      show (cutSeparator (cutKey line).2).1 = [] ∧ (cutSeparator (cutKey line).2).2 = []
      rw [hend]
      exact ⟨rfl, rfl⟩
    · exact .inl hw
  separator := isSeparator_cutSeparator _
  follows := follows_cutSeparator _
  value := by
    intro hs
    change (cutSeparator (cutKey line).2).1 = [] at hs
    show (cutSeparator (cutKey line).2).2 = []
    obtain ⟨-, hend | ⟨-, c, rest, hrest, hc⟩⟩ := cutKey_spec line
    · rw [hend]
      rfl
    · -- the character that ends the key is in the separator
      rw [hrest] at hs ⊢
      have hall := cutSeparator_append (c :: rest)
      rw [hs, List.nil_append] at hall
      have hfirst := follows_cutSeparator (c :: rest) c rest hall
      rw [hs] at hfirst
      obtain hc | hc := hc
      · exact absurd (hfirst.1.symm.trans hc) Bool.false_ne_true
      · exact absurd (hfirst.2 hc) Bool.false_ne_true

/-- Where the key of a decomposition ends, a key is cut off. -/
theorem IsDecomposition.cutKey_eq {line : Text} {p : LineParts} (h : IsDecomposition line p) :
    cutKey line = (p.key, p.separator ++ p.value) := by
  rw [← h.append, List.append_assoc]
  cases hs : p.separator with
  | nil =>
    rw [h.value hs, List.append_nil, List.append_nil]
    exact cutKey_of_isKeyText h.key
  | cons c s =>
    have hw : IsWhole p.key := h.whole.resolve_right fun hnil => by simp [hs] at hnil
    have hc := h.separator.chars c (hs ▸ List.mem_cons_self)
    rw [h.key.solid hw, List.cons_append, cutKey_stop hc, List.append_nil]

/-- **The parts of a line are its only decomposition.** -/
theorem ofLine_eq_iff (line : Text) (p : LineParts) :
    ofLine line = p ↔ IsDecomposition line p := by
  constructor
  · rintro rfl
    exact isDecomposition_ofLine line
  · intro h
    show LineParts.mk (cutKey line).1 (cutSeparator (cutKey line).2).1
      (cutSeparator (cutKey line).2).2 = p
    rw [h.cutKey_eq]
    dsimp only
    rw [cutSeparator_append_value h.separator h.follows]

/-- A space that is escaped belongs to the key, and so does a backslash
that is; the second assignment mark belongs to the value. -/
example : ofLine "a\\ b\\\\:= c".toList = ⟨"a\\ b\\\\".toList, [':'], "= c".toList⟩ := by
  decide +kernel

end LineParts

end PropertyFile
