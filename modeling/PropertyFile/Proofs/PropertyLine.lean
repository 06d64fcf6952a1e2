import Mathlib.Data.List.Induction
import Mathlib.Data.List.TakeWhile
import Mathlib.Tactic.ByContra
import PropertyFile.Layout.Lines
import PropertyFile.Proofs.Escape
import PropertyFile.Reading

/-!
# Property lines read back

A property is written as its escaped key, its separator and its escaped
value, one behind the other. The line is taken apart again at the right
places: no key ends inside an escaped key (`solid_key`), and no
separator goes on into an escaped value (`cutSeparator_append_value`).
So a written property is read as it was (`ofLine_propertyLine`).

Only one thing can go wrong. Without a separator a value that is not
empty becomes part of the key, which then is read longer than it was
(`ofLine_unseparated`).
-/

namespace PropertyFile

/-! ## Digits -/

/-- **Digits write a number**, and nothing else does. -/
theorem exists_hexNumber?_iff {digits : Text} :
    (∃ n, Text.hexNumber? digits = some n) ↔ ∀ c ∈ digits, Text.hexValue? c ≠ none := by
  induction digits using List.reverseRecOn with
  | nil => exact iff_of_true ⟨0, rfl⟩ fun c hc => absurd hc List.not_mem_nil
  | append_singleton digits c ih =>
    rw [List.forall_mem_append, ← ih, List.forall_mem_singleton, Text.hexNumber?_concat]
    cases Text.hexNumber? digits <;> cases Text.hexValue? c <;> simp

/-- A character is **ordinary** if it takes part in a key as itself. -/
def IsOrdinary (c : Char) : Prop := c ≠ escapeMark ∧ isSpacing c = false ∧ isAssign c = false

theorem isOrdinary_of_hexValue? {c : Char} (h : Text.hexValue? c ≠ none) : IsOrdinary c := by
  refine ⟨?_, ?_, ?_⟩
  · rintro rfl
    exact h (by decide)
  · by_contra hs
    simp only [isSpacing, Bool.not_eq_false, Bool.or_eq_true, beq_iff_eq] at hs
    obtain (rfl | rfl) | rfl := hs
    all_goals exact h (by decide)
  · by_contra ha
    simp only [isAssign, Bool.not_eq_false, Bool.or_eq_true, beq_iff_eq] at ha
    obtain rfl | rfl := ha
    all_goals exact h (by decide)

theorem isOrdinary_of_fourDigits? {a b c d : Char} {code : Nat}
    (h : Unescape.fourDigits? a b c d = some code) : ∀ x ∈ [a, b, c, d], IsOrdinary x :=
  fun x hx => isOrdinary_of_hexValue? (exists_hexNumber?_iff.1 ⟨code, h⟩ x hx)

namespace LineParts

/-! ## Where a key ends -/

theorem cutKey_ordinary {c : Char} (h : IsOrdinary c) (rest : Text) :
    cutKey (c :: rest) = (c :: (cutKey rest).1, (cutKey rest).2) := by
  obtain ⟨he, hs, ha⟩ := h
  rw [cutKey.eq_def]
  simp [he, hs, ha]

theorem cutKey_escape (e : Char) (rest : Text) :
    cutKey (escapeMark :: e :: rest) = (escapeMark :: e :: (cutKey rest).1, (cutKey rest).2) := by
  rw [cutKey.eq_def]
  simp

theorem cutKey_stop {c : Char} (h : isSpacing c = true ∨ isAssign c = true) (rest : Text) :
    cutKey (c :: rest) = ([], c :: rest) := by
  have he : c ≠ escapeMark := by
    rintro rfl
    exact absurd h (by decide)
  rw [cutKey.eq_def]
  simp [he, h]

/-- A key starts with every character that does not end it. -/
theorem cutKey_fst_ne_nil {c : Char} (hs : isSpacing c = false) (ha : isAssign c = false)
    (rest : Text) : (cutKey (c :: rest)).1 ≠ [] := by
  by_cases he : c = escapeMark
  · subst he
    cases rest with
    | nil => exact List.cons_ne_nil _ _
    | cons e rest =>
      rw [cutKey_escape]
      exact List.cons_ne_nil _ _
  · rw [cutKey_ordinary ⟨he, hs, ha⟩]
    exact List.cons_ne_nil _ _

/-- A text is **solid** if no key ends inside it. -/
def Solid (t : Text) : Prop := ∀ rest, cutKey (t ++ rest) = (t ++ (cutKey rest).1, (cutKey rest).2)

theorem solid_nil : Solid [] := fun _ => rfl

theorem Solid.append {t u : Text} (ht : Solid t) (hu : Solid u) : Solid (t ++ u) := by
  intro rest
  rw [List.append_assoc, ht, hu, List.append_assoc]

theorem solid_of_ordinary {t : Text} (h : ∀ c ∈ t, IsOrdinary c) : Solid t := by
  induction t with
  | nil => exact solid_nil
  | cons c t ih =>
    intro rest
    rw [List.cons_append, cutKey_ordinary (h c List.mem_cons_self),
      ih (fun d hd => h d (List.mem_cons_of_mem c hd))]
    rfl

theorem solid_escape (e : Char) : Solid [escapeMark, e] := cutKey_escape e

theorem solid_numeric {code : Nat} (h : code ≤ 0xffff) : Solid (Escape.numeric code) := by
  obtain ⟨a, b, c, d, hhex, hdigits⟩ := Unescape.fourDigits?_hex h
  rw [Escape.numeric, hhex]
  exact (solid_escape 'u').append (solid_of_ordinary (isOrdinary_of_fourDigits? hdigits))

theorem solid_unicode (c : Char) : Solid (Escape.unicode c) := by
  have hc : c.toNat.isValidChar := c.valid
  simp only [Nat.isValidChar] at hc
  unfold Escape.unicode
  by_cases h : c.toNat ≤ 0xffff
  · rw [if_pos h]
    exact solid_numeric h
  · rw [if_neg h]
    exact (solid_numeric (by omega)).append (solid_numeric (by omega))

theorem solid_keyChar (ascii first : Bool) (c : Char) : Solid (Escape.keyChar ascii first c) := by
  unfold Escape.keyChar
  split
  · exact solid_escape 'n'
  split
  · exact solid_escape 'r'
  split
  · exact solid_escape c
  · next hmark =>
    split
    · exact solid_escape c
    · unfold Escape.plain
      split
      · exact solid_unicode c
      · refine solid_of_ordinary fun d hd => ?_
        rw [List.mem_singleton.1 hd]
        simp only [Bool.or_eq_true, beq_iff_eq, not_or, Bool.not_eq_true] at hmark
        exact ⟨hmark.2, hmark.1.2, hmark.1.1⟩

/-- **No key ends inside an escaped key.** -/
theorem solid_key (ascii : Bool) (k : Text) : Solid (Escape.key ascii k) := by
  cases k with
  | nil => exact solid_nil
  | cons c k =>
    refine (solid_keyChar ascii true c).append ?_
    induction k with
    | nil => exact solid_nil
    | cons d k ih => exact (solid_keyChar ascii false d).append ih

/-- A key is cut off between escapes, not inside one. -/
theorem isEscaped_cutKey {t : Text} (h : IsEscaped t) :
    IsEscaped (cutKey t).1 ∧ IsEscaped (cutKey t).2 := by
  induction h with
  | nil => exact ⟨.nil, .nil⟩
  | @plain c rest hc hrest ih =>
    by_cases hstop : isSpacing c = true ∨ isAssign c = true
    · rw [cutKey_stop hstop]
      exact ⟨.nil, .plain hc hrest⟩
    · rw [not_or, Bool.not_eq_true, Bool.not_eq_true] at hstop
      rw [cutKey_ordinary ⟨hc, hstop⟩]
      exact ⟨.plain hc ih.1, ih.2⟩
  | escape he _ ih =>
    rw [cutKey_escape]
    exact ⟨.escape he ih.1, ih.2⟩
  | numeric hd _ ih =>
    rw [cutKey_escape]
    have hsolid := solid_of_ordinary (isOrdinary_of_fourDigits? hd)
    rw [show ∀ (a b c d : Char) (r : Text), a :: b :: c :: d :: r = [a, b, c, d] ++ r from
      fun _ _ _ _ _ => rfl, hsolid]
    exact ⟨.numeric hd ih.1, ih.2⟩

end LineParts

/-! ## Separators -/

/-- A **separator** is spacing with at most one assignment mark in it. -/
structure IsSeparator (s : Text) : Prop where
  /-- It consists of spacing and assignment marks. -/
  chars : ∀ c ∈ s, isSpacing c = true ∨ isAssign c = true
  /-- There is at most one mark. -/
  marks : s.countP isAssign ≤ 1

namespace IsSeparator

theorem iff_all {s : Text} :
    IsSeparator s ↔ (s.all fun c => isSpacing c || isAssign c) = true ∧ s.countP isAssign ≤ 1 := by
  rw [List.all_eq_true]
  simp only [Bool.or_eq_true]
  exact ⟨fun h => ⟨h.chars, h.marks⟩, fun h => ⟨h.1, h.2⟩⟩

instance (s : Text) : Decidable (IsSeparator s) := decidable_of_iff _ iff_all.symm

theorem default : IsSeparator defaultSeparator := by decide

theorem isAssign_of_isSpacing {c : Char} (h : isSpacing c = true) : isAssign c = false := by
  simp only [isSpacing, Bool.or_eq_true, beq_iff_eq] at h
  obtain (rfl | rfl) | rfl := h
  all_goals rfl

theorem countP_of_spacing {s : Text} (h : ∀ c ∈ s, isSpacing c = true) : s.countP isAssign = 0 :=
  List.countP_eq_zero.2 fun c hc => by simp [isAssign_of_isSpacing (h c hc)]

theorem of_spacing {s : Text} (h : ∀ c ∈ s, isSpacing c = true) : IsSeparator s :=
  ⟨fun c hc => .inl (h c hc), by simp [countP_of_spacing h]⟩

theorem of_mark {before after : Text} {a : Char} (hb : ∀ c ∈ before, isSpacing c = true)
    (ha : isAssign a = true) (hf : ∀ c ∈ after, isSpacing c = true) :
    IsSeparator (before ++ a :: after) := by
  refine ⟨fun c hc => ?_, ?_⟩
  · obtain hc | hc := List.mem_append.1 hc
    · exact .inl (hb c hc)
    · obtain rfl | hc := List.mem_cons.1 hc
      · exact .inr ha
      · exact .inl (hf c hc)
  · rw [List.countP_append, List.countP_cons_of_pos ha, countP_of_spacing hb,
      countP_of_spacing hf]

theorem isLine {s : Text} (h : IsSeparator s) : Text.IsLine s := by
  intro c hc
  refine ⟨?_, ?_⟩
  all_goals
    rintro rfl
    exact absurd (h.chars _ hc) (by decide)

theorem isEscaped {s : Text} (h : IsSeparator s) : IsEscaped s := by
  have hne : ∀ c ∈ s, c ≠ escapeMark := by
    rintro c hc rfl
    exact absurd (h.chars _ hc) (by decide)
  clear h
  induction s with
  | nil => exact .nil
  | cons c s ih =>
    exact .plain (hne c List.mem_cons_self) (ih fun d hd => hne d (List.mem_cons_of_mem c hd))

theorem of_sublist {s t : Text} (h : IsSeparator s) (hsub : t.Sublist s) : IsSeparator t :=
  ⟨fun c hc => h.chars c (hsub.mem hc), Nat.le_trans hsub.countP_le h.marks⟩

/-- A separator is spacing, or an assignment mark with spacing on both
sides. -/
theorem eq_spacing_or {s : Text} (h : IsSeparator s) :
    ((∀ c ∈ s, isSpacing c = true) ∧ s.any isAssign = false) ∨
      ∃ before a after, s = before ++ a :: after ∧ (∀ c ∈ before, isSpacing c = true) ∧
        isSpacing a = false ∧ isAssign a = true ∧ ∀ c ∈ after, isSpacing c = true := by
  induction s with
  | nil => exact .inl ⟨by simp, rfl⟩
  | cons c s ih =>
    have hne : isAssign c = true → isSpacing c = false := fun ha =>
      Bool.eq_false_iff.2 fun hs => by simp [isAssign_of_isSpacing hs] at ha
    by_cases ha : isAssign c = true
    · refine .inr ⟨[], c, s, rfl, by simp, hne ha, ha, fun d hd => ?_⟩
      have hmarks := h.marks
      rw [List.countP_cons_of_pos ha] at hmarks
      have hnone := List.countP_eq_zero.1 (Nat.le_zero.1 (Nat.le_of_succ_le_succ hmarks)) d hd
      exact (h.chars d (List.mem_cons_of_mem c hd)).resolve_right hnone
    · have hs := (h.chars c List.mem_cons_self).resolve_right ha
      rcases ih (h.of_sublist (List.sublist_cons_self c s)) with
        ⟨hall, hany⟩ | ⟨before, a, after, rfl, hb, has, haa, haf⟩
      · exact .inl ⟨List.forall_mem_cons.2 ⟨hs, hall⟩, by simp [ha, hany]⟩
      · exact .inr ⟨c :: before, a, after, rfl, List.forall_mem_cons.2 ⟨hs, hb⟩, has, haa, haf⟩

end IsSeparator

namespace LineParts

/-- What is cut off as a separator is one. -/
theorem isSeparator_cutSeparator (t : Text) : IsSeparator (cutSeparator t).1 := by
  have hspacing : ∀ (u : Text), ∀ c ∈ u.takeWhile isSpacing, isSpacing c = true :=
    fun _ _ hc => List.mem_takeWhile_imp hc
  unfold cutSeparator
  dsimp only
  split
  · exact .of_spacing (hspacing t)
  · next a rest _ =>
    split
    · next ha => exact .of_mark (hspacing t) ha (hspacing rest)
    · exact .of_spacing (hspacing t)

/-- A text that a separator does not go on into: its first character is
no spacing, and no assignment mark unless the separator has one. -/
def Follows (s v : Text) : Prop :=
  ∀ c t, v = c :: t → isSpacing c = false ∧ (isAssign c = true → s.any isAssign = true)

theorem takeWhile_spacing_append {before v : Text} (hb : ∀ c ∈ before, isSpacing c = true)
    (hv : ∀ c t, v = c :: t → isSpacing c = false) :
    (before ++ v).takeWhile isSpacing = before ∧ (before ++ v).dropWhile isSpacing = v := by
  rw [List.takeWhile_append_of_pos hb, List.dropWhile_append_of_pos hb]
  cases v with
  | nil => simp
  | cons c t => simp [hv c t rfl]

/-- **A separator ends where the value behind it starts.** -/
theorem cutSeparator_append_value {s v : Text} (hs : IsSeparator s) (hv : Follows s v) :
    cutSeparator (s ++ v) = (s, v) := by
  have hfirst : ∀ c t, v = c :: t → isSpacing c = false := fun c t h => (hv c t h).1
  unfold cutSeparator
  obtain ⟨hall, hany⟩ | ⟨before, a, after, rfl, hb, has, haa, haf⟩ := hs.eq_spacing_or
  · obtain ⟨htake, hdrop⟩ := takeWhile_spacing_append hall hfirst
    rw [htake, hdrop]
    cases v with
    | nil => rfl
    | cons c t =>
      have hc : isAssign c = false := Bool.eq_false_iff.2 fun h => by
        simp [(hv c t rfl).2 h] at hany
      simp [hc]
  · obtain ⟨htake, hdrop⟩ := takeWhile_spacing_append (v := a :: (after ++ v)) hb
      (fun c t h => (List.cons.inj h).1 ▸ has)
    obtain ⟨htake', hdrop'⟩ := takeWhile_spacing_append haf hfirst
    rw [List.append_assoc, List.cons_append, htake, hdrop]
    simp [haa, htake', hdrop']

theorem isEscaped_dropWhile {t : Text} (h : IsEscaped t) : IsEscaped (t.dropWhile isSpacing) := by
  induction h with
  | nil => exact .nil
  | @plain c rest hc hrest ih =>
    by_cases hs : isSpacing c = true
    · rw [List.dropWhile_cons_of_pos hs]
      exact ih
    · rw [List.dropWhile_cons_of_neg hs]
      exact .plain hc hrest
  | escape he hrest _ =>
    rw [List.dropWhile_cons_of_neg (by decide)]
    exact .escape he hrest
  | numeric hd hrest _ =>
    rw [List.dropWhile_cons_of_neg (by decide)]
    exact .numeric hd hrest

/-- What follows a separator is cut off between escapes. -/
theorem isEscaped_cutSeparator {t : Text} (h : IsEscaped t) : IsEscaped (cutSeparator t).2 := by
  have hdrop := isEscaped_dropWhile h
  unfold cutSeparator
  dsimp only
  split
  · exact .nil
  · next a rest hd =>
    rw [hd] at hdrop
    split
    · next ha =>
      cases hdrop with
      | plain _ hrest => exact isEscaped_dropWhile hrest
      | escape _ _ => exact absurd ha (by decide)
      | numeric _ _ => exact absurd ha (by decide)
    · exact hdrop

/-- An escaped key in front of a line makes its key longer. -/
theorem ofLine_key_append (ascii : Bool) (k rest : Text) :
    ofLine (Escape.key ascii k ++ rest)
      = { ofLine rest with key := Escape.key ascii k ++ (ofLine rest).key } := by
  unfold ofLine
  rw [solid_key]

/-- The parts of an escaped line are escaped. -/
theorem isEscaped_ofLine {t : Text} (h : IsEscaped t) :
    IsEscaped (ofLine t).key ∧ IsEscaped (ofLine t).value :=
  ⟨(isEscaped_cutKey h).1, isEscaped_cutSeparator (isEscaped_cutKey h).2⟩

end LineParts

/-! ## Lines that are not continued -/

theorem endsWithContinuation_cons {c : Char} (h : c ≠ escapeMark) (t : Text) :
    endsWithContinuation (c :: t) = endsWithContinuation t := by
  unfold endsWithContinuation
  rw [List.reverse_cons, List.takeWhile_append]
  split
  · next hall => simp [h, List.length_reverse ▸ hall]
  · rfl

/-- A backslash and the character behind it do not announce a line. -/
theorem endsWithContinuation_escape (e : Char) (t : Text) :
    endsWithContinuation (escapeMark :: e :: t) = endsWithContinuation t := by
  by_cases he : e = escapeMark
  · subst he
    unfold endsWithContinuation
    rw [List.reverse_cons, List.reverse_cons, List.append_assoc, List.takeWhile_append]
    split
    · next hall => simp [List.length_reverse ▸ hall]
    · rfl
  · rw [← endsWithContinuation_cons he t]
    unfold endsWithContinuation
    rw [List.reverse_cons, List.takeWhile_append, if_neg]
    intro hall
    have hwhole := (List.takeWhile_prefix _).eq_of_length hall
    have hmem : e ∈ (e :: t).reverse := List.mem_reverse.2 List.mem_cons_self
    rw [← hwhole] at hmem
    exact he (beq_iff_eq.1 (List.mem_takeWhile_imp (p := (· == escapeMark)) hmem))

/-- Indentation does not matter to continuation. -/
theorem endsWithContinuation_dropWhile (line : Text) :
    endsWithContinuation (line.dropWhile isSpacing) = endsWithContinuation line := by
  induction line with
  | nil => rfl
  | cons c rest ih =>
    by_cases hc : isSpacing c = true
    · have hne : c ≠ escapeMark := by
        rintro rfl
        exact absurd hc (by decide)
      rw [List.dropWhile_cons_of_pos hc, ih, endsWithContinuation_cons hne]
    · rw [List.dropWhile_cons_of_neg hc]

/-- **An escaped text announces no further line.** -/
theorem IsEscaped.endsWithContinuation {t : Text} (h : IsEscaped t) :
    endsWithContinuation t = false := by
  induction h with
  | nil => rfl
  | plain hc _ ih => rw [endsWithContinuation_cons hc, ih]
  | escape _ _ ih => rw [endsWithContinuation_escape, ih]
  | @numeric a b c d code rest hd _ ih =>
    have hne := fun x hx => (isOrdinary_of_fourDigits? hd x hx).1
    rw [endsWithContinuation_escape, endsWithContinuation_cons (hne a (by simp)),
      endsWithContinuation_cons (hne b (by simp)), endsWithContinuation_cons (hne c (by simp)),
      endsWithContinuation_cons (hne d (by simp)), ih]

/-! ## How written keys and values start -/

namespace Escape

theorem unicode_cons (c : Char) : ∃ t, unicode c = escapeMark :: t := by
  unfold unicode
  dsimp only
  split
  · exact ⟨_, rfl⟩
  · exact ⟨_, rfl⟩

theorem plain_cons (ascii : Bool) (c : Char) :
    (∃ t, plain ascii c = escapeMark :: t) ∨ plain ascii c = [c] := by
  unfold plain
  split
  · exact .inl (unicode_cons c)
  · exact .inr rfl

theorem keyChar_cons (ascii : Bool) (c : Char) :
    (∃ t, keyChar ascii true c = escapeMark :: t) ∨
      keyChar ascii true c = [c] ∧ IsOrdinary c ∧ isCommentMark c = false := by
  unfold keyChar
  iterate 4
    split
    · exact .inl ⟨_, rfl⟩
  next hmark hcomment =>
    simp only [Bool.or_eq_true, beq_iff_eq, not_or, Bool.not_eq_true] at hmark
    rw [Bool.true_and, Bool.not_eq_true] at hcomment
    exact (plain_cons ascii c).imp_right fun h => ⟨h, ⟨hmark.2, hmark.1.2, hmark.1.1⟩, hcomment⟩

theorem valueChar_cons (ascii marked : Bool) (c : Char) :
    (∃ t, valueChar ascii true marked c = escapeMark :: t) ∨
      valueChar ascii true marked c = [c] ∧ isSpacing c = false ∧
        (isAssign c = true → marked = true) := by
  unfold valueChar
  iterate 7
    split
    · exact .inl ⟨_, rfl⟩
  next _ htab _ _ hfeed hspace hassign =>
    refine (plain_cons ascii c).imp_right fun h => ⟨h, ?_, ?_⟩
    · simp_all [isSpacing]
    · simpa using hassign

/-- A written key starts with a backslash or with its own first
character, which then has no meaning there. -/
theorem key_cons (ascii : Bool) (c : Char) (k : Text) :
    ∃ d t, key ascii (c :: k) = d :: t ∧
      (d = escapeMark ∨ d = c ∧ IsOrdinary c ∧ isCommentMark c = false) := by
  rw [key]
  obtain ⟨t, ht⟩ | ⟨hc, hordinary⟩ := keyChar_cons ascii c
  · rw [ht]
    exact ⟨_, _, rfl, .inl rfl⟩
  · rw [hc]
    exact ⟨_, _, rfl, .inr ⟨rfl, hordinary⟩⟩

/-- A written value starts with a backslash or with its own first
character, which then does not belong to the separator. -/
theorem value_cons (ascii : Bool) (separator : Text) (c : Char) (v : Text) :
    ∃ d t, value ascii separator (c :: v) = d :: t ∧
      (d = escapeMark ∨ d = c ∧ isSpacing c = false ∧
        (isAssign c = true → separator.any isAssign = true)) := by
  rw [value]
  obtain ⟨t, ht⟩ | ⟨hc, hfollows⟩ := valueChar_cons ascii (separator.any isAssign) c
  · rw [ht]
    exact ⟨_, _, rfl, .inl rfl⟩
  · rw [hc]
    exact ⟨_, _, rfl, .inr ⟨rfl, hfollows⟩⟩

/-- A separator does not go on into the value written behind it. -/
theorem follows_value (ascii : Bool) (s v : Text) : LineParts.Follows s (value ascii s v) := by
  intro d t h
  cases v with
  | nil => exact absurd h.symm (List.cons_ne_nil d t)
  | cons c v =>
    obtain ⟨d', t', h', hd⟩ := value_cons ascii s c v
    obtain ⟨rfl, -⟩ := List.cons.inj (h.symm.trans h')
    obtain rfl | ⟨rfl, hd⟩ := hd
    · exact ⟨rfl, fun ha => absurd ha (by decide)⟩
    · exact hd

end Escape

/-! ## Written properties -/

/-- A written property is escaped as a whole. -/
theorem isEscaped_propertyLine (ascii : Bool) (k v : Text) {s : Text} (hs : IsSeparator s) :
    IsEscaped (propertyLine ascii k s (Escape.value ascii s v)) :=
  ((Escape.isEscaped_key ascii k).append hs.isEscaped).append (Escape.isEscaped_value ascii s v)

/-- A written property is one line. -/
theorem isLine_propertyLine (ascii : Bool) (k v : Text) {s : Text} (hs : IsSeparator s) :
    Text.IsLine (propertyLine ascii k s (Escape.value ascii s v)) :=
  Text.isLine_append.2 ⟨Text.isLine_append.2 ⟨Escape.isLine_key ascii k, hs.isLine⟩,
    Escape.isLine_value ascii s v⟩

/-- The parts of a line that was put together from an escaped key, a
separator that is not empty or has nothing behind it, and what may stand
behind it. -/
theorem lineParts_of_follows (ascii : Bool) (k : Text) {s u : Text} (hs : IsSeparator s)
    (hne : s ≠ [] ∨ u = []) (hu : LineParts.Follows s u) :
    LineParts.ofLine (propertyLine ascii k s u) = ⟨Escape.key ascii k, s, u⟩ := by
  have hstop : LineParts.cutKey (s ++ u) = ([], s ++ u) := by
    cases s with
    | nil =>
      rw [hne.resolve_left (fun h => h rfl)]
      rfl
    | cons c s => exact LineParts.cutKey_stop (hs.chars c List.mem_cons_self) _
  rw [propertyLine, List.append_assoc, LineParts.ofLine_key_append]
  unfold LineParts.ofLine
  rw [hstop]
  dsimp only
  rw [LineParts.cutSeparator_append_value hs hu, List.append_nil]

/-- **The parts of a written property**: those it was written from, if
its separator is not empty or nothing stands behind it. -/
theorem lineParts_propertyLine (ascii : Bool) {k s v : Text} (hs : IsSeparator s)
    (hv : s ≠ [] ∨ v = []) :
    LineParts.ofLine (propertyLine ascii k s (Escape.value ascii s v))
      = ⟨Escape.key ascii k, s, Escape.value ascii s v⟩ := by
  refine lineParts_of_follows ascii k hs (hv.imp_right fun h => ?_) (Escape.follows_value ascii s v)
  rw [h]
  rfl

theorem unescape_key_alone (ascii : Bool) (k : Text) :
    unescape [] (Escape.key ascii k) = .ok k := by
  rw [← List.append_nil (Escape.key ascii k), Escape.unescape_key]
  show Except.ok (k ++ []) = _
  rw [List.append_nil]

/-- **When a property is read from a line.** -/
theorem Property.ofLine_eq_ok_iff {kept line : Text} {comments : List Text} {number : Nat}
    {p : Property} :
    Property.ofLine kept comments number line = .ok p ↔
      unescape [] (LineParts.ofLine line).key = .ok p.key ∧
        unescape kept (LineParts.ofLine line).value = .ok p.value ∧
        p.separator = (LineParts.ofLine line).separator ∧ p.comments = comments ∧
        p.line = number := by
  unfold Property.ofLine
  dsimp only
  constructor
  · intro h
    cases hk : unescape [] (LineParts.ofLine line).key with
    | error e => rw [hk] at h; exact absurd h nofun
    | ok key =>
      cases hv : unescape kept (LineParts.ofLine line).value with
      | error e => rw [hk, hv] at h; exact absurd h nofun
      | ok value =>
        rw [hk, hv] at h
        obtain rfl := Except.ok.inj h
        exact ⟨rfl, rfl, rfl, rfl, rfl⟩
  · rintro ⟨hk, hv, hs, rfl, rfl⟩
    rw [hk, hv, ← hs]
    rfl

/-- The property of a line whose parts are known. -/
theorem ofLine_of_parts {line k v : Text} {parts : LineParts}
    (hparts : LineParts.ofLine line = parts)
    (hk : unescape [] parts.key = .ok k) (hv : unescape [] parts.value = .ok v)
    (comments : List Text) (number : Nat) :
    Property.ofLine [] comments number line = .ok ⟨k, v, parts.separator, comments, number⟩ := by
  subst hparts
  exact Property.ofLine_eq_ok_iff.2 ⟨hk, hv, rfl, rfl, rfl⟩

/-- What is read on a line does not depend on where the line stands. -/
theorem ofLine_elsewhere {kept line : Text} {number : Nat} {p : Property}
    {before : List Text} (h : Property.ofLine kept before number line = .ok p)
    (comments : List Text) (number' : Nat) :
    Property.ofLine kept comments number' line
      = .ok ⟨p.key, p.value, p.separator, comments, number'⟩ := by
  obtain ⟨hk, hv, hs, -, -⟩ := Property.ofLine_eq_ok_iff.1 h
  exact Property.ofLine_eq_ok_iff.2 ⟨hk, hv, hs, rfl, rfl⟩

/-- **A written property is read as it was**, if its separator is not
empty or its value is. -/
theorem ofLine_propertyLine (ascii : Bool) {k s v : Text} (hs : IsSeparator s)
    (hv : s ≠ [] ∨ v = []) (comments : List Text) (number : Nat) :
    Property.ofLine [] comments number (propertyLine ascii k s (Escape.value ascii s v))
      = .ok ⟨k, v, s, comments, number⟩ :=
  ofLine_of_parts (lineParts_propertyLine ascii hs hv) (unescape_key_alone ascii k)
    (Escape.unescape_value ascii s v) comments number

/-- **Without a separator the key grows**: the start of a value that is
not empty is read as part of it. -/
theorem ofLine_unseparated (ascii : Bool) (k : Text) {v : Text} (hv : v ≠ [])
    (comments : List Text) (number : Nat) :
    ∃ p, Property.ofLine [] comments number (propertyLine ascii k [] (Escape.value ascii [] v))
      = .ok p ∧ k.length < p.key.length := by
  obtain ⟨hkey, hvalue⟩ := LineParts.isEscaped_ofLine (Escape.isEscaped_value ascii [] v)
  obtain ⟨u, hu⟩ := hkey.unescape_ok
  obtain ⟨w, hw⟩ := hvalue.unescape_ok
  have hgrows : u ≠ [] := by
    obtain ⟨c, v, rfl⟩ := List.exists_cons_of_ne_nil hv
    obtain ⟨d, t, ht, hd⟩ := Escape.value_cons ascii [] c v
    refine fun h => absurd (Unescape.eq_nil_of_unescape_eq_nil (h ▸ hu)) ?_
    rw [ht]
    refine LineParts.cutKey_fst_ne_nil ?_ ?_ t
    · obtain rfl | ⟨rfl, hs, -⟩ := hd
      · rfl
      · exact hs
    · obtain rfl | ⟨rfl, -, ha⟩ := hd
      · rfl
      · exact Bool.eq_false_iff.2 fun h => absurd (ha h) (by decide)
  have hparts := LineParts.ofLine_key_append ascii k (Escape.value ascii [] v)
  have hk : unescape [] (Escape.key ascii k ++ (LineParts.ofLine (Escape.value ascii [] v)).key)
      = .ok (k ++ u) := by
    rw [Escape.unescape_key, hu]
    rfl
  rw [propertyLine, List.append_nil]
  refine ⟨_, ofLine_of_parts hparts hk hw comments number, ?_⟩
  show k.length < (k ++ u).length
  rw [List.length_append]
  exact Nat.lt_add_of_pos_right (List.length_pos_iff.2 hgrows)

end PropertyFile
