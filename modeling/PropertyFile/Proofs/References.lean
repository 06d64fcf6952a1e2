import PropertyFile.Proofs.Including

/-!
# References are replaced at once

Where references occur in a text is a matter of the text alone
(`OccursAt`): it does not depend on what the variables stand for, nor on
how the text is scanned. Two occurrences never overlap, since a name
holds no dollar sign and so no reference can begin inside another
(`occurrences_apart`).

A text therefore falls into **pieces**, references and single
characters, in exactly one way that leaves no occurrence out
(`IsDissection`). Replacing the references among its pieces, one by one
and with no regard to what stands beside them, is what `expand` comes to
(`IsDissection.expand_eq`). What a reference is replaced by is no part
of the text that was dissected, and is never looked at.
-/

namespace PropertyFile

namespace Variables

/-! ## Occurrences -/

/-- What may be the name of a variable. -/
def IsName (name : Text) : Prop :=
  name ≠ [] ∧ ∀ c ∈ name, c ≠ '$' ∧ c ≠ '\x7b' ∧ c ≠ '\x7d'

/-- The reference to a variable, as it is written. -/
def written (name : Text) : Text := '$' :: '\x7b' :: name ++ ['\x7d']

/-- **A reference occurs** in a text, behind its first `i` characters. -/
structure OccursAt (t : Text) (i : Nat) (name : Text) : Prop where
  /-- It refers to a variable. -/
  isName : IsName name
  /-- It stands there in full. -/
  starts : written name <+: t.drop i

variable {lookup : Lookup} {t rest name name' : Text} {c : Char} {i j : Nat}

theorem isNameChar_iff : isNameChar c = true ↔ c ≠ '$' ∧ c ≠ '\x7b' ∧ c ≠ '\x7d' := by
  simp [isNameChar, and_assoc]

@[simp] theorem length_written (name : Text) : (written name).length = name.length + 3 := by
  simp [written]

/-- A scan behind an opening brace finds a name exactly if a closing brace
ends it. -/
theorem reference?_eq_some_iff :
    reference? t = some (name, rest) ↔ IsName name ∧ t = name ++ '\x7d' :: rest := by
  constructor
  · intro h
    have ht := List.takeWhile_append_dropWhile (p := isNameChar) (l := t)
    unfold reference? at h
    split at h
    · next c name' rest' htake hdrop =>
      obtain ⟨rfl, rfl⟩ := by simpa using h
      rw [htake, hdrop] at ht
      refine ⟨⟨List.cons_ne_nil _ _, fun x hx => isNameChar_iff.1 ?_⟩, ht.symm⟩
      exact List.mem_takeWhile_imp (htake ▸ hx)
    · cases h
  · rintro ⟨⟨hne, hchars⟩, rfl⟩
    have hall : ∀ x ∈ name, isNameChar x = true := fun x hx => isNameChar_iff.2 (hchars x hx)
    obtain ⟨c, name, rfl⟩ := List.exists_cons_of_ne_nil hne
    unfold reference?
    rw [List.takeWhile_append_of_pos hall, List.dropWhile_append_of_pos hall]
    simp [isNameChar]

/-- At the start of a text, a reference is what the text begins with. -/
theorem occursAt_zero_iff : OccursAt t 0 name ↔ IsName name ∧ ∃ rest, t = written name ++ rest :=
  ⟨fun h => ⟨h.isName, h.starts.imp fun _ => Eq.symm⟩,
    fun h => ⟨h.1, h.2.imp fun _ => Eq.symm⟩⟩

theorem occursAt_drop : OccursAt (t.drop i) j name ↔ OccursAt t (i + j) name := by
  constructor <;> exact fun ⟨hname, h⟩ => ⟨hname, by simpa [List.drop_drop] using h⟩

/-- Behind what a text begins with, its references are those of the
rest. -/
theorem occursAt_append (s : Text) :
    OccursAt (s ++ rest) (s.length + j) name ↔ OccursAt rest j name := by
  rw [← occursAt_drop, List.drop_left]

/-- A reference begins with its dollar sign. -/
theorem OccursAt.getElem?_eq (h : OccursAt t i name) : t[i]? = some '$' := by
  obtain ⟨after, hafter⟩ := h.starts
  rw [← Nat.add_zero i, ← List.getElem?_drop, ← hafter]
  rfl

/-- No reference begins inside another one. -/
theorem not_occursAt_inside (hname : IsName name) (hpos : 0 < i) (hlt : i < (written name).length) :
    ¬OccursAt (written name ++ rest) i name' := by
  intro h
  -- a reference has one dollar sign, its first character
  have hdollar := h.getElem?_eq
  obtain ⟨i, rfl⟩ := Nat.exists_eq_succ_of_ne_zero (Nat.pos_iff_ne_zero.1 hpos)
  rw [List.getElem?_append_left hlt] at hdollar
  have hmem : '$' ∈ '\x7b' :: name ++ ['\x7d'] := List.mem_of_getElem? hdollar
  obtain hmem | hmem := List.mem_append.1 hmem
  · obtain h | hmem := List.mem_cons.1 hmem
    · exact absurd h (by decide)
    · exact (hname.2 _ hmem).1 rfl
  · exact absurd hmem (by decide)

/-- A text begins with one reference at most. -/
theorem written_append_inj {rest' : Text} (hname : IsName name) (hname' : IsName name')
    (h : written name ++ rest = written name' ++ rest') : name = name' ∧ rest = rest' := by
  have hscan : ∀ {n r : Text}, IsName n → reference? ((written n ++ r).drop 2) = some (n, r) :=
    fun hn => reference?_eq_some_iff.2 ⟨hn, by simp [written]⟩
  have heq := hscan (r := rest) hname
  rw [h, hscan hname'] at heq
  exact (Prod.mk.inj (Option.some.inj heq)).imp Eq.symm Eq.symm

/-- Of two occurrences, the first one ends before the second begins, or
they are the same. -/
theorem OccursAt.apart_of_le (h : OccursAt t i name) (h' : OccursAt t j name') (hle : i ≤ j) :
    i = j ∧ name = name' ∨ i + (written name).length ≤ j := by
  obtain ⟨k, rfl⟩ := Nat.exists_eq_add_of_le hle
  obtain ⟨rest, hrest⟩ := h.starts
  have hk : OccursAt (written name ++ rest) k name' := hrest ▸ occursAt_drop.2 h'
  obtain rfl | hpos := Nat.eq_zero_or_pos k
  · obtain ⟨hname', rest', hrest'⟩ := occursAt_zero_iff.1 hk
    exact .inl ⟨rfl, (written_append_inj h.isName hname' hrest').1⟩
  · have hlen : (written name).length ≤ k :=
      Nat.le_of_not_lt fun hlt => not_occursAt_inside h.isName hpos hlt hk
    exact .inr (Nat.add_le_add_left hlen i)

/-- **Two occurrences do not overlap**: they are the same, or one ends
before the other begins. -/
theorem occurrences_apart (h : OccursAt t i name) (h' : OccursAt t j name') :
    i = j ∧ name = name' ∨ i + (written name).length ≤ j ∨ j + (written name').length ≤ i := by
  obtain hle | hle := Nat.le_total i j
  · exact (h.apart_of_le h' hle).imp_right .inl
  · exact (h'.apart_of_le h hle).imp (fun ⟨hi, hname⟩ => ⟨hi.symm, hname.symm⟩) .inr

/-! ## One step of the expansion -/

theorem expand_nil : expand lookup [] = [] := by
  rw [expand]

/-- A reference is replaced by what its variable stands for; what follows
is expanded on its own. -/
theorem expand_written_append (hname : IsName name) (rest : Text) :
    expand lookup (written name ++ rest)
      = (lookup name).getD (written name) ++ expand lookup rest := by
  have hscan : reference? (name ++ '\x7d' :: rest) = some (name, rest) :=
    reference?_eq_some_iff.2 ⟨hname, rfl⟩
  have hcons : written name ++ rest = '$' :: '\x7b' :: (name ++ '\x7d' :: rest) := by
    simp [written]
  rw [hcons, expand]
  split
  · next hnone => cases hnone.symm.trans hscan
  · next name' rest' hsome =>
    obtain ⟨rfl, rfl⟩ := Prod.mk.inj (Option.some.inj (hscan.symm.trans hsome))
    rfl

/-- A character that begins no reference stays. -/
theorem expand_cons (h : ∀ name, ¬OccursAt (c :: rest) 0 name) :
    expand lookup (c :: rest) = c :: expand lookup rest := by
  rw [expand.eq_def]
  split
  · next hnil => cases hnil
  · next after hcons =>
    obtain ⟨rfl, rfl⟩ := List.cons.inj hcons
    split
    · rfl
    · next name after' hsome =>
      obtain ⟨hname, rfl⟩ := reference?_eq_some_iff.1 hsome
      exact absurd (occursAt_zero_iff.2 ⟨hname, after', by simp [written]⟩) (h name)
  · next hcons =>
    obtain ⟨rfl, rfl⟩ := List.cons.inj hcons
    rfl

/-! ## Dissections -/

/-- A piece of a text. -/
inductive Piece where
  /-- A character by itself. -/
  | char (c : Char)
  /-- The reference to a variable. -/
  | reference (name : Text)

namespace Piece

/-- The piece as it is written. -/
def text : Piece → Text
  | char c => [c]
  | reference name => written name

/-- The piece once the variables are replaced. -/
def replaced (lookup : Lookup) : Piece → Text
  | char c => [c]
  | reference name => (lookup name).getD (written name)

theorem length_text_pos (p : Piece) : 0 < p.text.length := by
  cases p <;> simp [text]

end Piece

/-- A reference is one of the pieces, and `i` characters stand before
it. -/
def StandsAt (ps : List Piece) (i : Nat) (name : Text) : Prop :=
  ∃ before after, ps = before ++ .reference name :: after ∧ (before.flatMap Piece.text).length = i

/-- **The pieces of a text**: they make it up, and its references are the
ones among them. -/
structure IsDissection (t : Text) (ps : List Piece) : Prop where
  /-- Nothing is left out or added. -/
  text_eq : ps.flatMap Piece.text = t
  /-- Every reference is a piece of its own. -/
  occursAt_iff : ∀ i name, OccursAt t i name ↔ StandsAt ps i name

variable {p : Piece} {ps : List Piece}

theorem not_standsAt_nil : ¬StandsAt [] i name := by
  rintro ⟨before, after, h, -⟩
  exact absurd h.symm (by simp)

/-- A reference among some pieces is the first of them, or is among the
others. -/
theorem standsAt_cons_iff :
    StandsAt (p :: ps) i name ↔
      (p = .reference name ∧ i = 0) ∨ ∃ j, StandsAt ps j name ∧ i = p.text.length + j := by
  constructor
  · rintro ⟨before, after, hps, hi⟩
    cases before with
    | nil => exact .inl ⟨List.head_eq_of_cons_eq hps, hi.symm⟩
    | cons q before =>
      obtain ⟨rfl, rfl⟩ := List.cons.inj hps
      refine .inr ⟨_, ⟨before, after, rfl, rfl⟩, ?_⟩
      rw [← hi, List.flatMap_cons, List.length_append]
  · rintro (⟨rfl, rfl⟩ | ⟨j, ⟨before, after, rfl, rfl⟩, rfl⟩)
    · exact ⟨[], ps, rfl, rfl⟩
    · exact ⟨p :: before, after, rfl, by rw [List.flatMap_cons, List.length_append]⟩

theorem standsAt_cons_add_iff :
    StandsAt (p :: ps) (p.text.length + i) name ↔ StandsAt ps i name := by
  rw [standsAt_cons_iff]
  constructor
  · rintro (⟨-, h⟩ | ⟨j, hj, h⟩)
    · exact absurd (Nat.eq_zero_of_add_eq_zero_right h) p.length_text_pos.ne'
    · rwa [Nat.add_left_cancel h]
  · exact fun h => .inr ⟨i, h, rfl⟩

theorem isDissection_nil_iff : IsDissection t [] ↔ t = [] := by
  constructor
  · exact fun h => h.text_eq.symm
  · rintro rfl
    refine ⟨rfl, fun i name => iff_of_false (fun h => ?_) not_standsAt_nil⟩
    exact absurd h.getElem?_eq (by simp)

/-- **The first piece of a text**, and those of what follows it: all
references of the rest are pieces, and so is the one with which the text
begins, if there is one. -/
theorem isDissection_cons_iff :
    IsDissection t (p :: ps) ↔ ∃ rest, t = p.text ++ rest ∧ IsDissection rest ps ∧
      ∀ i name, i < p.text.length → (OccursAt t i name ↔ p = .reference name ∧ i = 0) := by
  have hinside : ∀ {i name}, i < p.text.length →
      (StandsAt (p :: ps) i name ↔ p = .reference name ∧ i = 0) := by
    intro i name hi
    rw [standsAt_cons_iff, or_iff_left]
    rintro ⟨j, -, rfl⟩
    omega
  constructor
  · rintro ⟨rfl, hoccurs⟩
    refine ⟨ps.flatMap Piece.text, List.flatMap_cons, ⟨rfl, fun i name => ?_⟩, fun i name hi => ?_⟩
    · rw [← standsAt_cons_add_iff (p := p), ← hoccurs, List.flatMap_cons, occursAt_append]
    · exact (hoccurs i name).trans (hinside hi)
  · rintro ⟨rest, rfl, ⟨rfl, hoccurs⟩, hfirst⟩
    refine ⟨List.flatMap_cons, fun i name => ?_⟩
    obtain hi | hi := Nat.lt_or_ge i p.text.length
    · exact (hfirst i name hi).trans (hinside hi).symm
    · obtain ⟨j, rfl⟩ := Nat.exists_eq_add_of_le hi
      rw [occursAt_append, standsAt_cons_add_iff, hoccurs]

theorem isDissection_char_cons_iff :
    IsDissection t (.char c :: ps) ↔
      ∃ rest, t = c :: rest ∧ IsDissection rest ps ∧ ∀ name, ¬OccursAt (c :: rest) 0 name := by
  rw [isDissection_cons_iff]
  refine exists_congr fun rest => and_congr_right ?_
  rintro rfl
  refine and_congr_right fun _ => ⟨fun h name => ?_, fun h i name hi => ?_⟩
  · exact fun hname => nomatch ((h 0 name Nat.zero_lt_one).1 hname).1
  · obtain rfl : i = 0 := Nat.lt_one_iff.1 hi
    exact iff_of_false (h name) fun hp => nomatch hp.1

theorem isDissection_reference_cons_iff :
    IsDissection t (.reference name :: ps) ↔
      ∃ rest, t = written name ++ rest ∧ IsDissection rest ps ∧ IsName name := by
  rw [isDissection_cons_iff]
  refine exists_congr fun rest => and_congr_right ?_
  rintro rfl
  refine and_congr_right fun _ => ⟨fun h => ?_, fun hname i name' hi => ?_⟩
  · exact ((h 0 name (by simp [Piece.text])).2 ⟨rfl, rfl⟩).isName
  · constructor
    · intro h
      obtain rfl : i = 0 := (Nat.eq_zero_or_pos i).resolve_right fun hpos =>
        not_occursAt_inside hname hpos hi h
      obtain ⟨hname', rest', hrest⟩ := occursAt_zero_iff.1 h
      exact ⟨congrArg _ (written_append_inj hname hname' hrest).1, rfl⟩
    · rintro ⟨hp, rfl⟩
      obtain rfl := Piece.reference.inj hp
      exact occursAt_zero_iff.2 ⟨hname, rest, rfl⟩

/-- Every text can be dissected. -/
theorem exists_isDissection (t : Text) : ∃ ps, IsDissection t ps := by
  induction hn : t.length using Nat.strong_induction_on generalizing t with
  | h n ih =>
    cases t with
    | nil => exact ⟨[], isDissection_nil_iff.2 rfl⟩
    | cons c rest =>
      -- the first piece is a reference if the text begins with one
      by_cases h : ∃ name, OccursAt (c :: rest) 0 name
      · obtain ⟨name, hoccurs⟩ := h
        obtain ⟨hname, after, hafter⟩ := occursAt_zero_iff.1 hoccurs
        have hlt : after.length < n := by
          rw [← hn, hafter, List.length_append, length_written]
          omega
        obtain ⟨ps, hps⟩ := ih _ hlt after rfl
        exact ⟨_, isDissection_reference_cons_iff.2 ⟨after, hafter, hps, hname⟩⟩
      · obtain ⟨ps, hps⟩ := ih rest.length (by simp [← hn]) rest rfl
        exact ⟨_, isDissection_char_cons_iff.2 ⟨rest, rfl, hps, not_exists.1 h⟩⟩

/-- A text has a reference at its start exactly if that is its first
piece. -/
theorem IsDissection.occursAt_zero_iff (h : IsDissection t (p :: ps)) :
    OccursAt t 0 name ↔ p = .reference name := by
  obtain ⟨-, -, -, hfirst⟩ := isDissection_cons_iff.1 h
  exact (hfirst 0 name p.length_text_pos).trans (and_iff_left rfl)

theorem IsDissection.head_eq {p' : Piece} {ps' : List Piece} (h : IsDissection t (p :: ps))
    (h' : IsDissection t (p' :: ps')) : p = p' := by
  cases p with
  | reference name => exact (h'.occursAt_zero_iff.1 (h.occursAt_zero_iff.2 rfl)).symm
  | char c =>
    cases p' with
    | reference name => exact h.occursAt_zero_iff.1 (h'.occursAt_zero_iff.2 rfl)
    | char c' => exact congrArg _ (List.head_eq_of_cons_eq (h.text_eq.trans h'.text_eq.symm))

theorem IsDissection.eq_nil (h : IsDissection [] ps) : ps = [] := by
  cases ps with
  | nil => rfl
  | cons p ps =>
    have hpieces := (List.append_eq_nil_iff.1 h.text_eq).1
    exact absurd p.length_text_pos (by simp [hpieces])

/-- A text can be dissected in one way only. -/
theorem IsDissection.unique {ps' : List Piece} (h : IsDissection t ps) (h' : IsDissection t ps') :
    ps = ps' := by
  induction ps generalizing t ps' with
  | nil =>
    obtain rfl := isDissection_nil_iff.1 h
    exact h'.eq_nil.symm
  | cons p ps ih =>
    cases ps' with
    | nil =>
      obtain rfl := isDissection_nil_iff.1 h'
      exact h.eq_nil
    | cons p' ps' =>
      obtain rfl := h.head_eq h'
      obtain ⟨rest, rfl, hrest, -⟩ := isDissection_cons_iff.1 h
      obtain ⟨rest', heq, hrest', -⟩ := isDissection_cons_iff.1 h'
      obtain rfl := List.append_cancel_left heq
      rw [ih hrest hrest']

/-- **Expanding a text** replaces the references among its pieces, each on
its own. -/
theorem IsDissection.expand_eq (h : IsDissection t ps) (lookup : Lookup) :
    expand lookup t = ps.flatMap (Piece.replaced lookup) := by
  induction ps generalizing t with
  | nil =>
    obtain rfl := isDissection_nil_iff.1 h
    exact expand_nil
  | cons p ps ih =>
    rw [List.flatMap_cons]
    cases p with
    | char c =>
      obtain ⟨rest, rfl, hrest, hno⟩ := isDissection_char_cons_iff.1 h
      rw [expand_cons hno, ih hrest]
      rfl
    | reference name =>
      obtain ⟨rest, rfl, hrest, hname⟩ := isDissection_reference_cons_iff.1 h
      rw [expand_written_append hname, ih hrest]
      rfl

/-- A piece is replaced by itself where its variable is unknown. -/
theorem Piece.replaced_eq_text (h : ∀ name, p = .reference name → lookup name = none) :
    p.replaced lookup = p.text := by
  cases p with
  | char c => rfl
  | reference name => rw [replaced, h name rfl]; rfl

/-- A text whose references are all unknown stays as it is. -/
theorem expand_of_unknown (h : ∀ i name, OccursAt t i name → lookup name = none) :
    expand lookup t = t := by
  obtain ⟨ps, hps⟩ := exists_isDissection t
  have hpieces : ∀ p ∈ ps, p.replaced lookup = p.text := by
    intro p hp
    refine Piece.replaced_eq_text fun name hname => ?_
    obtain ⟨before, after, rfl⟩ := List.append_of_mem hp
    exact h _ name ((hps.occursAt_iff _ name).2 ⟨before, after, by rw [hname], rfl⟩)
  rw [hps.expand_eq, List.flatMap_congr hpieces, hps.text_eq]

/-- **Expansion is simultaneous replacement.** Occurrences of references
do not overlap, and so a text falls into references and other characters
in exactly one way. It is expanded by replacing, all at once, the
references to variables that are known. Where none of them is, or where
there are no variables at all, the text stays as it is. -/
theorem expand_simultaneous (lookup : Lookup) (t : Text) :
    (∀ i name j name', OccursAt t i name → OccursAt t j name' →
      i = j ∧ name = name' ∨ i + (written name).length ≤ j ∨ j + (written name').length ≤ i) ∧
    (∃! ps, IsDissection t ps) ∧
    (∀ ps, IsDissection t ps → expand lookup t = ps.flatMap (Piece.replaced lookup)) ∧
    ((∀ i name, OccursAt t i name → lookup name = none) → expand lookup t = t) ∧
    ∀ o : StoreOptions, o.lookup = none → Store.targetOf o t = t := by
  refine ⟨fun i name j name' => occurrences_apart, ?_, fun ps hps => hps.expand_eq lookup,
    expand_of_unknown, fun o ho => ?_⟩
  · obtain ⟨ps, hps⟩ := exists_isDissection t
    exact ⟨ps, hps, fun ps' hps' => hps'.unique hps⟩
  · rw [Store.targetOf, ho]

/-- A value and what stands behind it look like a reference, and are
none. -/
example : expand (fun name => if name = "x".toList then some "$".toList else some "!".toList)
    "$\x7bx\x7d\x7by\x7d$\x7b$\x7by\x7d\x7d".toList = "$\x7by\x7d$\x7b!\x7d".toList := by
  decide +kernel

end Variables

end PropertyFile
