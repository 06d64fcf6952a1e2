import PropertyFile.Proofs.LineParts
import PropertyFile.Proofs.RawValue
import PropertyFile.Proofs.Result

/-!
# List delimiters that do not occur

A list delimiter that is neither in a raw text nor in its value should
take no part in reading it. But with a delimiter two steps look for
backslashes. The first one resolves escapes and leaves those of the
backslash to the second, which cuts the value. The second step cannot
tell an escaped backslash that was left to it from backslashes that the
first step has made.

A backslash is made by the first step, and so is **bare** (`StartsBare`),
where it is written by its code point or is the last character of the
text. One of them does no harm, since a backslash before any other
character stays. Two of them in one run of backslashes (`HasBareRun`) are
taken for an escaped one, and one is lost. This is all that can happen:
with a delimiter that does not occur there is always a single value, and
it is the one that is there without if and only if the text has no such
run (`storedValues_idle_iff`).
-/

namespace PropertyFile

/-! ## Bare backslashes -/

/-- **A bare backslash** at the start of a text, and what follows it: the
numeric escape of a backslash, or one that is the last character. -/
inductive StartsBare : Text → Text → Prop
  | numeric {a b c d : Char} {rest : Text} :
    Unescape.fourDigits? a b c d = some escapeMark.toNat →
      StartsBare (escapeMark :: 'u' :: a :: b :: c :: d :: rest) rest
  | last : StartsBare [escapeMark] []

/-- Whether there is a bare backslash in the run of backslashes that a
text starts with, behind those that are escaped. -/
def RunsIntoBare (t : Text) : Prop :=
  ∃ n u rest, t = List.replicate (2 * n) escapeMark ++ u ∧ StartsBare u rest

/-- **Two bare backslashes in one run**: between them there are escaped
backslashes only, or nothing. -/
def HasBareRun (t : Text) : Prop :=
  ∃ before u rest, t = before ++ u ∧ IsWhole before ∧ StartsBare u rest ∧ RunsIntoBare rest

theorem StartsBare.runsIntoBare {t rest : Text} (h : StartsBare t rest) : RunsIntoBare t :=
  ⟨0, t, rest, rfl, h⟩

theorem not_startsBare_cons {c : Char} (hc : c ≠ escapeMark) {t rest : Text} :
    ¬ StartsBare (c :: t) rest := by
  intro h
  cases h with
  | numeric => exact hc rfl
  | last => exact hc rfl

/-- An escape is no bare backslash unless it is a numeric one. -/
theorem not_startsBare_escape {e : Char} (he : e ≠ 'u') {t rest : Text} :
    ¬ StartsBare (escapeMark :: e :: t) rest := by
  intro h
  cases h with
  | numeric => exact he rfl

/-- A numeric escape is a bare backslash if this is the character that it
names. -/
theorem startsBare_numeric_iff {a b c d : Char} {t rest : Text} :
    StartsBare (escapeMark :: 'u' :: a :: b :: c :: d :: t) rest ↔
      Unescape.fourDigits? a b c d = some escapeMark.toNat ∧ rest = t := by
  constructor
  · intro h
    cases h with
    | numeric hdigits => exact ⟨hdigits, rfl⟩
  · rintro ⟨hdigits, rfl⟩
    exact .numeric hdigits

/-- A run of backslashes comes to a bare one if it starts with one, or
does so behind a pair. -/
theorem runsIntoBare_iff {t : Text} :
    RunsIntoBare t ↔
      (∃ rest, StartsBare t rest) ∨
        ∃ rest, t = escapeMark :: escapeMark :: rest ∧ RunsIntoBare rest := by
  constructor
  · rintro ⟨n, u, rest, rfl, hbare⟩
    cases n with
    | zero => exact .inl ⟨rest, hbare⟩
    | succ n => exact .inr ⟨_, rfl, n, u, rest, rfl, hbare⟩
  · rintro (⟨rest, hbare⟩ | ⟨_, rfl, n, u, rest, rfl, hbare⟩)
    · exact hbare.runsIntoBare
    · exact ⟨n + 1, u, rest, rfl, hbare⟩

theorem not_runsIntoBare_nil : ¬ RunsIntoBare [] := by
  rw [runsIntoBare_iff]
  rintro (⟨rest, h⟩ | ⟨rest, h, -⟩)
  · cases h
  · cases h

theorem not_runsIntoBare_cons {c : Char} (hc : c ≠ escapeMark) {t : Text} :
    ¬ RunsIntoBare (c :: t) := by
  rw [runsIntoBare_iff]
  rintro (⟨rest, h⟩ | ⟨rest, h, -⟩)
  · exact not_startsBare_cons hc h
  · exact hc (List.cons.inj h).1

/-- An escaped backslash goes on the run. -/
theorem runsIntoBare_mark_iff {t : Text} :
    RunsIntoBare (escapeMark :: escapeMark :: t) ↔ RunsIntoBare t := by
  rw [runsIntoBare_iff]
  constructor
  · rintro (⟨rest, h⟩ | ⟨rest, h, hrest⟩)
    · exact absurd h (not_startsBare_escape (by decide))
    · obtain rfl := (List.cons.inj (List.cons.inj h).2).2
      exact hrest
  · exact fun h => .inr ⟨t, rfl, h⟩

/-- Any other escape ends it, or is a bare backslash. -/
theorem runsIntoBare_escape_iff {e : Char} (he : e ≠ escapeMark) {t : Text} :
    RunsIntoBare (escapeMark :: e :: t) ↔ ∃ rest, StartsBare (escapeMark :: e :: t) rest := by
  rw [runsIntoBare_iff]
  refine or_iff_left ?_
  rintro ⟨rest, h, -⟩
  exact he (List.cons.inj (List.cons.inj h).2).1

theorem not_hasBareRun_nil : ¬ HasBareRun [] := by
  rintro ⟨before, u, rest, h, -, hbare, -⟩
  obtain ⟨-, rfl⟩ := List.append_eq_nil_iff.1 h.symm
  cases hbare

/-- Nothing follows a backslash that is the last character. -/
theorem not_hasBareRun_last : ¬ HasBareRun [escapeMark] := by
  rintro ⟨before, u, rest, h, -, hbare, hrun⟩
  have hlength := congrArg List.length h
  cases hbare with
  | numeric =>
    simp only [List.length_append, List.length_cons, List.length_nil] at hlength
    omega
  | last => exact not_runsIntoBare_nil hrun

theorem hasBareRun_cons_iff {c : Char} (hc : c ≠ escapeMark) {t : Text} :
    HasBareRun (c :: t) ↔ HasBareRun t := by
  constructor
  · rintro ⟨before, u, rest, h, hw, hbare, hrun⟩
    obtain ⟨-, rfl⟩ | ⟨before, -, hw, rfl⟩ := hw.of_cons_eq_append hc h
    · exact absurd hbare (not_startsBare_cons hc)
    · exact ⟨before, u, rest, rfl, hw, hbare, hrun⟩
  · rintro ⟨before, u, rest, rfl, hw, hbare, hrun⟩
    exact ⟨c :: before, u, rest, rfl, .plain hc hw, hbare, hrun⟩

/-- An escape starts such a run, or there is one behind it. -/
theorem hasBareRun_pair_iff {e : Char} {t : Text} :
    HasBareRun (escapeMark :: e :: t) ↔
      (∃ rest, StartsBare (escapeMark :: e :: t) rest ∧ RunsIntoBare rest) ∨ HasBareRun t := by
  constructor
  · rintro ⟨before, u, rest, h, hw, hbare, hrun⟩
    obtain ⟨-, rfl⟩ | ⟨before, -, hw, rfl⟩ := hw.of_pair_eq_append h
    · exact .inl ⟨rest, hbare, hrun⟩
    · exact .inr ⟨before, u, rest, rfl, hw, hbare, hrun⟩
  · rintro (⟨rest, hbare, hrun⟩ | ⟨before, u, rest, rfl, hw, hbare, hrun⟩)
    · exact ⟨[], _, rest, rfl, .nil, hbare, hrun⟩
    · exact ⟨escapeMark :: e :: before, u, rest, rfl, .pair hw, hbare, hrun⟩

/-- An escape that is not numeric starts none. -/
theorem hasBareRun_escape_iff {e : Char} (he : e ≠ 'u') {t : Text} :
    HasBareRun (escapeMark :: e :: t) ↔ HasBareRun t := by
  rw [hasBareRun_pair_iff]
  refine or_iff_right ?_
  rintro ⟨rest, hbare, -⟩
  exact not_startsBare_escape he hbare

/-- A numeric escape starts one if it is a bare backslash and the run
behind it comes to a further one. -/
theorem hasBareRun_numeric_iff {a b c d : Char} {code : Nat}
    (h : Unescape.fourDigits? a b c d = some code) {t : Text} :
    HasBareRun (escapeMark :: 'u' :: a :: b :: c :: d :: t) ↔
      code = escapeMark.toNat ∧ RunsIntoBare t ∨ HasBareRun t := by
  have hne := fun x hx => (isOrdinary_of_fourDigits? h x hx).1
  rw [hasBareRun_pair_iff, hasBareRun_cons_iff (hne a (by simp)),
    hasBareRun_cons_iff (hne b (by simp)), hasBareRun_cons_iff (hne c (by simp)),
    hasBareRun_cons_iff (hne d (by simp))]
  refine or_congr_left ?_
  constructor
  · rintro ⟨rest, hbare, hrun⟩
    obtain ⟨hdigits, rfl⟩ := startsBare_numeric_iff.1 hbare
    exact ⟨Option.some.inj (h.symm.trans hdigits), hrun⟩
  · rintro ⟨rfl, hrun⟩
    exact ⟨t, .numeric h, hrun⟩

/-! ## Joining code points around a backslash -/

namespace Unescape

/-- The code point of the backslash is the only number for it. -/
theorem ofNat_eq_mark_iff {n : Nat} : Char.ofNat n = escapeMark ↔ n = escapeMark.toNat := by
  constructor
  · intro h
    by_cases hvalid : n.isValidChar
    · rw [Char.ofNat, dif_pos hvalid] at h
      exact congrArg Char.toNat h
    · rw [Char.ofNat, dif_neg hvalid] at h
      exact absurd h (by decide)
  · rintro rfl
    rfl

theorem single_ne_mark {code : Nat} (h : code ≠ escapeMark.toNat) : single code ≠ escapeMark := by
  unfold single
  split
  · decide
  · exact mt ofNat_eq_mark_iff.1 h

theorem pair_ne_mark (high low : Nat) : pair high low ≠ escapeMark := by
  intro h
  have hcode : _ = 92 := ofNat_eq_mark_iff.1 h
  omega

/-- No backslash comes from code points of other characters. -/
theorem mark_not_mem_join {codes : List Nat} (h : escapeMark.toNat ∉ codes) :
    escapeMark ∉ join codes := by
  fun_induction join codes with
  | case1 => exact List.not_mem_nil
  | case2 code =>
    rw [List.mem_singleton] at h ⊢
    exact Ne.symm (single_ne_mark (Ne.symm h))
  | case3 high low rest _ ih =>
    rw [List.mem_cons, List.mem_cons, not_or, not_or] at h
    rw [List.mem_cons, not_or]
    exact ⟨Ne.symm (pair_ne_mark high low), ih h.2.2⟩
  | case4 high low rest _ ih =>
    obtain ⟨hhigh, hrest⟩ := not_or.1 (mt List.mem_cons.2 h)
    rw [List.mem_cons, not_or]
    exact ⟨Ne.symm (single_ne_mark (Ne.symm hhigh)), ih hrest⟩

/-- **Nothing is joined across a backslash.** -/
theorem join_append_mark (front rest : List Nat) :
    join (front ++ escapeMark.toNat :: rest) = join front ++ escapeMark :: join rest := by
  fun_induction join front with
  | case1 => exact join_toNat escapeMark rest
  | case2 code =>
    have hlow : (isHigh code && isLow escapeMark.toNat) = false := Bool.and_false _
    rw [List.singleton_append, join, if_neg (by rw [hlow]; exact Bool.false_ne_true), join_toNat]
    rfl
  | case3 high low front hhalves ih =>
    rw [List.cons_append, List.cons_append, join, if_pos hhalves, ih]
    rfl
  | case4 high low front hhalves ih =>
    rw [List.cons_append, List.cons_append, join, if_neg hhalves, ← List.cons_append, ih]
    rfl

/-- A text does not start with a backslash if its first code point is no
backslash. -/
theorem mark_not_mem_head?_join {code : Nat} (h : code ≠ escapeMark.toNat) (rest : List Nat) :
    escapeMark ∉ (join (code :: rest)).head? := by
  intro hmark
  cases rest with
  | nil => exact single_ne_mark h (Option.some.inj hmark)
  | cons low rest =>
    rw [join] at hmark
    split at hmark
    · exact pair_ne_mark code low (Option.some.inj hmark)
    · exact single_ne_mark h (Option.some.inj hmark)

end Unescape

/-! ## Resolving with and without a delimiter -/

/-- Two texts that are the same unless `p` holds, and then the first one
has fewer backslashes. -/
def AgreeUnless (p : Prop) (u v : Text) : Prop :=
  (¬ p → u = v) ∧ (p → u.count escapeMark < v.count escapeMark)

namespace AgreeUnless

variable {p : Prop} {u v : Text}

theorem append (h : AgreeUnless p u v) (front : Text) :
    AgreeUnless p (front ++ u) (front ++ v) := by
  refine ⟨fun hp => congrArg (front ++ ·) (h.1 hp), fun hp => ?_⟩
  rw [List.count_append, List.count_append]
  exact Nat.add_lt_add_left (h.2 hp) _

theorem cons (h : AgreeUnless p u v) (c : Char) : AgreeUnless p (c :: u) (c :: v) :=
  h.append [c]

theorem count_le (h : AgreeUnless p u v) : u.count escapeMark ≤ v.count escapeMark := by
  by_cases hp : p
  · exact Nat.le_of_lt (h.2 hp)
  · exact Nat.le_of_eq (congrArg _ (h.1 hp))

/-- A backslash that only the second text has makes them differ. -/
theorem cons_mark (h : AgreeUnless p u v) {q : Prop} (hq : q) :
    AgreeUnless q u (escapeMark :: v) := by
  refine ⟨fun hnot => absurd hq hnot, fun _ => ?_⟩
  rw [List.count_cons_self]
  exact Nat.lt_succ_of_le h.count_le

/-- They agree if and only if `p` does not hold. -/
theorem eq_iff (h : AgreeUnless p u v) : u = v ↔ ¬ p :=
  ⟨fun heq hp => absurd (heq ▸ h.2 hp) (Nat.lt_irrefl _), h.1⟩

end AgreeUnless

open Unescape

/-- **What the escapes of a text come to** without a delimiter (`plain`)
and with one that does not occur (`guarded`): once the runs of backslashes
are halved in the second of them both are the same, unless there is a run
with two bare backslashes. Code points that come before the text may be
joined with its first one, but only if they are no backslashes; a
backslash before it is one more in the run that it starts with. -/
structure Settles (t : Text) (plain guarded : List Nat) : Prop where
  /-- No characters but backslashes are added. -/
  mem : ∀ front, ∀ c ∈ join (front ++ guarded), c = escapeMark ∨ c ∈ join (front ++ plain)
  /-- The text behind code points of other characters. -/
  behindOthers : ∀ front, escapeMark.toNat ∉ front →
    AgreeUnless (HasBareRun t) (halve (join (front ++ guarded))) (join (front ++ plain))
  /-- The text behind a bare backslash. -/
  behindBare : AgreeUnless (RunsIntoBare t ∨ HasBareRun t)
    (halve (escapeMark :: join guarded)) (escapeMark :: join plain)

namespace Settles

variable {t rest : Text} {plain guarded : List Nat}

theorem alone (h : Settles rest plain guarded) :
    AgreeUnless (HasBareRun rest) (halve (join guarded)) (join plain) :=
  h.behindOthers [] List.not_mem_nil

theorem nil : Settles [] [] [] where
  mem _ _ hc := .inr hc
  behindOthers front hfront := by
    refine ⟨fun _ => ?_, fun h => absurd h not_hasBareRun_nil⟩
    have hhalve := halve_append (mark_not_mem_join hfront) []
    rwa [halve, List.append_nil, ← List.append_nil front] at hhalve
  behindBare := ⟨fun _ => rfl, fun h =>
    absurd h (not_or.2 ⟨not_runsIntoBare_nil, not_hasBareRun_nil⟩)⟩

theorem last : Settles [escapeMark] [escapeMark.toNat] [escapeMark.toNat] where
  mem _ _ hc := .inr hc
  behindOthers front hfront := by
    refine ⟨fun _ => ?_, fun h => absurd h not_hasBareRun_last⟩
    rw [join_append_mark, halve_append (mark_not_mem_join hfront)]
    rfl
  behindBare := ⟨fun h => absurd (.inl StartsBare.last.runsIntoBare) h, fun _ => by decide⟩

/-- What is no backslash ends a run. -/
theorem other (h : Settles rest plain guarded) {code : Nat} (hcode : code ≠ escapeMark.toNat)
    (hrun : HasBareRun t ↔ HasBareRun rest) (hbare : ¬ RunsIntoBare t) :
    Settles t (code :: plain) (code :: guarded) where
  mem front := by
    have hmem := h.mem (front ++ [code])
    rwa [List.append_assoc, List.append_assoc] at hmem
  behindOthers front hfront := by
    have hagree := h.behindOthers (front ++ [code]) (by simp [hfront, Ne.symm hcode])
    rwa [List.append_assoc, List.append_assoc, ← hrun] at hagree
  behindBare := by
    rw [halve_cons fun _ => mark_not_mem_head?_join hcode guarded, or_iff_right hbare, hrun]
    have hfront : escapeMark.toNat ∉ [code] := mt List.mem_singleton.1 (Ne.symm hcode)
    exact (h.behindOthers [code] hfront).cons _

/-- An escaped backslash goes on a run, and counts as one backslash. -/
theorem escaped (h : Settles rest plain guarded) :
    Settles (escapeMark :: escapeMark :: rest) (escapeMark.toNat :: plain)
      (escapeMark.toNat :: escapeMark.toNat :: guarded) where
  mem front c := by
    rw [join_append_mark, join_append_mark, join_toNat]
    have hc := h.mem [] c
    simp only [List.nil_append] at hc
    simp only [List.mem_append, List.mem_cons]
    tauto
  behindOthers front hfront := by
    rw [join_append_mark, join_append_mark, join_toNat,
      halve_append (mark_not_mem_join hfront), halve_pair, hasBareRun_escape_iff (by decide)]
    exact (h.alone.cons _).append _
  behindBare := by
    rw [join_toNat, join_toNat, join_toNat, halve_pair, hasBareRun_escape_iff (by decide),
      runsIntoBare_mark_iff]
    exact h.behindBare.cons _

/-- A bare backslash is harmless until a further one follows. -/
theorem bare (h : Settles rest plain guarded) (hbare : StartsBare t rest)
    (hrun : HasBareRun t ↔ RunsIntoBare rest ∨ HasBareRun rest) :
    Settles t (escapeMark.toNat :: plain) (escapeMark.toNat :: guarded) where
  mem front c := by
    rw [join_append_mark, join_append_mark]
    have hc := h.mem [] c
    simp only [List.nil_append] at hc
    simp only [List.mem_append, List.mem_cons]
    tauto
  behindOthers front hfront := by
    rw [join_append_mark, join_append_mark, halve_append (mark_not_mem_join hfront), hrun]
    exact h.behindBare.append _
  behindBare := by
    rw [join_toNat, join_toNat, halve_pair]
    exact (h.alone.cons_mark (.inl hbare.runsIntoBare)).cons _

end Settles

namespace ListDelimiter

variable {d : ListDelimiter}

/-- Only an escaped backslash stands for one. -/
theorem named_ne_mark {e : Char} (he : e ≠ escapeMark) : named e ≠ escapeMark := by
  unfold named
  iterate 4
    split
    · decide
  exact he

theorem mem_kept_of_not_mem {e : Char} {t : Text} (ht : d.char ∉ t) (he : e ∈ t) :
    e ∈ kept (some d) ↔ e = escapeMark := by
  rw [mem_kept]
  refine or_iff_left ?_
  rintro rfl
  exact ht he

/-- **Escapes are resolved with a delimiter that does not occur** just
where they are without. -/
theorem exists_codes_kept (t : Text) (ht : d.char ∉ t) {plain : List Nat}
    (h : codes [] t = .ok plain) :
    ∃ guarded, codes (kept (some d)) t = .ok guarded ∧ Settles t plain guarded := by
  fun_induction codes [] t generalizing plain with
  | case1 =>
    obtain rfl := Except.ok.inj h
    exact ⟨[], rfl, .nil⟩
  | case2 =>
    obtain rfl := Except.ok.inj h
    exact ⟨[escapeMark.toNat], rfl, .last⟩
  | case3 e rest hkept => exact absurd hkept (by simp)
  | case4 a b c e rest code hdigits _ ih =>
    have hrest : d.char ∉ rest := fun hmem => ht (by simp [hmem])
    obtain ⟨later, hlater, rfl⟩ := map_eq_ok_iff.1 h
    obtain ⟨guarded, hguarded, hsettles⟩ := ih hrest hlater
    have hu : 'u' ∉ kept (some d) := by
      rw [mem_kept_of_not_mem ht (by simp)]
      decide
    refine ⟨code :: guarded, by rw [codes_numeric hu hdigits, hguarded]; rfl, ?_⟩
    have hrun := hasBareRun_numeric_iff hdigits (t := rest)
    by_cases hcode : code = escapeMark.toNat
    · subst hcode
      rw [eq_self, true_and] at hrun
      exact hsettles.bare (.numeric hdigits) hrun
    · rw [or_iff_right fun hmark => hcode hmark.1] at hrun
      refine hsettles.other hcode hrun ?_
      rw [runsIntoBare_escape_iff (by decide)]
      rintro ⟨tail, hbare⟩
      exact hcode (Option.some.inj (hdigits.symm.trans (startsBare_numeric_iff.1 hbare).1))
  | case5 => cases h
  | case6 => cases h
  | case7 e rest _ hu ih =>
    have hrest : d.char ∉ rest := fun hmem => ht (by simp [hmem])
    obtain ⟨later, hlater, rfl⟩ := map_eq_ok_iff.1 h
    obtain ⟨guarded, hguarded, hsettles⟩ := ih hrest hlater
    by_cases he : e = escapeMark
    · subst he
      exact ⟨_, by rw [codes_kept (mem_kept.2 (.inl rfl)), hguarded]; rfl, hsettles.escaped⟩
    · have hk : e ∉ kept (some d) := by rwa [mem_kept_of_not_mem ht (by simp)]
      refine ⟨_, by rw [codes_escape hk hu, hguarded]; rfl, ?_⟩
      refine hsettles.other (fun hcode => named_ne_mark he (Char.toNat_inj.1 hcode))
        (hasBareRun_escape_iff hu) ?_
      rw [runsIntoBare_escape_iff he]
      rintro ⟨tail, hbare⟩
      exact not_startsBare_escape hu hbare
  | case8 c rest hc ih =>
    have hrest : d.char ∉ rest := fun hmem => ht (by simp [hmem])
    obtain ⟨later, hlater, rfl⟩ := map_eq_ok_iff.1 h
    obtain ⟨guarded, hguarded, hsettles⟩ := ih hrest hlater
    refine ⟨_, by rw [codes_of_ne hc, hguarded]; rfl, ?_⟩
    refine hsettles.other ?_ (hasBareRun_cons_iff hc) (not_runsIntoBare_cons hc)
    exact fun hcode => hc (Char.toNat_inj.1 hcode)

/-- **The values that are stored for a raw text.** -/
def storedValues (d : Option ListDelimiter) (t : Text) : Except MalformedEscape (List Text) :=
  (unescape (kept d) t).map (split d true)

/-- **An idle delimiter** for a text that can be read: it occurs neither in
the text nor in its value. -/
structure IsIdle (d : ListDelimiter) (t value : Text) : Prop where
  /-- The text can be read without a delimiter. -/
  reads : unescape (kept none) t = .ok value
  /-- The delimiter is not in the text. -/
  text : d.char ∉ t
  /-- It is not in the value. -/
  value : d.char ∉ value

/-- **An idle delimiter leaves a value as it is if and only if no two bare
backslashes are in one run.** In either case there is a single value. -/
theorem storedValues_idle_iff {t value : Text} (h : d.IsIdle t value) :
    storedValues none t = .ok [value] ∧ (∃ part, storedValues (some d) t = .ok [part]) ∧
      (storedValues (some d) t = storedValues none t ↔ ¬ HasBareRun t) := by
  have hplain : storedValues none t = .ok [value] := by
    rw [storedValues, h.reads]
    rfl
  obtain ⟨plain, hcodes, rfl⟩ := map_eq_ok_iff.1 h.reads
  obtain ⟨guarded, hguarded, hsettles⟩ := exists_codes_kept t h.text hcodes
  have hmem : d.char ∉ Unescape.join guarded := fun hmem =>
    (hsettles.mem [] _ hmem).elim d.ne_escape h.value
  have hpart : storedValues (some d) t = .ok [halve (Unescape.join guarded)] := by
    rw [storedValues, unescape, hguarded]
    show Except.ok (split (some d) true (Unescape.join guarded)) = _
    unfold split
    dsimp only
    rw [cut_of_not_mem _ hmem]
    rfl
  refine ⟨hplain, ⟨_, hpart⟩, ?_⟩
  rw [hplain, hpart, ← hsettles.alone.eq_iff]
  exact ⟨fun hsame => List.singleton_inj.1 (Except.ok.inj hsame), fun hsame => by rw [hsame]⟩

/-- A comma, and a network path with one bare backslash in each of its
runs. -/
theorem storedValues_idle_iff_path :
    let comma : ListDelimiter := ⟨',', by decide⟩
    let t := "\\u005c\\\\host\\u005cshare".toList
    comma.IsIdle t "\\\\host\\share".toList ∧ ¬ HasBareRun t ∧
      storedValues (some comma) t = .ok ["\\\\host\\share".toList] := by
  have hidle : IsIdle ⟨',', by decide⟩ "\\u005c\\\\host\\u005cshare".toList
      "\\\\host\\share".toList := ⟨by decide +kernel, by decide, by decide⟩
  have hstored : storedValues (some ⟨',', by decide⟩) "\\u005c\\\\host\\u005cshare".toList
      = .ok ["\\\\host\\share".toList] := by decide +kernel
  obtain ⟨hplain, -, hiff⟩ := storedValues_idle_iff hidle
  exact ⟨hidle, hiff.1 (hstored.trans hplain.symm), hstored⟩

/-- **Such a path with two bare backslashes at its start** loses one of
them to a comma that is nowhere in it. -/
theorem not_storedValues_idle :
    ¬ ∀ (d : ListDelimiter) (t value : Text), d.IsIdle t value →
      storedValues (some d) t = storedValues none t := by
  intro h
  have hidle : IsIdle ⟨',', by decide⟩ "\\u005c\\u005chost".toList "\\\\host".toList :=
    ⟨by decide +kernel, by decide, by decide⟩
  exact absurd (h _ _ _ hidle) (by decide +kernel)

end ListDelimiter

end PropertyFile
