import PropertyFile.Proofs.ListValue

/-!
# Raw values and their parts

A raw value is what a list delimiter cuts. Two of its laws do not ask
where it came from.

Values whose backslashes are doubled may be joined, whatever else they
hold, and come apart again (`split_join`). A raw value without delimiters
is not cut at all, but it does not stay as it is: two backslashes in a
row are taken for an escaped one, so a run of backslashes comes out half
as long (`halve`, `cut_of_not_mem`).
-/

namespace PropertyFile

/-! ## Joined values come apart -/

namespace ListDelimiter

variable {d : ListDelimiter}

/-- A value with each of its backslashes doubled. -/
def doubled (v : Text) : Text := Text.replace escapeMark [escapeMark, escapeMark] v

/-- A doubled value is guarded once its delimiters are protected. -/
theorem protect_doubled (v : Text) : protect (some d) (doubled v) = d.guard v := by
  induction v with
  | nil => rfl
  | cons c v ih =>
    have hchar : protect (some d) (if c = escapeMark then [escapeMark, escapeMark] else [c])
        = d.guardChar c := by
      unfold guardChar
      by_cases hmark : c = escapeMark
      · rw [if_pos hmark, if_pos (.inr hmark), hmark]
        exact protect_of_not_mem (by simp [d.ne_escape])
      · by_cases hd : c = d.char
        · rw [if_neg hmark, if_pos (.inl hd), hd]
          exact protect_delimiter
        · rw [if_neg hmark, if_neg (not_or.2 ⟨hd, hmark⟩)]
          exact protect_of_not_mem (by simpa using Ne.symm hd)
    show protect (some d) ((if c = escapeMark then _ else _) ++ doubled v) = _
    rw [protect_append, hchar, ih]
    rfl

/-- **Joined values come apart again**, whatever they hold, if their
backslashes are doubled. Several values lose the blanks around them where
this is asked for, and a single one keeps them. -/
theorem split_join (d : ListDelimiter) {vs : List Text} (h : vs ≠ []) :
    ∃ raw, join (some d) (vs.map doubled) = some raw ∧
      split (some d) false raw = vs ∧
      split (some d) true raw = (if vs.length = 1 then vs else vs.map Text.strip) ∧
      ∀ trim, (split (some d) trim raw).length = vs.length := by
  have hguard : (vs.map doubled).map (protect (some d)) = vs.map d.guard := by
    rw [List.map_map]
    exact List.map_congr_left fun v _ => protect_doubled v
  have hcut : d.cut (Text.joinWith [d.char] (vs.map d.guard)) = vs := cut_joinWith_guard h
  refine ⟨Text.joinWith [d.char] (vs.map d.guard), congrArg (some ∘ Text.joinWith _) hguard,
    ?_, ?_, fun trim => by rw [length_split, hcut]⟩
  · unfold split
    dsimp only
    rw [hcut, Bool.false_and, if_neg Bool.false_ne_true]
  · unfold split
    dsimp only
    rw [hcut]
    by_cases hone : vs.length = 1
    · rw [if_pos hone, if_neg (by simp [hone])]
    · have htwo : 1 < vs.length :=
        Nat.lt_of_le_of_ne (List.length_pos_iff.2 h) (Ne.symm hone)
      rw [if_neg hone, if_pos (by simpa using htwo)]

/-- A value of delimiters, one that ends in a backslash, and an empty
one. -/
theorem split_join_comma :
    let comma : ListDelimiter := ⟨',', by decide⟩
    let vs := [",,".toList, " \\".toList, []]
    vs ≠ [] ∧ ∃ raw, join (some comma) (vs.map doubled) = some raw ∧
      raw = "\\,\\,, \\\\,".toList ∧ split (some comma) false raw = vs ∧
      split (some comma) true raw = [",,".toList, "\\".toList, []] := by
  intro comma vs
  refine ⟨by decide, ?_⟩
  obtain ⟨raw, hjoin, hsplit, htrim, -⟩ := split_join comma (show vs ≠ [] by decide)
  have hraw : raw = "\\,\\,, \\\\,".toList := Option.some.inj (hjoin.symm.trans (by decide))
  exact ⟨raw, hjoin, hraw, hsplit, htrim⟩

end ListDelimiter

/-! ## Raw values without delimiters -/

/-- A text in which, from the left, each pair of backslashes is a single
one. -/
def halve : Text → Text
  | [] => []
  | [c] => [c]
  | c :: e :: rest =>
    if c = escapeMark ∧ e = escapeMark then escapeMark :: halve rest else c :: halve (e :: rest)

theorem halve_pair (rest : Text) :
    halve (escapeMark :: escapeMark :: rest) = escapeMark :: halve rest := if_pos ⟨rfl, rfl⟩

/-- What is not the first backslash of a pair stays. -/
theorem halve_cons {c : Char} {rest : Text} (h : c = escapeMark → escapeMark ∉ rest.head?) :
    halve (c :: rest) = c :: halve rest := by
  cases rest with
  | nil => rfl
  | cons e rest => exact if_neg fun hpair => h hpair.1 (congrArg some hpair.2)

/-- A text without backslashes stays, whatever follows it. -/
theorem halve_append {u : Text} (h : escapeMark ∉ u) (rest : Text) :
    halve (u ++ rest) = u ++ halve rest := by
  induction u with
  | nil => rfl
  | cons c u ih =>
    obtain ⟨hc, hu⟩ := not_or.1 (mt List.mem_cons.2 h)
    rw [List.cons_append, halve_cons fun hmark => absurd hmark.symm hc, ih hu]
    rfl

namespace ListDelimiter

variable {d : ListDelimiter}

/-- A character that is no delimiter and starts no escape belongs to the
first part. -/
theorem cut_cons {c : Char} {t : Text} (hc : c ≠ d.char)
    (h : c = escapeMark → ∀ e ∈ t.head?, e ≠ d.char ∧ e ≠ escapeMark) :
    d.cut (c :: t) = Text.consHead c (d.cut t) := by
  have hplain : ∀ {c : Char} (t : Text), c ≠ d.char → c ≠ escapeMark →
      d.cut (c :: t) = Text.consHead c (d.cut t) := by
    intro c t hc hmark
    rw [cut.eq_def]
    exact (if_neg hmark).trans (if_neg hc)
  by_cases hmark : c = escapeMark
  · cases t with
    | nil =>
      rw [hmark]
      rfl
    | cons e t =>
      obtain ⟨he, hemark⟩ := h hmark e rfl
      rw [hplain t he hemark, cut.eq_def]
      simp [hmark, he, hemark]
  · exact hplain t hc hmark

/-- **A raw value without delimiters is a single part**, in which runs of
backslashes are halved. -/
theorem cut_of_not_mem (raw : Text) (h : d.char ∉ raw) : d.cut raw = [halve raw] := by
  fun_induction halve raw with
  | case1 => rfl
  | case2 c => exact cut_cons (Ne.symm (mt List.mem_singleton.2 h)) fun _ e he => absurd he nofun
  | case3 c e rest hpair ih =>
    obtain ⟨rfl, rfl⟩ := hpair
    rw [List.mem_cons, List.mem_cons, not_or, not_or] at h
    have hguard : d.guardChar escapeMark ++ rest = escapeMark :: escapeMark :: rest := by
      rw [guardChar, if_pos (.inr rfl)]
      rfl
    rw [← hguard, cut_guardChar, ih h.2.2]
    rfl
  | case4 c e rest hpair ih =>
    obtain ⟨hc, hrest⟩ := not_or.1 (mt List.mem_cons.2 h)
    rw [cut_cons (Ne.symm hc), ih hrest]
    · rfl
    · intro hmark x hx
      obtain rfl := Option.some.inj hx
      exact ⟨fun hx => hrest (hx ▸ List.mem_cons_self), fun hx => hpair ⟨hmark, hx⟩⟩

/-- Of three backslashes two are left. -/
example : cut ⟨',', by decide⟩ "a\\\\\\b".toList = ["a\\\\b".toList] := by decide

end ListDelimiter

end PropertyFile
