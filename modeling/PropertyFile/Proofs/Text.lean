import PropertyFile.Text.Basic

/-!
# Cutting and joining

Joining texts around a character undoes cutting at it
(`Text.joinWith_splitOn`). The other way round the texts must not hold
the character themselves, and there must be one at all, since cutting
never comes to nothing: this is `splitOn_joinWith`.

A text is a **line** if it holds neither a line feed nor a carriage
return. Cutting a text at its line feeds makes lines of it as soon as
it has no carriage returns.
-/

namespace PropertyFile.Text

/-- Joined texts are the first one, and the others each behind the
separator. -/
theorem joinWith_cons_eq_flatMap (sep t : Text) (ts : List Text) :
    joinWith sep (t :: ts) = t ++ ts.flatMap (sep ++ ·) := by
  induction ts generalizing t with
  | nil => simp
  | cons u us ih => rw [joinWith, ih, List.flatMap_cons, List.append_assoc, List.append_assoc]

/-- One more text is joined behind a separator, unless it is the first. -/
theorem joinWith_concat (sep : Text) (ts : List Text) (t : Text) :
    joinWith sep (ts ++ [t]) = joinWith sep ts ++ (if ts.isEmpty then [] else sep) ++ t := by
  cases ts with
  | nil => rfl
  | cons u us =>
    rw [List.cons_append, joinWith_cons_eq_flatMap, joinWith_cons_eq_flatMap, List.flatMap_append]
    simp

/-! ## Cutting what was joined -/

/-- A text without the separator is not cut. -/
theorem splitOn_of_not_mem {sep : Char} {t : Text} (h : sep ∉ t) : splitOn sep t = [t] := by
  induction t with
  | nil => rfl
  | cons c rest ih =>
    rw [splitOn, if_neg (List.ne_of_not_mem_cons h).symm, ih (List.not_mem_of_not_mem_cons h)]
    rfl

/-- The first cut is at the first separator. -/
theorem splitOn_append_cons {sep : Char} {t : Text} (h : sep ∉ t) (rest : Text) :
    splitOn sep (t ++ sep :: rest) = t :: splitOn sep rest := by
  induction t with
  | nil => rw [List.nil_append, splitOn, if_pos rfl]
  | cons c t ih =>
    rw [List.cons_append, splitOn, if_neg (List.ne_of_not_mem_cons h).symm,
      ih (List.not_mem_of_not_mem_cons h)]
    rfl

/-- **Cutting undoes joining**, where no text holds the separator. -/
theorem splitOn_joinWith {sep : Char} {ts : List Text} (hne : ts ≠ [])
    (h : ∀ t ∈ ts, sep ∉ t) : splitOn sep (joinWith [sep] ts) = ts := by
  induction ts with
  | nil => exact absurd rfl hne
  | cons t us ih =>
    have ht := h t List.mem_cons_self
    cases us with
    | nil => exact splitOn_of_not_mem ht
    | cons u us =>
      rw [joinWith, List.append_assoc, List.singleton_append, splitOn_append_cons ht,
        ih (by simp) (fun v hv => h v (List.mem_cons_of_mem _ hv))]

/-- What is cut out holds no separator, and nothing that was not in the
text. -/
theorem mem_of_mem_splitOn {sep : Char} {t u : Text} (hu : u ∈ splitOn sep t) :
    ∀ c ∈ u, c ≠ sep ∧ c ∈ t := by
  induction t generalizing u with
  | nil =>
    rw [splitOn, List.mem_singleton] at hu
    simp [hu]
  | cons d rest ih =>
    have later : ∀ v ∈ splitOn sep rest, ∀ c ∈ v, c ≠ sep ∧ c ∈ d :: rest :=
      fun v hv c hc => ⟨(ih hv c hc).1, List.mem_cons_of_mem _ (ih hv c hc).2⟩
    unfold splitOn at hu
    split at hu
    · obtain rfl | hu := List.mem_cons.1 hu
      · simp
      · exact later u hu
    · next hd =>
      cases hs : splitOn sep rest with
      | nil => exact absurd hs (splitOn_ne_nil sep rest)
      | cons v vs =>
        rw [hs] at hu later
        obtain rfl | hu := List.mem_cons.1 hu
        · intro c hc
          obtain rfl | hc := List.mem_cons.1 hc
          · exact ⟨hd, List.mem_cons_self⟩
          · exact later v List.mem_cons_self c hc
        · exact later u (List.mem_cons_of_mem _ hu)

theorem mem_joinWith {sep t : Text} {ts : List Text} {c : Char} (ht : t ∈ ts) (hc : c ∈ t) :
    c ∈ joinWith sep ts := by
  cases ts with
  | nil => cases ht
  | cons u us =>
    rw [joinWith_cons_eq_flatMap, List.mem_append, List.mem_flatMap]
    obtain rfl | ht := List.mem_cons.1 ht
    · exact .inl hc
    · exact .inr ⟨t, ht, List.mem_append_right sep hc⟩

/-- A character of joined texts is one of the separator or of a text. -/
theorem mem_of_mem_joinWith {sep : Text} {ts : List Text} {c : Char} (h : c ∈ joinWith sep ts) :
    c ∈ sep ∨ ∃ t ∈ ts, c ∈ t := by
  induction ts with
  | nil => exact absurd h List.not_mem_nil
  | cons t us ih =>
    by_cases hus : us = []
    · subst hus
      exact .inr ⟨t, List.mem_singleton_self t, h⟩
    · rw [joinWith_cons sep t hus, List.mem_append, List.mem_append] at h
      obtain (h | h) | h := h
      · exact .inr ⟨t, List.mem_cons_self, h⟩
      · exact .inl h
      · exact (ih h).imp_right fun ⟨u, hu, hc⟩ => ⟨u, List.mem_cons_of_mem t hu, hc⟩

/-! ## Lines -/

/-- A text is a **line** if it holds no character that breaks lines. -/
def IsLine (t : Text) : Prop := ∀ c ∈ t, c ≠ '\n' ∧ c ≠ '\r'

theorem isLine_nil : IsLine [] := fun _ hc => absurd hc List.not_mem_nil

theorem isLine_cons {c : Char} {t : Text} :
    IsLine (c :: t) ↔ (c ≠ '\n' ∧ c ≠ '\r') ∧ IsLine t :=
  List.forall_mem_cons

theorem isLine_append {t u : Text} : IsLine (t ++ u) ↔ IsLine t ∧ IsLine u :=
  List.forall_mem_append

theorem IsLine.not_mem {t : Text} (h : IsLine t) : '\n' ∉ t := fun hm => (h _ hm).1 rfl

/-- The lines of a text without carriage returns are lines. -/
theorem isLine_of_mem_splitOn {t u : Text} (ht : '\r' ∉ t) (hu : u ∈ splitOn '\n' t) :
    IsLine u := by
  intro c hc
  obtain ⟨hne, hmem⟩ := mem_of_mem_splitOn hu c hc
  exact ⟨hne, fun h => ht (h ▸ hmem)⟩

end PropertyFile.Text
