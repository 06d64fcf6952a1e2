import PropertyFile.OrderedMap

/-!
# Ordered maps and runs of updates

What a map holds for a key after it was changed (`get?_insert`,
`get?_erase`, `get?_update`), and after many changes one behind the
other. A run of updates acts on every key by itself: it is the run of
those updates that are made for the key (`get?_foldl_update`). A key that
was not there before comes to the end (`entries_update_of_not_mem`).
-/

namespace PropertyFile.OrderedMap

variable {α ι : Type}

/-! ## Entry lists -/

/-- What is found for a key, by the first entry. -/
theorem lookup_cons_eq_ite {κ : Type} [BEq κ] [LawfulBEq κ] [DecidableEq κ] (e : κ × α)
    (l : List (κ × α)) (k : κ) :
    (e :: l).lookup k = if k = e.1 then some e.2 else l.lookup k := by
  obtain ⟨k', a⟩ := e
  by_cases h : k = k'
  · subst h
    rw [if_pos rfl]
    exact List.lookup_cons_self
  · have hne : (k == k') = false := beq_eq_false_iff_ne.2 h
    rw [if_neg h, List.lookup_cons, hne]

theorem lookup_put {κ : Type} [BEq κ] [LawfulBEq κ] [DecidableEq κ] (key k : κ) (content : α)
    (l : List (κ × α)) :
    (put key content l).lookup k = if k = key then some content else l.lookup k := by
  induction l with
  | nil => rw [put, lookup_cons_eq_ite]
  | cons e rest ih =>
    by_cases he : e.1 = key
    · rw [put, if_pos he, lookup_cons_eq_ite, lookup_cons_eq_ite, he]
      by_cases h : k = key
      · rw [if_pos h, if_pos h]
      · rw [if_neg h, if_neg h, if_neg h]
    · rw [put, if_neg he, lookup_cons_eq_ite, lookup_cons_eq_ite, ih]
      by_cases h : k = e.1
      · rw [if_pos h, if_pos h, if_neg (h ▸ he)]
      · rw [if_neg h, if_neg h]

/-! ## Single changes -/

theorem get?_insert (m : OrderedMap α) (key k : Text) (content : α) :
    (m.insert key content).get? k = if k = key then some content else m.get? k :=
  lookup_put key k content m.entries

theorem get?_update (m : OrderedMap α) (key k : Text) (f : Option α → α) :
    (m.update key f).get? k = if k = key then some (f (m.get? k)) else m.get? k := by
  rw [update, get?_insert]
  by_cases h : k = key
  · rw [if_pos h, if_pos h, h]
  · rw [if_neg h, if_neg h]

theorem mem_keys_update {m : OrderedMap α} {key k : Text} {f : Option α → α} :
    k ∈ (m.update key f).keys ↔ k ∈ m.keys ∨ k = key :=
  mem_keys_insert

theorem get?_erase (m : OrderedMap α) (key k : Text) :
    (m.erase key).get? k = if k = key then none else m.get? k := by
  show (m.entries.filter fun e => e.1 ≠ key).lookup k = if k = key then none else m.entries.lookup k
  induction m.entries with
  | nil => simp
  | cons e rest ih =>
    rw [lookup_cons_eq_ite]
    by_cases he : e.1 = key
    · rw [List.filter_cons_of_neg (by simp [he]), ih, he]
      by_cases h : k = key
      · rw [if_pos h, if_pos h]
      · rw [if_neg h, if_neg h, if_neg h]
    · rw [List.filter_cons_of_pos (by simp [he]), lookup_cons_eq_ite, ih]
      by_cases h : k = e.1
      · rw [if_pos h, if_pos h, if_neg (h ▸ he)]
      · rw [if_neg h, if_neg h]

/-! ## Entries and keys -/

theorem lookup_eq_some_iff {l : List (Text × α)} (hl : (l.map Prod.fst).Nodup) (k : Text) (a : α) :
    l.lookup k = some a ↔ (k, a) ∈ l := by
  induction l with
  | nil => simp
  | cons e rest ih =>
    obtain ⟨k', b⟩ := e
    obtain ⟨hnew, hrest⟩ := List.nodup_cons.1 hl
    rw [lookup_cons_eq_ite, List.mem_cons]
    by_cases h : k = k'
    · subst h
      have hnot : (k, a) ∉ rest := fun hmem => hnew (List.mem_map.2 ⟨(k, a), hmem, rfl⟩)
      simp [hnot, eq_comm]
    · rw [if_neg h]
      exact (ih hrest).trans ⟨.inr, fun hmem => hmem.resolve_left fun he => h (Prod.mk.inj he).1⟩

/-- What is held for a key is its entry. -/
theorem get?_eq_some_iff {m : OrderedMap α} {k : Text} {a : α} :
    m.get? k = some a ↔ (k, a) ∈ m.entries :=
  lookup_eq_some_iff m.nodup k a

theorem get?_eq_none_iff {m : OrderedMap α} {k : Text} : m.get? k = none ↔ k ∉ m.keys := by
  rw [Option.eq_none_iff_forall_ne_some]
  constructor
  · intro h hk
    obtain ⟨⟨k', a⟩, he, rfl⟩ := List.mem_map.1 hk
    exact h a (get?_eq_some_iff.2 he)
  · exact fun h a ha => h (List.mem_map_of_mem (f := Prod.fst) (get?_eq_some_iff.1 ha))

/-- A new key comes to the end. -/
theorem entries_update_of_not_mem {m : OrderedMap α} {key : Text} (h : key ∉ m.keys)
    (f : Option α → α) : (m.update key f).entries = m.entries ++ [(key, f none)] := by
  rw [update, get?_eq_none_iff.2 h]
  show put key (f none) m.entries = _
  replace h : key ∉ m.entries.map Prod.fst := h
  generalize m.entries = l at h ⊢
  induction l with
  | nil => rfl
  | cons e rest ih =>
    obtain ⟨hne, hrest⟩ := not_or.1 (mt List.mem_cons.2 h)
    rw [put, if_neg (Ne.symm hne), ih hrest, List.cons_append]

/-- A known key stays where it is. -/
theorem entries_update_of_mem {m : OrderedMap α} {key : Text} (h : key ∈ m.keys)
    (f : Option α → α) :
    (m.update key f).entries
      = m.entries.map fun x => if x.1 = key then (key, f (some x.2)) else x := by
  obtain ⟨⟨k, a⟩, hmem, hk⟩ := List.mem_map.1 h
  obtain rfl : k = key := hk
  rw [update, get?_eq_some_iff.2 hmem]
  show put k (f (some a)) m.entries = _
  have hnodup := m.nodup
  generalize m.entries = l at hmem hnodup ⊢
  clear h
  induction l with
  | nil => exact absurd hmem List.not_mem_nil
  | cons e rest ih =>
    obtain ⟨hnew, hrest⟩ := List.nodup_cons.1 hnodup
    rw [put, List.map_cons]
    obtain rfl | hmem := List.mem_cons.1 hmem
    · -- no other entry has the key
      have hsame : rest.map (fun x => if x.1 = k then (k, f (some x.2)) else x) = rest := by
        refine Eq.trans (List.map_congr_left fun x hx => ?_) (List.map_id rest)
        exact if_neg fun hk => hnew (List.mem_map.2 ⟨x, hx, hk⟩)
      rw [if_pos rfl, if_pos rfl, hsame]
    · have hne : e.1 ≠ k := fun he => hnew (he ▸ List.mem_map_of_mem (f := Prod.fst) hmem)
      rw [if_neg hne, if_neg hne, ih hmem hrest]

/-- The key at the end stays there. -/
theorem entries_update_of_last {m : OrderedMap α} {init : List (Text × α)} {key : Text} {a : α}
    (h : m.entries = init ++ [(key, a)]) (f : Option α → α) :
    (m.update key f).entries = init ++ [(key, f (some a))] := by
  have hget : m.get? key = some a := get?_eq_some_iff.2 (by simp [h])
  rw [update, hget]
  show put key (f (some a)) m.entries = _
  have hnodup := m.nodup
  rw [h] at hnodup ⊢
  clear h hget
  induction init with
  | nil => simp [put]
  | cons e rest ih =>
    obtain ⟨hnew, hrest⟩ := List.nodup_cons.1 hnodup
    have hne : e.1 ≠ key := fun he => hnew (by simp [he])
    rw [List.cons_append, put, if_neg hne, ih hrest, List.cons_append]

/-! ## Runs of updates -/

variable (key : ι → Text) (f : ι → Option α → α)

/-- **A run of updates acts on every key by itself**: what it makes of
the content of a key are the updates for that key, in their order. -/
theorem get?_foldl_update (l : List ι) (m : OrderedMap α) (k : Text) :
    (l.foldl (fun m i => m.update (key i) (f i)) m).get? k
      = (l.filter fun i => key i = k).foldl (fun content i => some (f i content)) (m.get? k) := by
  induction l generalizing m with
  | nil => rfl
  | cons i rest ih =>
    rw [List.foldl_cons, ih, get?_update]
    by_cases h : k = key i
    · rw [if_pos h, List.filter_cons_of_pos (by simp [h])]
      rfl
    · rw [if_neg h, List.filter_cons_of_neg (by simpa using Ne.symm h)]

theorem mem_keys_foldl_update {l : List ι} {m : OrderedMap α} {k : Text} :
    k ∈ (l.foldl (fun m i => m.update (key i) (f i)) m).keys ↔ k ∈ m.keys ∨ k ∈ l.map key := by
  induction l generalizing m with
  | nil => simp
  | cons i rest ih =>
    rw [List.foldl_cons, ih, mem_keys_update, List.map_cons, List.mem_cons, or_assoc]

/-- **New keys come to the end in their order**, if no two of them are
alike. -/
theorem entries_foldl_update {l : List ι} {m : OrderedMap α} (hl : (l.map key).Nodup)
    (hm : ∀ i ∈ l, key i ∉ m.keys) :
    (l.foldl (fun m i => m.update (key i) (f i)) m).entries
      = m.entries ++ l.map fun i => (key i, f i none) := by
  induction l generalizing m with
  | nil => simp
  | cons i rest ih =>
    obtain ⟨hnew, hrest⟩ := List.nodup_cons.1 hl
    have hfresh : ∀ j ∈ rest, key j ∉ (m.update (key i) (f i)).keys := by
      intro j hj hmem
      obtain hmem | hmem := mem_keys_update.1 hmem
      · exact hm j (List.mem_cons_of_mem i hj) hmem
      · exact hnew (hmem ▸ List.mem_map_of_mem hj)
    rw [List.foldl_cons, ih hrest hfresh,
      entries_update_of_not_mem (hm i List.mem_cons_self), List.append_assoc]
    rfl

end PropertyFile.OrderedMap
