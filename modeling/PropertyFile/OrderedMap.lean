import PropertyFile.Text.Basic

/-!
# Maps in insertion order

Keys keep the place at which they first came in: giving a known key a
new content leaves it where it is, a new key goes to the end, and a key
that was removed and comes back goes to the end too. No key occurs
twice; this is part of the type (`OrderedMap.nodup`).
-/

namespace PropertyFile

/-- A map from texts whose entries have an order. -/
structure OrderedMap (α : Type) where
  /-- The entries in order. -/
  entries : List (Text × α)
  /-- No key occurs twice. -/
  nodup : (entries.map Prod.fst).Nodup

namespace OrderedMap

variable {α β κ : Type}

/-! ## Entry lists -/

/-- The entries with the content of `key` replaced where it stands, or
added at the end. -/
def put [DecidableEq κ] (key : κ) (content : α) : List (κ × α) → List (κ × α)
  | [] => [(key, content)]
  | e :: rest => if e.1 = key then (key, content) :: rest else e :: put key content rest

theorem keys_put [BEq κ] [LawfulBEq κ] [DecidableEq κ] (key : κ) (content : α)
    (l : List (κ × α)) :
    (put key content l).map Prod.fst =
      if key ∈ l.map Prod.fst then l.map Prod.fst else l.map Prod.fst ++ [key] := by
  induction l with
  | nil => rfl
  | cons e rest ih =>
    unfold put
    by_cases h : e.1 = key
    · simp [h]
    · simp only [h, ↓reduceIte, List.map_cons, List.mem_cons, Ne.symm h, false_or, ih]
      split <;> simp

theorem nodup_put [BEq κ] [LawfulBEq κ] [DecidableEq κ] (key : κ) (content : α)
    {l : List (κ × α)} (h : (l.map Prod.fst).Nodup) :
    ((put key content l).map Prod.fst).Nodup := by
  rw [keys_put]
  split
  · exact h
  · next hk =>
    rw [List.nodup_append]
    exact ⟨h, by simp, fun a ha b hb => by
      rw [List.mem_singleton.1 hb]; exact fun hab => hk (hab ▸ ha)⟩

/-! ## The map -/

/-- The map without entries. -/
def empty : OrderedMap α := ⟨[], List.nodup_nil⟩

instance : Inhabited (OrderedMap α) := ⟨empty⟩

/-- The keys in order. -/
def keys (m : OrderedMap α) : List Text := m.entries.map Prod.fst

/-- How many keys there are. -/
def size (m : OrderedMap α) : Nat := m.entries.length

/-- Whether a key has an entry. -/
def contains (m : OrderedMap α) (key : Text) : Bool := m.keys.contains key

/-- The content of a key. -/
def get? (m : OrderedMap α) (key : Text) : Option α := m.entries.lookup key

/-- **Giving a key a content**, at its old place or at the end. -/
def insert (m : OrderedMap α) (key : Text) (content : α) : OrderedMap α :=
  ⟨put key content m.entries, nodup_put key content m.nodup⟩

/-- **Removing a key**; nothing happens if it is unknown. -/
def erase (m : OrderedMap α) (key : Text) : OrderedMap α :=
  ⟨m.entries.filter fun e => e.1 ≠ key,
    (List.Sublist.map Prod.fst List.filter_sublist).nodup m.nodup⟩

/-- The content of a key computed from the one it had. -/
def update (m : OrderedMap α) (key : Text) (f : Option α → α) : OrderedMap α :=
  m.insert key (f (m.get? key))

/-- The map of a list of entries; of several for one key the last one
counts, at the place of the first. -/
def ofList (l : List (Text × α)) : OrderedMap α :=
  l.foldl (fun m e => m.insert e.1 e.2) empty

@[simp] theorem keys_empty : (empty : OrderedMap α).keys = [] := rfl

theorem keys_insert (m : OrderedMap α) (key : Text) (content : α) :
    (m.insert key content).keys = if key ∈ m.keys then m.keys else m.keys ++ [key] :=
  keys_put key content m.entries

theorem keys_erase (m : OrderedMap α) (key : Text) :
    (m.erase key).keys = m.keys.filter fun k => k ≠ key := by
  simp only [erase, keys, List.filter_map]
  rfl

theorem mem_keys_insert {m : OrderedMap α} {key k : Text} {content : α} :
    k ∈ (m.insert key content).keys ↔ k ∈ m.keys ∨ k = key := by
  rw [keys_insert]
  split
  · next h => exact ⟨.inl, fun hk => hk.elim id fun e => e ▸ h⟩
  · simp

theorem mem_keys_erase {m : OrderedMap α} {key k : Text} :
    k ∈ (m.erase key).keys ↔ k ∈ m.keys ∧ k ≠ key := by
  simp [keys_erase]

instance [DecidableEq α] : DecidableEq (OrderedMap α) := fun m n =>
  if h : m.entries = n.entries then .isTrue (by cases m; cases n; simp_all)
  else .isFalse fun e => h (e ▸ rfl)

end OrderedMap

end PropertyFile
