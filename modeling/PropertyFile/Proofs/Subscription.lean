import Mathlib.Data.List.Induction
import Mathlib.Data.List.InsertIdx
import Mathlib.Data.List.Nodup
import PropertyFile.Event

/-!
# What a subscription takes back

A handle holds the listener that was registered and not the registration
itself, so taking back a subscription removes the earliest registration
of its listener, whichever call made that. Nobody notices while every
listener subscribes once. With a listener that is registered several
times, a handle may take back what was registered for another one, and a
handle that has served its purpose may do so again.

Which registration goes cannot be told from the listeners alone. A
**ledger** (`Ledger`) therefore keeps, beside the subscribers of a source,
the number of the call that made each registration, in the same order;
handles go by the same numbers. A run of calls is one in which
subscriptions take back only themselves if and only if, whenever one is
taken back, the earliest registration of its listener is its own, unless
the listener has none at all (`takesBackItself_iff`).
-/

namespace PropertyFile

/-- A call on a source of events. -/
inductive SourceCall (ℓ : Type) where
  /-- Registers a listener, and gives out the handle with the next
  number. -/
  | subscribe (listener : ℓ)
  /-- Removes a registration of a listener. -/
  | unsubscribe (listener : ℓ)
  /-- Takes back the subscription of the handle with a number. -/
  | cancel (number : Nat)
deriving DecidableEq, Repr

/-- The handle that a call gives out. -/
def SourceCall.handle? {ℓ : Type} : SourceCall ℓ → Option (Subscription ℓ)
  | subscribe listener => some ⟨listener⟩
  | unsubscribe _ | cancel _ => none

/-- The subscribers of a source, and what became of the calls that were
made on it. -/
structure Ledger (ℓ : Type) where
  /-- The registered listeners. -/
  subscribers : Subscribers ℓ := {}
  /-- The handles that were given out, by number. -/
  handles : List (Subscription ℓ) := []
  /-- For each registration, the number of the call that made it. -/
  numbers : List Nat := []
  /-- The numbers of the handles that were used. -/
  cancelled : List Nat := []

namespace Ledger

variable {ℓ : Type} [DecidableEq ℓ]

/-- The number of the earliest registration of a listener. -/
def earliest? (l : Ledger ℓ) (listener : ℓ) : Option Nat :=
  l.numbers[l.subscribers.listeners.idxOf listener]?

/-- The ledger without the earliest registration of a listener. -/
def withdraw (l : Ledger ℓ) (listener : ℓ) : Ledger ℓ :=
  { l with
    subscribers := l.subscribers.unsubscribe listener
    numbers := l.numbers.eraseIdx (l.subscribers.listeners.idxOf listener) }

/-- **The ledger after a call.** -/
def step (l : Ledger ℓ) : SourceCall ℓ → Ledger ℓ
  | .subscribe listener =>
    { l with
      subscribers := l.subscribers.subscribe listener
      handles := l.handles ++ [⟨listener⟩]
      numbers := l.numbers ++ [l.handles.length] }
  | .unsubscribe listener => l.withdraw listener
  | .cancel number =>
    match l.handles[number]? with
    | none => l
    | some handle =>
      { l.withdraw handle.listener with
        subscribers := handle.cancel l.subscribers
        cancelled := l.cancelled ++ [number] }

/-- The ledger after some calls on a new source. -/
def run (calls : List (SourceCall ℓ)) : Ledger ℓ := calls.foldl step {}

theorem run_concat (calls : List (SourceCall ℓ)) (call : SourceCall ℓ) :
    run (calls ++ [call]) = (run calls).step call := by
  rw [run, List.foldl_concat]
  rfl

/-! ## What every call keeps -/

/-- **A ledger that accounts for every registration**: each has a number
of its own, that of a handle of its listener. -/
structure IsSound (l : Ledger ℓ) : Prop where
  /-- No two registrations have the same number. -/
  nodup : l.numbers.Nodup
  /-- The handle of a registration holds its listener. -/
  handles_numbers :
    l.numbers.map (fun n => l.handles[n]?) = l.subscribers.listeners.map fun x => some ⟨x⟩
  /-- Only handles that were given out are used. -/
  lt_of_cancelled : ∀ n ∈ l.cancelled, n < l.handles.length

namespace IsSound

variable {l : Ledger ℓ}

omit [DecidableEq ℓ] in
theorem length_numbers (h : l.IsSound) : l.numbers.length = l.subscribers.listeners.length := by
  have hlength := congrArg List.length h.handles_numbers
  rwa [List.length_map, List.length_map] at hlength

omit [DecidableEq ℓ] in
theorem exists_handle (h : l.IsSound) {n : Nat} (hn : n ∈ l.numbers) :
    ∃ x ∈ l.subscribers.listeners, l.handles[n]? = some ⟨x⟩ := by
  have hmem : l.handles[n]? ∈ l.numbers.map fun n => l.handles[n]? := List.mem_map_of_mem hn
  rw [h.handles_numbers] at hmem
  obtain ⟨x, hx, heq⟩ := List.mem_map.1 hmem
  exact ⟨x, hx, heq.symm⟩

omit [DecidableEq ℓ] in
theorem lt_of_mem (h : l.IsSound) {n : Nat} (hn : n ∈ l.numbers) : n < l.handles.length := by
  obtain ⟨x, -, hx⟩ := h.exists_handle hn
  exact (List.getElem?_eq_some_iff.1 hx).1

/-- A listener has no earliest registration only if it has none. -/
theorem not_mem_of_earliest?_eq_none (h : l.IsSound) {x : ℓ} (hx : l.earliest? x = none) :
    x ∉ l.subscribers.listeners := by
  rw [earliest?, List.getElem?_eq_none_iff, h.length_numbers] at hx
  exact fun hmem => absurd (List.idxOf_lt_length_iff.2 hmem) (Nat.not_lt.2 hx)

theorem handle_of_earliest? (h : l.IsSound) {x : ℓ} {n : Nat} (hn : l.earliest? x = some n) :
    l.handles[n]? = some ⟨x⟩ := by
  have hmem : x ∈ l.subscribers.listeners := by
    refine List.idxOf_lt_length_iff.1 ?_
    rw [← h.length_numbers]
    exact (List.getElem?_eq_some_iff.1 hn).1
  have hat := congrArg (·[l.subscribers.listeners.idxOf x]?) h.handles_numbers
  simp only [List.getElem?_map] at hat
  rw [earliest?] at hn
  rw [hn, List.getElem?_idxOf hmem] at hat
  exact Option.some.inj hat

/-- **What goes is the earliest registration**, if there is one. -/
theorem numbers_withdraw (h : l.IsSound) (x : ℓ) :
    (l.withdraw x).numbers
      = match l.earliest? x with
        | none => l.numbers
        | some n => l.numbers.erase n := by
  show l.numbers.eraseIdx _ = _
  cases hx : l.earliest? x with
  | none => exact List.eraseIdx_of_length_le (List.getElem?_eq_none_iff.1 hx)
  | some n =>
    obtain ⟨hlt, rfl⟩ := List.getElem?_eq_some_iff.1 hx
    exact (h.nodup.erase_getElem _ hlt).symm

theorem withdraw (h : l.IsSound) (x : ℓ) : (l.withdraw x).IsSound where
  nodup := h.nodup.eraseIdx _
  handles_numbers := by
    show (l.numbers.eraseIdx _).map (fun n => l.handles[n]?)
      = (l.subscribers.listeners.erase x).map _
    rw [← List.eraseIdx_map, h.handles_numbers, List.eraseIdx_map,
      List.erase_eq_eraseIdx_of_idxOf rfl]
  lt_of_cancelled := h.lt_of_cancelled

theorem subscribe (h : l.IsSound) (x : ℓ) : (l.step (.subscribe x)).IsSound where
  nodup := by
    refine List.nodup_append.2 ⟨h.nodup, List.nodup_singleton _, ?_⟩
    rintro n hn m hm rfl
    exact absurd (h.lt_of_mem hn) (List.mem_singleton.1 hm ▸ Nat.lt_irrefl _)
  handles_numbers := by
    have hold : l.numbers.map (fun n => (l.handles ++ [⟨x⟩])[n]?)
        = l.numbers.map fun n => l.handles[n]? :=
      List.map_congr_left fun n hn => List.getElem?_append_left (h.lt_of_mem hn)
    show (l.numbers ++ [l.handles.length]).map (fun n => (l.handles ++ [⟨x⟩])[n]?)
      = (l.subscribers.listeners ++ [x]).map _
    rw [List.map_append, List.map_append, hold, h.handles_numbers]
    simp
  lt_of_cancelled n hn := by
    have hlt := h.lt_of_cancelled n hn
    show n < (l.handles ++ [_]).length
    simp
    omega

theorem step (h : l.IsSound) (call : SourceCall ℓ) : (l.step call).IsSound := by
  cases call with
  | subscribe x => exact h.subscribe x
  | unsubscribe x => exact h.withdraw x
  | cancel number =>
    rw [Ledger.step]
    cases hhandle : l.handles[number]? with
    | none => exact h
    | some handle =>
      have hwithdrawn := h.withdraw handle.listener
      refine ⟨hwithdrawn.nodup, hwithdrawn.handles_numbers, fun n hn => ?_⟩
      obtain hn | hn := List.mem_append.1 hn
      · exact h.lt_of_cancelled n hn
      · exact List.mem_singleton.1 hn ▸ (List.getElem?_eq_some_iff.1 hhandle).1

end IsSound

theorem isSound_run (calls : List (SourceCall ℓ)) : (run calls).IsSound := by
  induction calls using List.reverseRecOn with
  | nil => exact ⟨List.nodup_nil, rfl, nofun⟩
  | append_singleton calls call ih =>
    rw [run_concat]
    exact ih.step call

/-! ## Taking back only itself -/

/-- **A subscription that takes back only itself**, when its handle is
used on a source as the ledger has it. -/
structure TakesBackItself (l : Ledger ℓ) (number : Nat) : Prop where
  /-- Used a second time, the handle changes nothing. -/
  again : number ∈ l.cancelled → (l.step (.cancel number)).subscribers = l.subscribers
  /-- Registrations that other calls made stay. -/
  others : ∀ n ∈ l.numbers, n ≠ number → n ∈ (l.step (.cancel number)).numbers
  /-- Those that are left are in the order in which they were. -/
  order : (l.step (.cancel number)).numbers.Sublist l.numbers

/-- Whether the earliest registration of the listener of a handle is that
of the handle, unless the listener has none. -/
def IsEarliest (l : Ledger ℓ) (number : Nat) : Prop :=
  ∀ handle, l.handles[number]? = some handle →
    ∀ n, l.earliest? handle.listener = some n → n = number

/-- Whether something holds whenever a subscription is taken back in a
run of calls. -/
def AtEachCancel (P : Ledger ℓ → Nat → Prop) (calls : List (SourceCall ℓ)) : Prop :=
  ∀ before number after, calls = before ++ .cancel number :: after → P (run before) number

section
variable {l : Ledger ℓ} {number : Nat} {calls : List (SourceCall ℓ)}

theorem AtEachCancel.of_append {P : Ledger ℓ → Nat → Prop} {later : List (SourceCall ℓ)}
    (h : AtEachCancel P (calls ++ later)) : AtEachCancel P calls := by
  rintro before number after rfl
  exact h before number (after ++ later) (by rw [List.append_assoc]; rfl)

/-- Whatever is taken back, the rest keeps its order. -/
theorem numbers_cancel_sublist (l : Ledger ℓ) (number : Nat) :
    (l.step (.cancel number)).numbers.Sublist l.numbers := by
  rw [step]
  cases l.handles[number]? with
  | none => exact List.Sublist.refl _
  | some handle => exact List.eraseIdx_sublist _ _

/-- A handle whose registration is the earliest takes back this one and
no other. -/
theorem IsEarliest.numbers_cancel (h : l.IsEarliest number) (hl : l.IsSound) :
    (l.step (.cancel number)).numbers = l.numbers.erase number := by
  rw [step]
  cases hhandle : l.handles[number]? with
  | none =>
    refine (List.erase_of_not_mem fun hmem => ?_).symm
    obtain ⟨x, -, hx⟩ := hl.exists_handle hmem
    cases hhandle.symm.trans hx
  | some handle =>
    refine (hl.numbers_withdraw handle.listener).trans ?_
    cases hfirst : l.earliest? handle.listener with
    | some n => rw [h handle hhandle n hfirst]
    | none =>
      refine (List.erase_of_not_mem fun hmem => ?_).symm
      obtain ⟨x, hx, hx'⟩ := hl.exists_handle hmem
      obtain rfl := Option.some.inj (hhandle.symm.trans hx')
      exact hl.not_mem_of_earliest?_eq_none hfirst hx

/-- A handle leaves everything as it is if its listener is not
registered. -/
theorem subscribers_cancel_of_none
    (h : ∀ handle, l.handles[number]? = some handle → handle.listener ∉ l.subscribers.listeners) :
    (l.step (.cancel number)).subscribers = l.subscribers := by
  rw [step]
  cases hhandle : l.handles[number]? with
  | none => rfl
  | some handle => exact congrArg Subscribers.mk (List.erase_of_not_mem (h handle hhandle))

/-- A handle that was used has no registration any more, as long as
handles took back their own. -/
theorem not_mem_numbers_of_cancelled (h : AtEachCancel IsEarliest calls) :
    ∀ n ∈ (run calls).cancelled, n ∉ (run calls).numbers := by
  -- the calls made later come last, so the induction is on the run from its end
  induction calls using List.reverseRecOn with
  | nil => exact nofun
  | append_singleton calls call ih =>
    have hspent := ih h.of_append
    have hl := isSound_run calls
    rw [run_concat]
    cases call with
    | subscribe x =>
      intro n hn hmem
      obtain hmem | hmem := List.mem_append.1 hmem
      · exact hspent n hn hmem
      · exact absurd (hl.lt_of_cancelled n hn) (List.mem_singleton.1 hmem ▸ Nat.lt_irrefl _)
    | unsubscribe x =>
      exact fun n hn hmem => hspent n hn ((List.eraseIdx_sublist _ _).subset hmem)
    | cancel number =>
      have hnumbers := (h calls number [] rfl).numbers_cancel hl
      have hcancelled : ∀ n ∈ ((run calls).step (.cancel number)).cancelled,
          n ∈ (run calls).cancelled ∨ n = number := by
        rw [step]
        cases (run calls).handles[number]? with
        | none => exact fun n hn => .inl hn
        | some handle => exact fun n hn => (List.mem_append.1 hn).imp_right List.mem_singleton.1
      intro n hn hmem
      rw [hnumbers] at hmem
      obtain hn | rfl := hcancelled n hn
      · exact hspent n hn (List.mem_of_mem_erase hmem)
      · exact hl.nodup.not_mem_erase hmem

theorem IsEarliest.takesBackItself (h : l.IsEarliest number) (hl : l.IsSound)
    (hspent : ∀ n ∈ l.cancelled, n ∉ l.numbers) : l.TakesBackItself number where
  again hcancelled := by
    refine subscribers_cancel_of_none fun handle hhandle hmem => hspent number hcancelled ?_
    -- a listener that is registered has an earliest registration, which is the handle's
    cases hfirst : l.earliest? handle.listener with
    | none => exact absurd hmem (hl.not_mem_of_earliest?_eq_none hfirst)
    | some n =>
      rw [← h handle hhandle n hfirst]
      exact List.mem_of_getElem? hfirst
  others n hn hne := by
    rw [h.numbers_cancel hl]
    exact (List.mem_erase_of_ne hne).2 hn
  order := numbers_cancel_sublist l number

/-- A subscription that takes back only itself has the earliest
registration of its listener, or there is none. -/
theorem TakesBackItself.isEarliest (h : l.TakesBackItself number) (hl : l.IsSound) :
    l.IsEarliest number := by
  intro handle hhandle n hfirst
  by_contra hne
  have hstill : n ∈ (l.withdraw handle.listener).numbers := by
    have hstays := h.others n (List.mem_of_getElem? hfirst) hne
    rw [step, hhandle] at hstays
    exact hstays
  rw [hl.numbers_withdraw, hfirst] at hstill
  exact hl.nodup.not_mem_erase hstill

/-- Handles take back only themselves as long as each one that is used has
the earliest registration of its listener. -/
theorem AtEachCancel.takesBackItself (h : AtEachCancel IsEarliest calls) :
    AtEachCancel TakesBackItself calls := by
  rintro before number after rfl
  exact (h before number after rfl).takesBackItself (isSound_run before)
    (not_mem_numbers_of_cancelled h.of_append)

end

/-- **When subscriptions take back only themselves.** In a run of calls,
every handle that is used does so if and only if each time the earliest
registration of its listener is its own, or there is none. -/
theorem takesBackItself_iff (calls : List (SourceCall ℓ)) :
    AtEachCancel TakesBackItself calls ↔ AtEachCancel IsEarliest calls :=
  ⟨fun h before number after hcalls =>
      (h before number after hcalls).isEarliest (isSound_run before),
    AtEachCancel.takesBackItself⟩

/-- **A handle that is used twice.** The second time it takes back what
another call registered. -/
theorem not_takesBackItself_twice :
    ¬ AtEachCancel TakesBackItself
      [.subscribe 'a', .subscribe 'a', .cancel 0, .cancel 0] := by
  intro h
  have hcancel := h [.subscribe 'a', .subscribe 'a', .cancel 0] 0 [] rfl
  exact absurd (hcancel.again (by decide)) (by decide)

/-! ## Listeners that subscribe once -/

theorem handles_run (calls : List (SourceCall ℓ)) :
    (run calls).handles = calls.filterMap SourceCall.handle? := by
  induction calls using List.reverseRecOn with
  | nil => rfl
  | append_singleton calls call ih =>
    rw [run_concat, List.filterMap_append, ← ih]
    cases call with
    | subscribe x => rfl
    | unsubscribe x => exact (List.append_nil _).symm
    | cancel number =>
      refine Eq.trans ?_ (List.append_nil _).symm
      rw [step]
      cases (run calls).handles[number]? <;> rfl

/-- **As long as no listener subscribes twice**, subscriptions take back
only themselves. -/
theorem takesBackItself_of_nodup {calls : List (SourceCall ℓ)}
    (h : (calls.filterMap SourceCall.handle?).Nodup) : AtEachCancel TakesBackItself calls := by
  refine AtEachCancel.takesBackItself ?_
  rintro before number after rfl handle hhandle n hfirst
  rw [List.filterMap_append, ← handles_run] at h
  have hnumber := (isSound_run before).handle_of_earliest? hfirst
  obtain ⟨hlt, hn⟩ := List.getElem?_eq_some_iff.1 hnumber
  obtain ⟨hlt', hi⟩ := List.getElem?_eq_some_iff.1 hhandle
  exact (h.of_append_left.getElem_inj_iff).1 (hn.trans hi.symm)

end Ledger

end PropertyFile
