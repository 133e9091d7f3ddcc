import Mathlib.Data.List.Basic

/-! Logs of which only the last entries are kept, and receivers that follow them. A receiver knows how far
it has come; what has been dropped before it came there is lost to it, and it is told so. -/

namespace OnyxDB.Library.Retention
variable {α : Type}

section Keeping

/-- The last `capacity` entries of a log. -/
def retained (capacity : Nat) (log : List α) : List α := log.drop (log.length - capacity)

/-- One entry more, and the oldest dropped if there are too many. -/
def push (capacity : Nat) (kept : List α) (entry : α) : List α :=
  (kept ++ [entry]).drop ((kept ++ [entry]).length - capacity)

theorem retained_length (capacity : Nat) (log : List α) :
    (retained capacity log).length = min log.length capacity := by
  rw [retained, List.length_drop]
  omega

/-- What is pushed on the kept entries is pushed on the whole log. -/
theorem push_retained (capacity : Nat) (log : List α) (entry : α) :
    push capacity (retained capacity log) entry = retained capacity (log ++ [entry]) := by
  have kept := retained_length capacity log
  calc
    push capacity (retained capacity log) entry
      = (log.drop (log.length - capacity) ++ [entry]).drop
          ((retained capacity log).length + 1 - capacity) := by
        rw [push, List.length_append, List.length_singleton]
        rfl
    _ = ((log ++ [entry]).drop (log.length - capacity)).drop
          ((retained capacity log).length + 1 - capacity) := by
        rw [List.drop_append_of_le_length (Nat.sub_le _ _)]
    _ = (log ++ [entry]).drop (log.length + 1 - capacity) := by
        rw [List.drop_drop]
        congr 1
        omega
    _ = retained capacity (log ++ [entry]) := by
        rw [retained, List.length_append, List.length_singleton]

theorem foldl_push (capacity : Nat) (log entries : List α) :
    entries.foldl (push capacity) (retained capacity log) = retained capacity (log ++ entries) := by
  induction entries generalizing log with
  | nil => rw [List.foldl_nil, List.append_nil]
  | cons entry entries rest =>
      rw [List.foldl_cons, push_retained, rest, List.append_assoc, List.singleton_append]

end Keeping

section Receiving

/-- What a receiver finds: the next entry, that it was too slow and has missed some, or nothing yet. -/
inductive Received (α : Type) where
  | entry (value : α)
  | lagged (missed : Nat)
  | nothing
  deriving DecidableEq, Repr

/-- A receiver that has come to `next` looks at a log of which the last `capacity` entries are kept. -/
def receive (capacity : Nat) (log : List α) (next : Nat) : Received α × Nat :=
  if log.length - capacity > next then (.lagged (log.length - capacity - next), log.length - capacity)
  else
    match log[next]? with
    | some value => (.entry value, next + 1)
    | none => (.nothing, next)

variable {capacity next : Nat} {log : List α}

/-- An entry that is received is the next one of the log. -/
theorem receive_entry {value : α} {after : Nat} (found : receive capacity log next = (.entry value, after)) :
    log[next]? = some value ∧ after = next + 1 := by
  unfold receive at found
  split at found
  · cases found
  · split at found
    next other present =>
      cases found
      exact ⟨present, rfl⟩
    next => cases found

theorem receive_nothing {after : Nat} (found : receive capacity log next = (.nothing, after)) :
    log.length ≤ next ∧ after = next := by
  unfold receive at found
  split at found
  · cases found
  · split at found
    next => cases found
    next absent =>
      cases found
      exact ⟨List.getElem?_eq_none_iff.mp absent, rfl⟩

/-- A receiver is told that it lags exactly when the next entry has been dropped. -/
theorem receive_lagged_iff : (∃ missed, (receive capacity log next).1 = .lagged missed) ↔
    next + capacity < log.length := by
  unfold receive
  constructor
  · intro lagged
    split at lagged
    · omega
    · obtain ⟨missed, found⟩ := lagged
      split at found <;> cases found
  · intro dropped
    rw [if_pos (by omega)]
    exact ⟨_, rfl⟩

/-- A receiver that keeps up gets the entry it is waiting for. -/
theorem receive_next (present : next < log.length) (kept : log.length ≤ next + capacity) :
    receive capacity log next = (.entry log[next], next + 1) := by
  rw [receive, if_neg (by omega), List.getElem?_eq_getElem present]

end Receiving

end OnyxDB.Library.Retention
