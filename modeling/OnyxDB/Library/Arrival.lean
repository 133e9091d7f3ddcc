import Mathlib.Data.List.Basic
import Mathlib.Tactic.Common

/-! Buffered input that arrives in pieces. A read returns, fails, or waits for a piece that has not
arrived yet. -/

namespace OnyxDB.Library.Arrival

/-- The bytes in the buffer, the pieces that arrive later, and whether the input ends after them. -/
structure Reader (α : Type) where
  buffer : List α
  chunks : List (List α)
  nonempty : ∀ chunk ∈ chunks, chunk ≠ []
  closed : Bool

variable {α ε β γ : Type}

/-- Everything that is still to be read. -/
def Reader.stream (reader : Reader α) : List α := reader.buffer ++ reader.chunks.flatten

inductive Poll (α ε β : Type) where
  | pending
  | ready (result : Except ε β) (reader : Reader α)

/-- A computation that reads. -/
def Reading (α ε β : Type) : Type := Reader α → Poll α ε β

namespace Reading

def pure (value : β) : Reading α ε β := fun reader => .ready (.ok value) reader

def bind (first : Reading α ε β) (next : β → Reading α ε γ) : Reading α ε γ := fun reader =>
  match first reader with
  | .pending => .pending
  | .ready (.error error) reader => .ready (.error error) reader
  | .ready (.ok value) reader => next value reader

instance : Monad (Reading α ε) where
  pure := Reading.pure
  bind := Reading.bind

def fail (error : ε) : Reading α ε β := fun reader => .ready (.error error) reader

/-- A computation that reads nothing. -/
def lift (result : Except ε β) : Reading α ε β := fun reader => .ready result reader

end Reading

/-- Waits until the buffer holds something or the input has ended. -/
def fillBuf : Reading α ε (List α) := fun reader =>
  match reader.buffer, reader.chunks, reader.nonempty with
  | first :: rest, _, _ => .ready (.ok (first :: rest)) reader
  | [], [], _ => if reader.closed then .ready (.ok []) reader else .pending
  | [], chunk :: chunks, filled => .ready (.ok chunk)
      ⟨chunk, chunks, fun piece member => filled piece (List.mem_cons_of_mem _ member), reader.closed⟩

def Reader.consume (reader : Reader α) (count : Nat) : Reader α :=
  { reader with buffer := reader.buffer.drop count }

theorem Reader.consume_stream {reader : Reader α} {count : Nat} (held : count ≤ reader.buffer.length) :
    (reader.consume count).stream = reader.stream.drop count := by
  rw [Reader.stream, Reader.stream, List.drop_append_of_le_length held]
  rfl

/-- Two readers that differ in nothing but in how the input is cut. -/
structure Recut (first second : Reader α) : Prop where
  stream : second.stream = first.stream
  closed : second.closed = first.closed

theorem fillBuf_ready {reader : Reader α} (more : reader.stream ≠ []) :
    ∃ filled : Reader α, (fillBuf : Reading α ε (List α)) reader = .ready (.ok filled.buffer) filled ∧
      filled.buffer ≠ [] ∧ Recut reader filled := by
  obtain ⟨buffer, chunks, nonempty, closed⟩ := reader
  cases buffer with
  | cons first rest => exact ⟨⟨first :: rest, chunks, nonempty, closed⟩, rfl, by simp, rfl, rfl⟩
  | nil =>
      cases chunks with
      | nil => exact absurd rfl more
      | cons chunk chunks =>
          refine ⟨⟨chunk, chunks, _, closed⟩, rfl, nonempty chunk List.mem_cons_self, ?_, rfl⟩
          rfl

theorem fillBuf_empty {reader : Reader α} (nothing : reader.stream = []) :
    (fillBuf : Reading α ε (List α)) reader =
      if reader.closed then .ready (.ok []) reader else .pending := by
  obtain ⟨buffer, chunks, nonempty, closed⟩ := reader
  obtain ⟨rfl, flat⟩ := List.append_eq_nil_iff.mp nothing
  cases chunks with
  | nil => rfl
  | cons chunk chunks =>
      rw [List.flatten_cons] at flat
      exact absurd (List.append_eq_nil_iff.mp flat).1 (nonempty chunk List.mem_cons_self)

/-- What the buffer is filled with is the front of the input. -/
theorem fillBuf_ok {reader next : Reader α} {available : List α}
    (filled : (fillBuf : Reading α ε (List α)) reader = .ready (.ok available) next) :
    next.buffer = available ∧ Recut reader next := by
  by_cases nothing : reader.stream = []
  · rw [fillBuf_empty nothing] at filled
    split at filled
    · cases filled
      exact ⟨(List.append_eq_nil_iff.mp nothing).1, rfl, rfl⟩
    · cases filled
  · obtain ⟨full, returned, _, same⟩ := @fillBuf_ready α ε reader nothing
    rw [returned] at filled
    cases filled
    exact ⟨rfl, same⟩

/-- Consuming something of a full buffer shortens the input. -/
theorem consume_shortens {reader next : Reader α} {available : List α} {copied : Nat}
    (filled : (fillBuf : Reading α ε (List α)) reader = .ready (.ok available) next)
    (some_left : available ≠ []) (positive : 0 < copied) :
    (next.consume copied).stream.length < reader.stream.length := by
  obtain ⟨rfl, same⟩ := fillBuf_ok filled
  have held := List.length_pos_iff.mpr some_left
  rw [← same.stream]
  simp only [Reader.stream, Reader.consume, List.length_append, List.length_drop]
  omega

/-- Reads `remaining` more bytes after `taken`; an input that ends before is an error. -/
def readExactFrom (early : ε) (remaining : Nat) (taken : List α) : Reading α ε (List α) := fun reader =>
  if _ : remaining = 0 then .ready (.ok taken) reader
  else
    match fillBuf reader with
    | .pending => .pending
    | .ready (.error error) reader => .ready (.error error) reader
    | .ready (.ok []) reader => .ready (.error early) reader
    | .ready (.ok (first :: rest)) reader =>
        readExactFrom early (remaining - min remaining (rest.length + 1))
          (taken ++ (first :: rest).take (min remaining (rest.length + 1)))
          (reader.consume (min remaining (rest.length + 1)))
termination_by remaining
decreasing_by omega

def readExact (early : ε) (count : Nat) : Reading α ε (List α) := readExactFrom early count []

/-- One round of the loop. -/
theorem readExactFrom_round {early : ε} {remaining : Nat} {taken : List α} {reader : Reader α}
    (unfinished : remaining ≠ 0) (more : reader.stream ≠ []) :
    ∃ copied next, 0 < copied ∧ copied ≤ remaining ∧ copied ≤ reader.stream.length ∧
      next.stream = reader.stream.drop copied ∧ next.closed = reader.closed ∧
      readExactFrom early remaining taken reader =
        readExactFrom early (remaining - copied) (taken ++ reader.stream.take copied) next := by
  obtain ⟨filled, available, held, same⟩ := @fillBuf_ready α ε reader more
  cases buffer : filled.buffer with
  | nil => exact absurd buffer held
  | cons first rest =>
      have length : filled.buffer.length = rest.length + 1 := by
        rw [buffer, List.length_cons]
      have within : min remaining (rest.length + 1) ≤ filled.buffer.length := by omega
      have front : reader.stream.take (min remaining (rest.length + 1)) =
          (first :: rest).take (min remaining (rest.length + 1)) := by
        rw [← same.stream, Reader.stream, List.take_append_of_le_length within, buffer]
      refine ⟨min remaining (rest.length + 1), filled.consume (min remaining (rest.length + 1)), by omega,
        by omega, ?_, ?_, same.closed, ?_⟩
      · rw [← same.stream, Reader.stream, List.length_append]
        omega
      · rw [Reader.consume_stream within, same.stream]
      · rw [readExactFrom, dif_neg unfinished, available, buffer, front]

theorem readExactFrom_ready (early : ε) {remaining : Nat} (taken : List α) {reader : Reader α}
    (enough : remaining ≤ reader.stream.length) :
    ∃ after : Reader α, readExactFrom early remaining taken reader =
        .ready (.ok (taken ++ reader.stream.take remaining)) after ∧
      after.stream = reader.stream.drop remaining ∧ after.closed = reader.closed := by
  induction remaining using Nat.strongRecOn generalizing taken reader with
  | ind remaining rest =>
      by_cases finished : remaining = 0
      · subst finished
        refine ⟨reader, ?_, rfl, rfl⟩
        rw [readExactFrom, dif_pos rfl, List.take_zero, List.append_nil]
      · have more : reader.stream ≠ [] := by
          intro nothing
          rw [nothing, List.length_nil] at enough
          omega
        obtain ⟨copied, next, positive, within, held, later, closed, round⟩ :=
          @readExactFrom_round α ε early remaining taken reader finished more
        obtain ⟨after, returned, left, kept⟩ := rest (remaining - copied) (by omega)
          (taken ++ reader.stream.take copied) (by rw [later, List.length_drop]; omega)
        refine ⟨after, ?_, ?_, kept.trans closed⟩
        · rw [round, returned, later, List.append_assoc, ← List.take_add,
            show copied + (remaining - copied) = remaining by omega]
        · rw [left, later, List.drop_drop, show copied + (remaining - copied) = remaining by omega]

theorem readExactFrom_pending (early : ε) {remaining : Nat} (taken : List α) {reader : Reader α}
    (short : reader.stream.length < remaining) (waiting : reader.closed = false) :
    readExactFrom early remaining taken reader = .pending := by
  induction remaining using Nat.strongRecOn generalizing taken reader with
  | ind remaining rest =>
      have unfinished : remaining ≠ 0 := by omega
      by_cases nothing : reader.stream = []
      · rw [readExactFrom, dif_neg unfinished, fillBuf_empty nothing, waiting]
        rfl
      · obtain ⟨copied, next, positive, within, held, later, closed, round⟩ :=
          @readExactFrom_round α ε early remaining taken reader unfinished nothing
        rw [round]
        apply rest (remaining - copied) (by omega)
        · rw [later, List.length_drop]
          omega
        · rw [closed, waiting]

theorem readExactFrom_ended (early : ε) {remaining : Nat} (taken : List α) {reader : Reader α}
    (short : reader.stream.length < remaining) (ended : reader.closed = true) :
    ∃ after, readExactFrom early remaining taken reader = .ready (.error early) after := by
  induction remaining using Nat.strongRecOn generalizing taken reader with
  | ind remaining rest =>
      have unfinished : remaining ≠ 0 := by omega
      by_cases nothing : reader.stream = []
      · refine ⟨reader, ?_⟩
        rw [readExactFrom, dif_neg unfinished, fillBuf_empty nothing, ended]
        rfl
      · obtain ⟨copied, next, positive, within, held, later, closed, round⟩ :=
          @readExactFrom_round α ε early remaining taken reader unfinished nothing
        rw [round]
        apply rest (remaining - copied) (by omega)
        · rw [later, List.length_drop]
          omega
        · rw [closed, ended]

theorem readExact_ready (early : ε) {count : Nat} {reader : Reader α} (enough : count ≤ reader.stream.length) :
    ∃ after : Reader α, readExact early count reader = .ready (.ok (reader.stream.take count)) after ∧
      after.stream = reader.stream.drop count ∧ after.closed = reader.closed := by
  have returned := readExactFrom_ready early [] enough
  rw [List.nil_append] at returned
  exact returned

theorem readExact_pending (early : ε) {count : Nat} {reader : Reader α}
    (short : reader.stream.length < count) (waiting : reader.closed = false) :
    readExact early count reader = .pending :=
  readExactFrom_pending early [] short waiting

theorem readExact_ended (early : ε) {count : Nat} {reader : Reader α}
    (short : reader.stream.length < count) (ended : reader.closed = true) :
    ∃ after, readExact early count reader = .ready (.error early) after :=
  readExactFrom_ended early [] short ended

section Rules
variable {first : Reading α ε β} {next : β → Reading α ε γ} {reader after : Reader α}

theorem bind_ready {value : β} (returned : first reader = .ready (.ok value) after) :
    (first >>= next) reader = next value after := by
  change Reading.bind first next reader = next value after
  rw [Reading.bind, returned]

theorem bind_failed {error : ε} (failed : first reader = .ready (.error error) after) :
    (first >>= next) reader = .ready (.error error) after := by
  change Reading.bind first next reader = .ready (.error error) after
  rw [Reading.bind, failed]

theorem bind_pending (waits : first reader = .pending) : (first >>= next) reader = .pending := by
  change Reading.bind first next reader = .pending
  rw [Reading.bind, waits]

end Rules

section Shrinking

/-- What a computation leaves of its input is no longer than the input. -/
def Shrinks (reading : Reading α ε β) : Prop :=
  ∀ reader value next, reading reader = .ready (.ok value) next → next.stream.length ≤ reader.stream.length

theorem shrinks_lift (result : Except ε β) : Shrinks (Reading.lift result : Reading α ε β) := by
  intro reader value next returned
  cases returned
  exact Nat.le_refl _

theorem Shrinks.bind {first : Reading α ε β} {next : β → Reading α ε γ} (before : Shrinks first)
    (after : ∀ value, Shrinks (next value)) : Shrinks (first >>= next) := by
  intro reader value left returned
  cases outcome : first reader with
  | pending =>
      rw [bind_pending outcome] at returned
      cases returned
  | ready result middle =>
      cases result with
      | error error =>
          rw [bind_failed outcome] at returned
          cases returned
      | ok found =>
          rw [bind_ready outcome] at returned
          exact Nat.le_trans (after found middle value left returned) (before reader found middle outcome)

theorem shrinks_readExact (early : ε) (count : Nat) : Shrinks (readExact early count : Reading α ε (List α)) := by
  intro reader value next returned
  rcases Nat.lt_or_ge reader.stream.length count with short | enough
  · cases closed : reader.closed with
    | false =>
        rw [readExact_pending early short closed] at returned
        cases returned
    | true =>
        obtain ⟨after, ended⟩ := readExact_ended early short closed
        rw [ended] at returned
        cases returned
  · obtain ⟨after, complete, left, _⟩ := readExact_ready early enough
    rw [complete] at returned
    cases returned
    rw [left, List.length_drop]
    exact Nat.sub_le _ _

end Shrinking

end OnyxDB.Library.Arrival
