import Mathlib.Tactic.Common

/-! Loops whose rounds either end them or go on from a state of lower rank. -/

namespace OnyxDB.Library

/-- What a round of a loop comes to. -/
inductive Turn (σ ω : Type) where
  | again (state : σ)
  | ended (outcome : ω)

structure Loop (σ ω : Type) where
  round : σ → Turn σ ω
  rank : σ → Nat
  falls : ∀ {state next : σ}, round state = .again next → rank next < rank state

namespace Loop
variable {σ ω : Type} (loop : Loop σ ω)

set_option linter.unusedVariables false in
def run (state : σ) : ω :=
  match turn : loop.round state with
  | .again next => run next
  | .ended outcome => outcome
termination_by loop.rank state
decreasing_by exact loop.falls turn

variable {loop}

theorem run_again {state next : σ} (turn : loop.round state = .again next) : loop.run state = loop.run next := by
  rw [run]
  split
  next other same =>
    rw [turn] at same
    cases same
    rfl
  next outcome same =>
    rw [turn] at same
    cases same

theorem run_ended {state : σ} {outcome : ω} (turn : loop.round state = .ended outcome) : loop.run state = outcome := by
  rw [run]
  split
  next other same =>
    rw [turn] at same
    cases same
  next other same =>
    rw [turn] at same
    cases same
    rfl

/-- What the last round establishes from what all rounds keep, and each round before carries back. -/
theorem run_of_rounds {keeps : σ → Prop} {brings : σ → ω → Prop}
    (goes : ∀ state next, keeps state → loop.round state = .again next →
      keeps next ∧ ∀ outcome, brings next outcome → brings state outcome)
    (ends : ∀ state outcome, keeps state → loop.round state = .ended outcome → brings state outcome)
    {state : σ} (start : keeps state) : brings state (loop.run state) := by
  induction size : loop.rank state using Nat.strongRecOn generalizing state with
  | ind size rest =>
      cases turn : loop.round state with
      | ended outcome =>
          rw [run_ended turn]
          exact ends state outcome start turn
      | again next =>
          obtain ⟨kept, carries⟩ := goes state next start turn
          rw [run_again turn]
          exact carries _ (rest (loop.rank next) (by rw [← size]; exact loop.falls turn) kept rfl)

end Loop

end OnyxDB.Library
