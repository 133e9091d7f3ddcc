import Mathlib.Logic.Function.Iterate
import Mathlib.Tactic.Common

/-! A deterministic machine that steps until it stops. A rank that falls with every step makes it stop; what a
step keeps holds of the state it stops in; and it stops in one state only. -/

namespace OnyxDB.Library.Stepping
variable {α : Type} {step : α → α} {stopped : α → Prop}

/-- A machine whose rank falls stops, in a state that has what every step keeps. -/
theorem exists_stopped {keeps : α → Prop} (rank : α → Nat)
    (falls : ∀ state, keeps state → ¬ stopped state → keeps (step state) ∧ rank (step state) < rank state)
    {state : α} (start : keeps state) :
    ∃ steps ≤ rank state, stopped (step^[steps] state) ∧ keeps (step^[steps] state) := by
  by_cases ended : stopped state
  · exact ⟨0, Nat.zero_le _, ended, start⟩
  · obtain ⟨kept, lower⟩ := falls state start ended
    obtain ⟨steps, few, ends, holds⟩ := exists_stopped rank falls kept
    refine ⟨steps + 1, by omega, ?_, ?_⟩
    · rw [Function.iterate_succ_apply]
      exact ends
    · rw [Function.iterate_succ_apply]
      exact holds
termination_by rank state

/-- A machine that stays where it has stopped stops in one state only. -/
theorem stopped_unique (stays : ∀ state, stopped state → step state = state) {state : α} {first second : Nat}
    (one : stopped (step^[first] state)) (other : stopped (step^[second] state)) :
    step^[first] state = step^[second] state := by
  have later (early more : Nat) (ended : stopped (step^[early] state)) :
      step^[more + early] state = step^[early] state := by
    rw [Function.iterate_add_apply]
    exact Function.iterate_fixed (stays _ ended) more
  rcases Nat.le_total first second with before | after
  · have same := later first (second - first) one
    rw [Nat.sub_add_cancel before] at same
    exact same.symm
  · have same := later second (first - second) other
    rw [Nat.sub_add_cancel after] at same
    exact same

end OnyxDB.Library.Stepping
