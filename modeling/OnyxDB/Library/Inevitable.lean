import Mathlib.Order.WellFounded

/-! What a system comes to whichever of its steps it takes. -/

namespace OnyxDB.Library
variable {σ τ : Type} {step : σ → σ → Prop} {goal : σ → Prop}

/-- Every run from `state` meets the goal, and none of them stops before. -/
inductive Inevitable (step : σ → σ → Prop) (goal : σ → Prop) : σ → Prop where
  | now {state : σ} (met : goal state) : Inevitable step goal state
  | next {state : σ} (moves : ∃ after, step state after)
      (always : ∀ after, step state after → Inevitable step goal after) : Inevitable step goal state

/-- An invariant that the steps keep until the goal is met, a measure that they decrease, and a goal that is met
where nothing can move. -/
theorem Inevitable.of_measure {less : τ → τ → Prop} (founded : WellFounded less) (measure : σ → τ)
    {invariant : σ → Prop}
    (keeps : ∀ state after, invariant state → ¬ goal state → step state after →
      invariant after ∧ less (measure after) (measure state))
    (stuck : ∀ state, invariant state → (∀ after, ¬ step state after) → goal state) {state : σ}
    (holds : invariant state) : Inevitable step goal state := by
  obtain ⟨value, measured⟩ : ∃ value, value = measure state := ⟨_, rfl⟩
  induction value using founded.induction generalizing state with
  | _ value smaller =>
      by_cases met : goal state
      · exact .now met
      · by_cases moves : ∃ after, step state after
        · refine .next moves ?_
          intro after taken
          obtain ⟨kept, decreased⟩ := keeps state after holds met taken
          exact smaller _ (measured ▸ decreased) kept rfl
        · have still : ∀ after, ¬ step state after := fun after taken => moves ⟨after, taken⟩
          exact .now (stuck state holds still)

end OnyxDB.Library
