import Mathlib.Data.List.Basic

/-! Runs of a system whose steps carry labels, with the labels of a run in a list. -/

namespace OnyxDB.Library

/-- `Trace step start labels state`: the labels lead from `start` to `state`. -/
inductive Trace {σ κ : Type} (step : σ → κ → σ → Prop) : σ → List κ → σ → Prop where
  | nil (state : σ) : Trace step state [] state
  | cons {start middle state : σ} {label : κ} {labels : List κ} (first : step start label middle)
      (rest : Trace step middle labels state) : Trace step start (label :: labels) state

namespace Trace
variable {σ κ : Type} {step other : σ → κ → σ → Prop} {start middle state : σ} {labels more : List κ} {label : κ}

theorem append (early : Trace step start labels middle) (late : Trace step middle more state) :
    Trace step start (labels ++ more) state := by
  induction early with
  | nil => exact late
  | cons first _ rest => exact .cons first (rest late)

theorem snoc (early : Trace step start labels middle) (last : step middle label state) :
    Trace step start (labels ++ [label]) state :=
  early.append (.cons last (.nil state))

theorem split (trace : Trace step start (labels ++ more) state) :
    ∃ middle, Trace step start labels middle ∧ Trace step middle more state := by
  induction labels generalizing start with
  | nil => exact ⟨start, .nil start, trace⟩
  | cons label labels rest =>
      cases trace with
      | cons first trace =>
          obtain ⟨middle, early, late⟩ := rest trace
          exact ⟨middle, .cons first early, late⟩

theorem mono (within : ∀ start label state, step start label state → other start label state)
    (trace : Trace step start labels state) : Trace other start labels state := by
  induction trace with
  | nil state => exact .nil state
  | cons first _ rest => exact .cons (within _ _ _ first) rest

/-- What holds of the events so far and the state they led to, kept by a step with the events it adds. -/
theorem accumulates {ε : Type} {step : σ → List ε → σ → Prop} {holds : List ε → σ → Prop}
    (keeps : ∀ past before events after, holds past before → step before events after → holds (past ++ events) after)
    {past : List ε} {labels : List (List ε)} (trace : Trace step start labels state) (initially : holds past start) :
    holds (past ++ labels.flatten) state := by
  induction trace generalizing past with
  | nil => rwa [List.flatten_nil, List.append_nil]
  | cons first _ rest =>
      rw [List.flatten_cons, ← List.append_assoc]
      exact rest (keeps _ _ _ _ initially first)

theorem nil_iff : Trace step start [] state ↔ start = state := by
  constructor
  · intro trace
    cases trace
    rfl
  · rintro rfl
    exact .nil start

end Trace

end OnyxDB.Library
