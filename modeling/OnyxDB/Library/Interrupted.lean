import Mathlib.Tactic.Common

/-! Programs with a state that survives their errors: what every outcome leaves behind. -/

namespace OnyxDB.Library.Interrupted
variable {ε σ α β : Type}

/-- The state a program leaves, whether it returns or fails. -/
def left : EStateM.Result ε σ α → σ
  | .ok _ state => state
  | .error _ state => state

/-- Whatever the outcome, the state that is left is related to the one before. -/
def Keeps (related : σ → σ → Prop) (program : EStateM ε σ α) : Prop :=
  ∀ state, related state (left (program state))

theorem get_run (state : σ) : (EStateM.get : EStateM ε σ σ) state = .ok state state := rfl

theorem modifyGet_run (change : σ → α × σ) (state : σ) :
    (EStateM.modifyGet change : EStateM ε σ α) state = .ok (change state).1 (change state).2 := rfl

theorem throw_run (failure : ε) (state : σ) :
    (EStateM.throw failure : EStateM ε σ α) state = .error failure state := rfl

theorem bind_ok {program : EStateM ε σ α} {next : α → EStateM ε σ β} {state after : σ} {result : β} :
    (program >>= next) state = .ok result after ↔
      ∃ value middle, program state = .ok value middle ∧ next value middle = .ok result after := by
  cases outcome : program state with
  | ok value middle => simp [bind, EStateM.bind, outcome]
  | error failure middle => simp [bind, EStateM.bind, outcome]

variable {related : σ → σ → Prop}

end OnyxDB.Library.Interrupted
