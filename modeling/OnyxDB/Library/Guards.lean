import Mathlib.Logic.Function.Basic
import Mathlib.Tactic.Common

/-! Tasks that hold gates, each alone or together with others. The guards a task holds are a function of where the task
stands; it goes on where the guards it takes are left to it by the other tasks and the gate is not shut for good. -/

namespace OnyxDB.Library.Guards

/-- How a task holds a gate. -/
inductive Hold where
  | free
  | shared
  | alone
  deriving DecidableEq

/-- Two tasks may hold a gate so at one time. -/
def Hold.Beside : Hold → Hold → Prop
  | .free, _ | _, .free | .shared, .shared => True
  | _, _ => False

theorem Hold.Beside.symm {first second : Hold} (beside : first.Beside second) : second.Beside first := by
  cases first <;> cases second <;> trivial

theorem Hold.beside_free (hold : Hold) : hold.Beside .free := by
  cases hold <;> trivial

theorem Hold.beside_alone {other : Hold} (beside : Hold.alone.Beside other) : other = .free := by
  cases other with
  | free => rfl
  | shared => cases beside
  | alone => cases beside

section Guarded
variable {Gate Stage : Type} (holds : Stage → Gate → Hold)

/-- No task holds a gate that another one holds alone. -/
def Guarded (stage : Nat → Stage) : Prop :=
  ∀ first second gate, first ≠ second → (holds (stage first) gate).Beside (holds (stage second) gate)

/-- A task may go on to a stage. -/
def MayGo (shut : Gate → Prop) (stage : Nat → Stage) (task : Nat) (next : Stage) : Prop :=
  ∀ gate, holds next gate ≠ holds (stage task) gate → holds next gate ≠ .free →
    ¬ shut gate ∧ ∀ other, other ≠ task → (holds next gate).Beside (holds (stage other) gate)

variable {holds} {shut : Gate → Prop} {stage : Nat → Stage} {task : Nat} {next : Stage}

theorem MayGo.beside (may : MayGo holds shut stage task next) (guarded : Guarded holds stage) {other : Nat}
    (apart : other ≠ task) (gate : Gate) : (holds next gate).Beside (holds (stage other) gate) := by
  by_cases kept : holds next gate = holds (stage task) gate
  · rw [kept]
    exact guarded task other gate apart.symm
  · cases taken : holds next gate with
    | free => trivial
    | shared | alone =>
        rw [← taken]
        exact (may gate kept (by rw [taken]; decide)).2 other apart

theorem Guarded.go (guarded : Guarded holds stage) (may : MayGo holds shut stage task next) :
    Guarded holds (Function.update stage task next) := by
  intro first second gate apart
  by_cases one : first = task
  · subst one
    rw [Function.update_self, Function.update_of_ne apart.symm]
    exact may.beside guarded apart.symm gate
  · rw [Function.update_of_ne one]
    by_cases other : second = task
    · subst other
      rw [Function.update_self]
      exact (may.beside guarded one gate).symm
    · rw [Function.update_of_ne other]
      exact guarded first second gate apart

/-- Where one task holds a gate alone, no other one holds it. -/
theorem Guarded.alone (guarded : Guarded holds stage) {gate : Gate} (held : holds (stage task) gate = .alone)
    {other : Nat} (apart : other ≠ task) : holds (stage other) gate = .free := by
  have beside := guarded task other gate apart.symm
  rw [held] at beside
  exact Hold.beside_alone beside

/-- A gate that is shut and held by nobody stays so. -/
theorem MayGo.unheld (may : MayGo holds shut stage task next) {gate : Gate} (closed : shut gate)
    (nobody : ∀ other, holds (stage other) gate = .free) (other : Nat) :
    holds (Function.update stage task next other) gate = .free := by
  by_cases same : other = task
  · subst same
    rw [Function.update_self]
    by_contra taken
    exact (may gate (by rw [nobody]; exact taken) taken).1 closed
  · rw [Function.update_of_ne same]
    exact nobody other

end Guarded

end OnyxDB.Library.Guards
