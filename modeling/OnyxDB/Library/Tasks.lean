import Mathlib.Data.Fintype.Defs
import Mathlib.Data.Fintype.Basic
import Mathlib.Logic.Function.Basic
import Mathlib.Tactic.Common

/-! Tasks that run beside each other over shared data and hold gates by scope.

A guard lives as long as the scope that declares it, so the gates a task holds are a function of
where the task stands. Moving a task takes the gates its next stage holds and gives back the gates
it does not hold any more; a task cannot move where a gate it needs is taken or shut for good. -/

namespace OnyxDB.Library.Tasks

structure Pool (Gate Stage Shared : Type) where
  shared : Shared
  holder : Gate → Option Nat
  stage : Nat → Stage

section Pool
variable {Gate Stage Shared : Type} [Fintype Gate] (holds : Stage → Gate → Bool)
  (shut : Shared → Gate → Bool)

/-- One task goes on to its next stage and leaves the shared data as given. -/
def Pool.advance (pool : Pool Gate Stage Shared) (task : Nat) (shared : Shared) (next : Stage) :
    Option (Pool Gate Stage Shared) :=
  if ∀ gate, holds next gate = true → holds (pool.stage task) gate = false →
      pool.holder gate = none ∧ shut pool.shared gate = false then
    some {
      shared := shared
      holder := fun gate =>
        if holds next gate then some task
        else if holds (pool.stage task) gate then none
        else pool.holder gate
      stage := Function.update pool.stage task next }
  else
    none

/-- The holder of a gate is the one task that stands at a stage that holds it. -/
def Guarded (pool : Pool Gate Stage Shared) : Prop :=
  ∀ task gate, holds (pool.stage task) gate = true ↔ pool.holder gate = some task

variable {holds shut} {pool after : Pool Gate Stage Shared} {task : Nat} {shared : Shared} {next : Stage}

/-- What a move of one task leaves, and that the gates it takes were free and not shut. -/
theorem advance_some (moved : pool.advance holds shut task shared next = some after) :
    (∀ gate, holds next gate = true → holds (pool.stage task) gate = false →
      pool.holder gate = none ∧ shut pool.shared gate = false) ∧
    after.shared = shared ∧ after.stage = Function.update pool.stage task next := by
  unfold Pool.advance at moved
  split at moved
  · rename_i free
    cases moved
    exact ⟨free, rfl, rfl⟩
  · cases moved

omit [Fintype Gate] in
theorem Guarded.exclusive (guarded : Guarded holds pool) {first second : Nat} {gate : Gate}
    (left : holds (pool.stage first) gate = true) (right : holds (pool.stage second) gate = true) :
    first = second := by
  have left := (guarded first gate).mp left
  have right := (guarded second gate).mp right
  rw [left] at right
  exact Option.some.inj right

omit [Fintype Gate] in
theorem Guarded.free (guarded : Guarded holds pool) {gate : Gate} (free : pool.holder gate = none)
    (task : Nat) : holds (pool.stage task) gate = false := by
  cases held : holds (pool.stage task) gate with
  | false => rfl
  | true =>
      rw [(guarded task gate).mp held] at free
      cases free

theorem guarded_advance (guarded : Guarded holds pool)
    (moved : pool.advance holds shut task shared next = some after) : Guarded holds after := by
  unfold Pool.advance at moved
  split at moved
  · rename_i free
    cases moved
    intro other gate
    by_cases same : other = task
    · subst same
      simp only [Function.update_self]
      cases taken : holds next gate with
      | true => simp
      | false =>
          cases held : holds (pool.stage other) gate with
          | true => simp
          | false =>
              have absent := guarded other gate
              rw [held] at absent
              simpa using absent
    · simp only [Function.update_of_ne same]
      rw [guarded other gate]
      cases taken : holds next gate with
      | true =>
          constructor
          · intro owned
            cases held : holds (pool.stage task) gate with
            | true =>
                have mine := (guarded task gate).mp held
                rw [owned] at mine
                exact absurd (Option.some.inj mine) same
            | false =>
                rw [(free gate taken held).1] at owned
                cases owned
          · intro owned
            simp only [ite_true, Option.some.injEq] at owned
            exact absurd owned.symm same
      | false =>
          cases held : holds (pool.stage task) gate with
          | true =>
              have mine := (guarded task gate).mp held
              simp [mine, Ne.symm same]
          | false => simp
  · cases moved

end Pool

section Runs
variable {State Action : Type} (step : State → Action → Option State)

/-- A run of steps, where each of them can be taken. -/
def run (state : State) : List Action → Option State
  | [] => some state
  | action :: rest => (step state action).bind (fun after => run after rest)

/-- Every step of a run is taken in a state that allows it. -/
def Along (allowed : State → Action → Prop) (state : State) : List Action → Prop
  | [] => True
  | action :: rest => allowed state action ∧ ∀ after, step state action = some after → Along allowed after rest

variable {step} {allowed : State → Action → Prop}

/-- What a step keeps wherever it is allowed, a run of allowed steps keeps. -/
theorem run_keeps (property : State → Prop) (kept : ∀ state action after, property state → allowed state action →
      step state action = some after → property after) :
    ∀ (actions : List Action) (state after : State), property state → Along step allowed state actions →
      run step state actions = some after → property after := by
  intro actions
  induction actions with
  | nil =>
      intro state after holding _ ran
      cases ran
      exact holding
  | cons action rest ih =>
      intro state after holding along ran
      obtain ⟨middle, stepped, ran⟩ := Option.bind_eq_some_iff.mp ran
      have reached := kept state action middle holding along.1 stepped
      exact ih middle after reached (along.2 middle stepped) ran

/-- A check of every step of a run. -/
def checkRun (step : State → Action → Option State) (check : State → Action → Bool) (state : State) :
    List Action → Bool
  | [] => true
  | action :: rest => check state action &&
      ((step state action).elim true (fun after => checkRun step check after rest))

/-- A run passes where its check finds every step allowed, under what the steps keep. -/
theorem along_of_check (property : State → Prop) {check : State → Action → Bool}
    (sound : ∀ state action, property state → check state action = true →
      allowed state action ∧ ∀ after, step state action = some after → property after) :
    ∀ (actions : List Action) (state : State), property state → checkRun step check state actions = true →
      Along step allowed state actions := by
  intro actions
  induction actions with
  | nil => exact fun _ _ _ => trivial
  | cons action rest ih =>
      intro state holding checked
      simp only [checkRun, Bool.and_eq_true] at checked
      obtain ⟨here, later⟩ := sound state action holding checked.1
      refine ⟨here, ?_⟩
      intro after stepped
      rw [stepped] at checked
      exact ih after (later after stepped) checked.2

end Runs

end OnyxDB.Library.Tasks
