import Mathlib.Data.List.Perm.Basic

/-! A counting semaphore that serves those who wait in the order in which they came. -/

namespace OnyxDB.Library
variable {τ : Type}

/-- The permits that nobody has, those who wait, and those who have been given their permits and have not gone on
since. -/
structure Semaphore (τ : Type) where
  free : Nat
  waiting : List τ
  granted : List τ

namespace Semaphore

def new (permits : Nat) : Semaphore τ := ⟨permits, [], []⟩

def ask (semaphore : Semaphore τ) (task : τ) : Semaphore τ :=
  { semaphore with waiting := semaphore.waiting ++ [task] }

def release (semaphore : Semaphore τ) (permits : Nat) : Semaphore τ :=
  { semaphore with free := semaphore.free + permits }

/-- The first in the line is given what it needs once there is enough. Nobody is served before it. -/
def grant (need : τ → Nat) (semaphore : Semaphore τ) : Option (Semaphore τ) :=
  match semaphore.waiting with
  | [] => none
  | task :: waiting =>
      if need task ≤ semaphore.free then
        some ⟨semaphore.free - need task, waiting, semaphore.granted ++ [task]⟩
      else none

section Demand
variable (need : τ → Nat)

/-- What tasks need together. -/
def demand : List τ → Nat
  | [] => 0
  | task :: tasks => need task + demand tasks

@[simp] theorem demand_nil : demand need [] = 0 := rfl

@[simp] theorem demand_cons (task : τ) (tasks : List τ) :
    demand need (task :: tasks) = need task + demand need tasks := rfl

@[simp] theorem demand_append (early late : List τ) :
    demand need (early ++ late) = demand need early + demand need late := by
  induction early with
  | nil => exact (Nat.zero_add _).symm
  | cons task early rest => rw [List.cons_append, demand_cons, rest, demand_cons, Nat.add_assoc]

theorem demand_perm {tasks others : List τ} (same : tasks.Perm others) : demand need tasks = demand need others := by
  induction same with
  | nil => rfl
  | cons task _ rest => rw [demand_cons, demand_cons, rest]
  | swap first second tasks =>
      simp only [demand_cons]
      omega
  | trans _ _ early late => exact early.trans late

theorem demand_length (tasks : List τ) : demand (fun _ => 1) tasks = tasks.length := by
  induction tasks with
  | nil => rfl
  | cons task tasks rest => rw [demand_cons, rest, List.length_cons, Nat.add_comm]

theorem length_le_demand {tasks : List τ} (some : ∀ task ∈ tasks, 0 < need task) :
    tasks.length ≤ demand need tasks := by
  induction tasks with
  | nil => exact Nat.le_refl 0
  | cons task tasks rest =>
      rw [demand_cons, List.length_cons]
      have first := some task List.mem_cons_self
      have others := rest (fun task member => some task (List.mem_cons_of_mem _ member))
      omega

theorem demand_one [DecidableEq τ] (task : τ) (tasks : List τ) :
    demand (fun other => if other = task then 1 else 0) tasks = tasks.count task := by
  induction tasks with
  | nil => rfl
  | cons first tasks rest =>
      rw [demand_cons, rest, List.count_cons, Nat.add_comm]
      simp

/-- What a list holds, read off what it demands for one task alone. -/
theorem mem_iff_demand [DecidableEq τ] {task : τ} {tasks : List τ} :
    task ∈ tasks ↔ 0 < demand (fun other => if other = task then 1 else 0) tasks := by
  rw [demand_one, List.count_pos_iff]

/-- Lists that demand the same for every need hold the same. -/
theorem perm_of_demand {tasks others : List τ} (same : ∀ need : τ → Nat, demand need tasks = demand need others) :
    tasks.Perm others := by
  classical
  rw [List.perm_iff_count]
  intro task
  rw [← demand_one, ← demand_one, same]

end Demand

section Balance
variable {need : τ → Nat} {total : Nat} {outside others : List τ} {semaphore after : Semaphore τ} {task : τ}

/-- No permit is lost or made up: every one is free, or given to one who has not gone on, or with one who has. -/
def Balanced (need : τ → Nat) (total : Nat) (outside : List τ) (semaphore : Semaphore τ) : Prop :=
  semaphore.free + demand need semaphore.granted + demand need outside = total

theorem Balanced.new (need : τ → Nat) (total : Nat) : Balanced need total [] (new total) := rfl

theorem Balanced.ask (balanced : Balanced need total outside semaphore) (task : τ) :
    Balanced need total outside (semaphore.ask task) := balanced

theorem Balanced.perm (balanced : Balanced need total outside semaphore) (same : outside.Perm others) :
    Balanced need total others semaphore := by
  unfold Balanced at balanced ⊢
  rw [← demand_perm need same, balanced]

theorem grant_cases (granted : semaphore.grant need = some after) :
    ∃ task waiting, semaphore.waiting = task :: waiting ∧ need task ≤ semaphore.free ∧
      after = ⟨semaphore.free - need task, waiting, semaphore.granted ++ [task]⟩ := by
  unfold grant at granted
  split at granted
  · cases granted
  next task waiting line =>
    split at granted
    next enough =>
      cases granted
      exact ⟨task, waiting, line, enough, rfl⟩
    · cases granted

theorem grant_asked {permits : Nat} (enough : need task ≤ permits) :
    ((new permits).ask task).grant need = some ⟨permits - need task, [], [task]⟩ :=
  if_pos enough

theorem Balanced.grant (balanced : Balanced need total outside semaphore)
    (granted : semaphore.grant need = some after) : Balanced need total outside after := by
  obtain ⟨task, waiting, _, enough, rfl⟩ := grant_cases granted
  unfold Balanced at balanced
  change semaphore.free - need task + demand need (semaphore.granted ++ [task]) + demand need outside = total
  rw [demand_append, demand_cons, demand_nil]
  omega

/-- One who goes on takes its permits along. -/
theorem Balanced.go {early late : List τ} (balanced : Balanced need total outside semaphore)
    (given : semaphore.granted = early ++ task :: late) :
    Balanced need total (task :: outside) { semaphore with granted := early ++ late } := by
  unfold Balanced at balanced
  rw [given, demand_append, demand_cons] at balanced
  change semaphore.free + demand need (early ++ late) + demand need (task :: outside) = total
  rw [demand_append, demand_cons]
  omega

theorem Balanced.release {returning : List τ} (balanced : Balanced need total (returning ++ outside) semaphore) :
    Balanced need total outside (semaphore.release (demand need returning)) := by
  unfold Balanced at balanced
  rw [demand_append] at balanced
  change semaphore.free + demand need returning + demand need semaphore.granted + demand need outside = total
  omega

theorem Balanced.release_one (balanced : Balanced need total (task :: outside) semaphore) :
    Balanced need total outside (semaphore.release (need task)) := by
  have returned := @Balanced.release _ need total outside semaphore [task] balanced
  rwa [demand_cons, demand_nil, Nat.add_zero] at returned

/-- As long as nobody has a permit, the first in the line need not wait. -/
theorem Balanced.grants {waiting : List τ} (balanced : Balanced need total [] semaphore)
    (unused : semaphore.granted = []) (line : semaphore.waiting = task :: waiting) (most : need task ≤ total) :
    ∃ after, semaphore.grant need = some after := by
  unfold Balanced at balanced
  rw [unused, demand_nil, Nat.add_zero] at balanced
  have enough : need task ≤ semaphore.free := balanced ▸ most
  refine ⟨⟨semaphore.free - need task, waiting, semaphore.granted ++ [task]⟩, ?_⟩
  unfold Semaphore.grant
  rw [line]
  exact if_pos enough

end Balance

end Semaphore

end OnyxDB.Library
