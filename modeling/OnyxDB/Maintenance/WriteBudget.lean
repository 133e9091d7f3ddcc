import OnyxDB.Maintenance.Tasks

/-! Who owns the write budget of compactions and rollovers.

Nothing but the rotation gate keeps two tasks from activating the budget. A rollover gives the budget
back before the gate; a compaction that succeeds gives the gate back first. -/

namespace OnyxDB.Maintenance
open OnyxDB.Library.Tasks

/-- The stages at which a `CompactionWriteBudget` is alive. -/
def Task.ownsBudget : Task → Bool
  | .rollover .preflushing | .rollover .acquiring | .rollover .atBoundary | .rollover .counted
  | .rollover (.closing true _) => true
  | .compaction _ .preflushing | .compaction _ (.acquiring true) | .compaction _ (.atBoundary true)
  | .compaction _ (.closing true) => true
  | .compaction _ (.captured capture) | .compaction _ (.boundaryDropped capture)
  | .compaction _ (.rotationDropped capture) => capture.sealGeneration
  | _ => false

/-- The assertion of `activate_compaction_write_budget` failed in this task. -/
def Task.ownershipFailed : Task → Bool
  | .rollover (.panicked .budgetOwnership _) | .compaction _ (.panicked .budgetOwnership _) => true
  | _ => false

/-- A compaction that has dropped the rotation gate and still owns the budget. -/
def Task.outlivesRotation : Task → Bool
  | .compaction _ (.rotationDropped capture) => capture.sealGeneration
  | _ => false

/-- The next move activates the budget, unless the catalog leaves no room. -/
def Task.activates : Task → Bool
  | .rollover .refreshed | .compaction _ .refreshed => true
  | _ => false

/-- The next move stores the open limit. -/
def Task.releases : Task → Bool
  | .rollover (.closing true _) | .compaction _ (.closing true) => true
  | .compaction _ (.rotationDropped capture) => capture.sealGeneration
  | _ => false

theorem ownsBudget_of_releases {task : Task} (releases : task.releases = true) : task.ownsBudget = true := by
  unfold Task.releases at releases
  split at releases <;> simp_all [Task.ownsBudget]

/-- The budget is owned under the rotation gate, except where a compaction has dropped the gate. -/
theorem holds_rotation_of_ownsBudget {task : Task} (owns : task.ownsBudget = true)
    (within : task.outlivesRotation = false) : task.holds .rotation = true := by
  unfold Task.ownsBudget at owns
  split at owns <;> simp_all [Task.holds, RolloverStage.holds, CompactionStage.holds, Task.outlivesRotation]

theorem holds_rotation_of_activates {task : Task} (activates : task.activates = true) :
    task.holds .rotation = true ∧ task.ownsBudget = false := by
  unfold Task.activates at activates
  split at activates <;>
    simp_all [Task.holds, RolloverStage.holds, CompactionStage.holds, Task.ownsBudget]

section Limits
variable (runtime : CommitRuntime)

@[simp] theorem requestMaintenanceIfNeeded_limit (threshold : Nat) :
    (runtime.requestMaintenanceIfNeeded threshold).1.compactionWriteBudgetLimit =
      runtime.compactionWriteBudgetLimit := by
  obtain ⟨_, _, flags⟩ := runtime.requestMaintenanceIfNeeded_flags threshold
  rw [flags]
  rfl

@[simp] theorem finishCompactionScheduleAndRearm_limit (threshold : Nat) (retryImmediately : Bool) :
    (runtime.finishCompactionScheduleAndRearm threshold retryImmediately).1.compactionWriteBudgetLimit =
      runtime.compactionWriteBudgetLimit := by
  obtain ⟨_, _, flags⟩ := runtime.finishCompactionScheduleAndRearm_flags threshold retryImmediately
  rw [flags]
  rfl

@[simp] theorem finishRolloverScheduleAndRearm_limit (threshold : Nat) (retryImmediately : Bool) :
    (runtime.finishRolloverScheduleAndRearm threshold retryImmediately).1.compactionWriteBudgetLimit =
      runtime.compactionWriteBudgetLimit := by
  obtain ⟨_, _, flags⟩ := runtime.finishRolloverScheduleAndRearm_flags threshold retryImmediately
  rw [flags]
  rfl

/-- What the scheduling of maintenance reads and writes besides the counters. -/
def CommitRuntime.control (runtime : CommitRuntime) : Nat × Bool × Bool :=
  (runtime.compactionWriteBudgetLimit, runtime.compactionPending, runtime.rolloverPending)

theorem refreshSegmentCatalog_control (fails : Nat → Bool) (lost : Bool) :
    (runtime.refreshSegmentCatalog fails lost).1.control = runtime.control := by
  simp only [CommitRuntime.refreshSegmentCatalog]
  split <;> rfl

variable {runtime}

theorem limit_of_control {after : CommitRuntime} (same : after.control = runtime.control) :
    after.compactionWriteBudgetLimit = runtime.compactionWriteBudgetLimit := congrArg Prod.fst same

theorem rolloverPending_of_control {after : CommitRuntime} (same : after.control = runtime.control) :
    after.rolloverPending = runtime.rolloverPending := congrArg (·.2.2) same

theorem acceptNextBatches_control {records : List LogRecord} {accepted : CommitRuntime}
    (accepting : runtime.acceptNextBatches records = some accepted) : accepted.control = runtime.control := by
  unfold CommitRuntime.acceptNextBatches at accepting
  split at accepting
  · cases accepting
  · split at accepting
    · obtain ⟨disk, _, rfl⟩ := Option.map_eq_some_iff.mp accepting
      rfl
    · cases accepting

theorem sealGeneration_control {counted : CommitRuntime} {asserted : Bool}
    (done : sealGeneration runtime = some (counted, asserted)) : counted.control = runtime.control := by
  unfold sealGeneration at done
  split at done
  · cases done
  · simp only [Option.some.injEq, CommitRuntime.recordSealedSegment] at done
    split at done
    · cases done
      rfl
    · split at done <;> cases done <;> rfl

theorem moveSupervisor_control {stage : SupervisorStage} {choice : Choice} {after : CommitRuntime}
    {next : Option SupervisorStage} (moved : moveSupervisor runtime stage choice = some (after, next)) :
    after.control = runtime.control := by
  cases stage with
  | acquiring =>
      cases choice <;> cases moved
      rfl
  | _ =>
      cases choice <;> try cases moved
      simp only [moveSupervisor] at moved
      split at moved <;> cases moved <;> rfl

end Limits

/-- What a move does to the ownership of the budget. -/
inductive BudgetEffect (runtime : CommitRuntime) (task : Task) (after : CommitRuntime) (next : Task) : Prop
  | kept (owns : next.ownsBudget = task.ownsBudget)
      (limit : after.compactionWriteBudgetLimit = runtime.compactionWriteBudgetLimit)
      (failed : next.ownershipFailed = true → task.ownershipFailed = true)
  | released (owned : task.ownsBudget = true) (given : next.ownsBudget = false)
      (limit : after.compactionWriteBudgetLimit = writeBudgetOpen) (failed : next.ownershipFailed = false)
  | activated (activates : task.activates = true) (free : runtime.compactionWriteBudgetLimit = writeBudgetOpen)
      (owns : next.ownsBudget = true) (failed : next.ownershipFailed = false)
  | asserted (activates : task.activates = true)
      (taken : runtime.compactionWriteBudgetLimit ≠ writeBudgetOpen) (failed : next.ownershipFailed = true)

section Moves
variable {runtime after : CommitRuntime} {choice : Choice} {next : Task}

theorem activate_budget {task kept refused : Task} (activates : task.activates = true)
    (owns : kept.ownsBudget = true) (sound : kept.ownershipFailed = false)
    (failed : refused.ownershipFailed = true)
    (moved : (match runtime.activateCompactionWriteBudget with
      | some runtime => some (runtime, kept)
      | none => some (runtime, refused)) = some (after, next)) :
    BudgetEffect runtime task after next := by
  unfold CommitRuntime.activateCompactionWriteBudget at moved
  by_cases free : runtime.compactionWriteBudgetLimit = writeBudgetOpen
  · rw [if_pos free] at moved
    cases moved
    exact .activated activates free owns sound
  · rw [if_neg free] at moved
    cases moved
    exact .asserted activates free failed

theorem moveCommit_budget {stage : CommitStage} (moved : moveCommit runtime stage choice = some (after, next)) :
    BudgetEffect runtime (.commit stage) after next := by
  cases stage with
  | waitingForBudget =>
      cases choice <;> try cases moved
      simp only [moveCommit] at moved
      split at moved <;> cases moved
      exact .kept rfl rfl id
  | acquiring =>
      cases choice <;> cases moved
      exact .kept rfl rfl id
  | atBoundary =>
      cases choice <;> cases moved
      exact .kept rfl rfl id
  | admitted =>
      cases choice with
      | records records =>
          simp only [moveCommit] at moved
          split at moved
          · rename_i accepting
            cases moved
            exact .kept rfl (limit_of_control (acceptNextBatches_control accepting)) id
          · cases moved
            exact .kept rfl rfl id
      | _ =>
          cases moved <;> exact .kept rfl rfl id
  | persisted =>
      cases choice <;> cases moved
      exact .kept rfl (requestMaintenanceIfNeeded_limit _ _) id

theorem moveInstall_budget {sequence entryCount : Nat} {stage : InstallStage}
    (moved : moveInstall runtime sequence entryCount stage choice = some (after, next)) :
    BudgetEffect runtime (.install sequence entryCount stage) after next := by
  cases stage with
  | waitingForBudget =>
      cases choice <;> try cases moved
      simp only [moveInstall] at moved
      split at moved <;> cases moved
      exact .kept rfl rfl id
  | _ => cases choice <;> cases moved <;> exact .kept rfl rfl id

/-- A supervisor owns nothing and asserts nothing. -/
theorem supervised_budget {task : Task} {supervisor : SupervisorStage} (place : Option SupervisorStage → Task)
    (owns : task.ownsBudget = false) (free : ∀ stage, (place stage).ownsBudget = false)
    (failed : ∀ stage, (place stage).ownershipFailed = true → task.ownershipFailed = true)
    (moved : (moveSupervisor runtime supervisor choice).map (fun (runtime, stage) => (runtime, place stage)) =
      some (after, next)) : BudgetEffect runtime task after next := by
  obtain ⟨⟨supervised, stage⟩, moving, placed⟩ := Option.map_eq_some_iff.mp moved
  cases placed
  exact .kept ((free stage).trans owns.symm) (limit_of_control (moveSupervisor_control moving)) (failed stage)

theorem moveRollover_budget {stage : RolloverStage}
    (moved : moveRollover runtime stage choice = some (after, next)) :
    BudgetEffect runtime (.rollover stage) after next := by
  cases stage with
  | entered =>
      cases choice <;> cases moved
      by_cases empty : runtime.activeBinlogBytes = 0
      · rw [if_pos empty]
        exact .kept rfl rfl id
      · rw [if_neg empty]
        exact .kept rfl rfl id
  | refreshing =>
      cases choice with
      | catalog fails lost =>
          simp only [moveRollover, Option.some.injEq, Prod.mk.injEq] at moved
          obtain ⟨rfl, rfl⟩ := moved
          have limit := limit_of_control (refreshSegmentCatalog_control runtime fails lost)
          cases established : (runtime.refreshSegmentCatalog fails lost).2 with
          | true => exact .kept rfl limit id
          | false => exact .kept rfl limit id
      | _ => cases moved
  | refreshed =>
      cases choice <;> try cases moved
      simp only [moveRollover] at moved
      split at moved
      · cases moved
        exact .kept rfl rfl id
      · exact activate_budget rfl rfl rfl rfl moved
  | atBoundary =>
      cases choice <;> try cases moved
      · simp only [moveRollover] at moved
        split at moved
        · cases moved
          exact .kept rfl rfl id
        · rename_i done
          cases moved
          exact .kept rfl (limit_of_control (sealGeneration_control done)) id
        · cases moved
          exact .released rfl rfl rfl rfl
      · exact .kept rfl rfl id
      · exact .kept rfl rfl id
  | closing ownsBudget succeeded =>
      cases ownsBudget with
      | true =>
          cases choice <;> cases moved
          exact .released rfl rfl rfl rfl
      | false =>
          cases choice <;> cases moved
          exact .kept rfl rfl id
  | panicked failed supervisor =>
      apply supervised_budget (fun stage => .rollover (stage.elim (.finished false) (.panicked failed)))
        rfl _ _ moved
      · intro stage
        cases stage <;> rfl
      · intro stage
        cases stage with
        | none => exact fun impossible => nomatch impossible
        | some stage => cases failed <;> exact id
  | finished succeeded =>
      cases choice <;> cases moved
      exact .kept rfl (finishRolloverScheduleAndRearm_limit _ _ _) id
  | _ => cases choice <;> cases moved <;> exact .kept rfl rfl id

theorem moveCompaction_budget {automatic : Bool} {stage : CompactionStage}
    (moved : moveCompaction runtime automatic stage choice = some (after, next)) :
    BudgetEffect runtime (.compaction automatic stage) after next := by
  cases stage with
  | entered =>
      cases choice with
      | catalog fails lost =>
          simp only [moveCompaction, Option.some.injEq, Prod.mk.injEq] at moved
          obtain ⟨rfl, rfl⟩ := moved
          have limit := limit_of_control (refreshSegmentCatalog_control runtime fails lost)
          cases established : (runtime.refreshSegmentCatalog fails lost).2 with
          | true => exact .kept rfl limit id
          | false => exact .kept rfl limit id
      | _ => cases moved
  | refreshed =>
      cases choice <;> try cases moved
      simp only [moveCompaction] at moved
      split at moved
      · exact activate_budget rfl rfl rfl rfl moved
      · cases moved
        exact .kept rfl rfl id
  | acquiring seals => cases seals <;> cases choice <;> cases moved <;> exact .kept rfl rfl id
  | atBoundary seals =>
      cases seals with
      | false =>
          cases choice <;> cases moved
          exact .kept rfl rfl id
      | true =>
          cases choice <;> try cases moved
          · simp only [moveCompaction] at moved
            split at moved
            · cases moved
              exact .kept rfl rfl id
            · rename_i done
              cases moved
              exact .kept rfl (limit_of_control (sealGeneration_control done)) id
            · cases moved
              exact .released rfl rfl rfl rfl
          · exact .kept rfl rfl id
          · exact .kept rfl rfl id
  | rotationDropped capture =>
      cases choice <;> try cases moved
      cases owned : capture.sealGeneration with
      | true => exact .released owned rfl rfl rfl
      | false => exact .kept owned.symm rfl id
  | writing capture =>
      cases choice <;> try cases moved
      · exact .kept rfl rfl id
      · rename_i installed
        cases installed <;> exact .kept rfl rfl id
  | cleaning =>
      cases choice with
      | catalog fails lost =>
          simp only [moveCompaction, Option.some.injEq, Prod.mk.injEq] at moved
          obtain ⟨rfl, rfl⟩ := moved
          exact .kept rfl (limit_of_control (refreshSegmentCatalog_control runtime fails lost)) id
      | _ => cases moved
  | closing ownsBudget =>
      cases ownsBudget with
      | true =>
          cases choice <;> cases moved
          exact .released rfl rfl rfl rfl
      | false =>
          cases choice <;> cases moved
          exact .kept rfl rfl id
  | panicked failed supervisor =>
      apply supervised_budget
        (fun stage => .compaction automatic (stage.elim (.finished false) (.panicked failed))) rfl _ _ moved
      · intro stage
        cases stage <;> rfl
      · intro stage
        cases stage with
        | none => exact fun impossible => nomatch impossible
        | some stage => cases failed <;> exact id
  | finished succeeded =>
      cases automatic <;> cases choice <;> cases moved
      · exact .kept rfl rfl id
      · exact .kept rfl (finishCompactionScheduleAndRearm_limit _ _ _) id
  | _ => cases choice <;> cases moved <;> exact .kept rfl rfl id

theorem move_budget {task : Task} (moved : move runtime task choice = some (after, next)) :
    BudgetEffect runtime task after next := by
  cases task with
  | idle => cases moved
  | scheduling request => cases moved
  | commit stage => exact moveCommit_budget moved
  | rollover stage => exact moveRollover_budget moved
  | compaction automatic stage => exact moveCompaction_budget moved
  | install sequence entryCount stage => exact moveInstall_budget moved

end Moves

/-- One owner at most, an open limit where there is none, and no failed assertion. -/
structure Exclusive (system : System) : Prop where
  single : ∀ first second, (system.stage first).ownsBudget = true → (system.stage second).ownsBudget = true →
    first = second
  opened : (∀ task, (system.stage task).ownsBudget = false) →
    system.shared.compactionWriteBudgetLimit = writeBudgetOpen
  sound : ∀ task, (system.stage task).ownershipFailed = false

/-- No budget is activated while a compaction that has dropped the rotation gate still owns one. -/
def Spaced (system : System) : Action → Prop
  | .move task _ => (system.stage task).activates = true → ∀ other, (system.stage other).outlivesRotation = false
  | _ => True

section Steps
variable {system after : System}

theorem resting_budget {task : Task} (rests : task.resting = true) :
    task.ownsBudget = false ∧ task.ownershipFailed = false := by
  unfold Task.resting at rests
  split at rests <;> first | exact ⟨rfl, rfl⟩ | cases rests

theorem Exclusive.replace {system after : System} {task : Nat} {next : Task} (exclusive : Exclusive system)
    (before : (system.stage task).resting = true) (rests : next.resting = true)
    (advanced : system.advance task system.shared next = some after) : Exclusive after := by
  obtain ⟨_, shared, stage⟩ := advance_some advanced
  have same : ∀ other, (after.stage other).ownsBudget = (system.stage other).ownsBudget := by
    intro other
    rw [stage]
    by_cases here : other = task
    · rw [here, Function.update_self, (resting_budget rests).1, (resting_budget before).1]
    · rw [Function.update_of_ne here]
  constructor
  · intro first second left right
    rw [same] at left right
    exact exclusive.single first second left right
  · intro nobody
    rw [shared]
    exact exclusive.opened (fun other => (same other).symm.trans (nobody other))
  · intro other
    rw [stage]
    by_cases here : other = task
    · rw [here, Function.update_self, (resting_budget rests).2]
    · rw [Function.update_of_ne here]
      exact exclusive.sound other

theorem exclusive_startup (disk : Disk) (recovery : Persistence.Recovery.RecoveryState) (totalKeys : Nat) :
    Exclusive (startup disk recovery totalKeys) := by
  have calm : ∀ task, ((startup disk recovery totalKeys).stage task).ownsBudget = false ∧
      ((startup disk recovery totalKeys).stage task).ownershipFailed = false := by
    intro task
    simp only [startup]
    split <;> exact ⟨rfl, rfl⟩
  constructor
  · intro first second owns
    rw [(calm first).1] at owns
    cases owns
  · intro _
    simp only [startup, requestMaintenanceIfNeeded_limit]
    rfl
  · exact fun task => (calm task).2

/-- Where a task may activate the budget, nobody owns it. -/
theorem nobody_owns (guarded : Guarded Task.holds system) {task : Nat}
    (activates : (system.stage task).activates = true)
    (spaced : ∀ other, (system.stage other).outlivesRotation = false) (other : Nat) :
    (system.stage other).ownsBudget = false := by
  obtain ⟨rotation, idle⟩ := holds_rotation_of_activates activates
  cases owns : (system.stage other).ownsBudget with
  | false => rfl
  | true =>
      have held := holds_rotation_of_ownsBudget owns (spaced other)
      have same := guarded.exclusive held rotation
      rw [same, idle] at owns
      cases owns

theorem exclusive_move (guarded : Guarded Task.holds system) (exclusive : Exclusive system) {task : Nat}
    {choice : Choice} {runtime : CommitRuntime} {next : Task}
    (spaced : Spaced system (.move task choice))
    (moved : move system.shared (system.stage task) choice = some (runtime, next))
    (shared : after.shared = runtime) (stage : after.stage = Function.update system.stage task next) :
    Exclusive after := by
  have here : after.stage task = next := by rw [stage, Function.update_self]
  have elsewhere : ∀ other, other ≠ task → after.stage other = system.stage other := by
    intro other different
    rw [stage, Function.update_of_ne different]
  cases move_budget moved with
  | kept owns limit failed =>
      have same : ∀ other, (after.stage other).ownsBudget = (system.stage other).ownsBudget := by
        intro other
        by_cases different : other = task
        · rw [different, here, owns]
        · rw [elsewhere other different]
      constructor
      · intro first second left right
        rw [same] at left right
        exact exclusive.single first second left right
      · intro nobody
        rw [shared, limit]
        exact exclusive.opened (fun other => (same other).symm.trans (nobody other))
      · intro other
        by_cases different : other = task
        · rw [different, here]
          have sound := exclusive.sound task
          cases broken : next.ownershipFailed with
          | false => rfl
          | true => rw [failed broken] at sound; cases sound
        · rw [elsewhere other different]
          exact exclusive.sound other
  | released owned given limit failed =>
      have nobody : ∀ other, (after.stage other).ownsBudget = false := by
        intro other
        by_cases different : other = task
        · rw [different, here, given]
        · rw [elsewhere other different]
          cases owns : (system.stage other).ownsBudget with
          | false => rfl
          | true => exact absurd (exclusive.single other task owns owned) different
      constructor
      · intro first second left
        rw [nobody first] at left
        cases left
      · intro _
        rw [shared, limit]
      · intro other
        by_cases different : other = task
        · rw [different, here, failed]
        · rw [elsewhere other different]
          exact exclusive.sound other
  | activated activates free owns failed =>
      have nobody := nobody_owns guarded activates (spaced activates)
      have only : ∀ other, (after.stage other).ownsBudget = true → other = task := by
        intro other owner
        by_contra different
        rw [elsewhere other different, nobody other] at owner
        cases owner
      constructor
      · intro first second left right
        rw [only first left, only second right]
      · intro none
        have mine := none task
        rw [here, owns] at mine
        cases mine
      · intro other
        by_cases different : other = task
        · rw [different, here, failed]
        · rw [elsewhere other different]
          exact exclusive.sound other
  | asserted activates taken failed =>
      have nobody := nobody_owns guarded activates (spaced activates)
      exact absurd (exclusive.opened nobody) taken

theorem exclusive_step (guarded : Guarded Task.holds system) (exclusive : Exclusive system) {action : Action}
    (spaced : Spaced system action) (stepped : step system action = some after) : Exclusive after := by
  rcases step_cases stepped with ⟨task, choice, runtime, next, rfl, moved, advanced⟩ |
    ⟨fails, totalKeys, disk, recovery, rfl, _, rfl⟩ | administered
  · obtain ⟨_, shared, stage⟩ := advance_some advanced
    exact exclusive_move guarded exclusive spaced moved shared stage
  · exact exclusive_startup disk recovery totalKeys
  · exact administered.keeps Exclusive.replace exclusive

/-- In every run of commits, rollovers, compactions and installs in which no budget is activated while
a compaction outlives its rotation gate, the ownership assertion never fails, and a budget is never
opened by one owner while another holds it. -/
theorem run_budget_exclusive {actions : List Action} {system : System}
    (spaced : Along step Spaced initial actions) (ran : run step initial actions = some system) :
    (∀ task, (system.stage task).ownershipFailed = false) ∧
    (∀ first second, (system.stage first).ownsBudget = true → (system.stage second).ownsBudget = true →
      first = second) ∧
    (∀ releasing other, (system.stage releasing).releases = true → other ≠ releasing →
      (system.stage other).ownsBudget = false) := by
  have kept := run_keeps (fun system => Guarded Task.holds system ∧ Exclusive system)
    (fun _ _ _ holding spaced stepped => ⟨guarded_step holding.1 stepped,
      exclusive_step holding.1 holding.2 spaced stepped⟩)
    actions initial system ⟨guarded_startup _ _ _, exclusive_startup _ _ _⟩ spaced ran
  refine ⟨kept.2.sound, kept.2.single, ?_⟩
  intro releasing other releases different
  have owned := ownsBudget_of_releases releases
  cases owns : (system.stage other).ownsBudget with
  | false => rfl
  | true => exact absurd (kept.2.single other releasing owns owned) different

end Steps

/-- A commit by task `task` whose records are accepted. -/
def acceptedCommit (task : Nat) (records : List LogRecord) : List Action :=
  [.arrive task .commit, .move task .go, .move task .go, .move task .go, .move task (.records records),
    .move task .go]

/-- A compaction by task `task` up to where it drops the commit boundary after its capture. -/
def compactionToCapture (task : Nat) : List Action :=
  [.arrive task .save, .move task .go, .move task .go, .move task (.catalog (fun _ => false) false),
    .move task .go, .move task .go, .move task .go, .move task .go, .move task .go]

/-- A rollover that waits for the rotation gate overtakes the compaction that has dropped it: the first
commit fills the generation and schedules the rollover, the second one follows the seal. -/
def overtakenRelease : List Action :=
  [.schedule 0 0] ++ acceptedCommit 1 [⟨1, binlogGenerationTargetBytes, binlogGenerationTargetBytes_pos⟩] ++
  [.schedule 1 2, .schedule 1 0] ++ compactionToCapture 3 ++ acceptedCommit 4 [smallRecord 2] ++
  [.move 3 .go, .move 2 .go, .move 2 .go, .move 2 (.catalog (fun _ => false) false), .move 2 .go]

theorem overtakenRelease_fails :
    (run step initial overtakenRelease).map (fun system => (system.stage 2).ownershipFailed) = some true := by
  decide

/-- The ownership assertion fails in a rollover while a compaction releases late. -/
theorem budget_ownership_overtaken :
    ¬ ∀ (actions : List Action) (system : System), run step initial actions = some system →
      (∀ task, (system.stage task).ownershipFailed = false) ∧
      (∀ releasing other, (system.stage releasing).releases = true → other ≠ releasing →
        (system.stage other).ownsBudget = false) := by
  intro exclusive
  obtain ⟨system, ran, failed⟩ := Option.map_eq_some_iff.mp overtakenRelease_fails
  have sound := (exclusive overtakenRelease system ran).1 2
  rw [failed] at sound
  cases sound

/-- A save whose budget is released before anyone else asks for one. -/
def undisturbedSave : List Action := [.schedule 0 0] ++ compactionToCapture 1 ++ [.move 1 .go, .move 1 .go]

/-- `Spaced`, decided over the tasks that are not idle. -/
def spacedBelow (bound : Nat) (system : System) (action : Action) : Bool :=
  action.below bound &&
  match action with
  | .move task _ => !(system.stage task).activates ||
      (List.range bound).all (fun other => !(system.stage other).outlivesRotation)
  | _ => true

theorem spaced_of_spacedBelow {bound : Nat} {system : System} {action : Action} (idle : Idle bound system)
    (checked : spacedBelow bound system action = true) : Spaced system action := by
  simp only [spacedBelow, Bool.and_eq_true] at checked
  cases action with
  | move task choice =>
      intro activates other
      have each := checked.2
      simp only [activates, Bool.not_true, Bool.false_or, List.all_eq_true, Bool.not_eq_true'] at each
      rcases Nat.lt_or_ge other bound with below | beyond
      · exact each other (List.mem_range.mpr below)
      · rw [idle other beyond]
        rfl
  | _ => exact trivial

theorem undisturbedSave_spaced : Along step Spaced initial undisturbedSave := by
  apply along_of_check (Idle 2) _ undisturbedSave initial (idle_initial.mono (by decide))
    (show checkRun step (spacedBelow 2) initial undisturbedSave = true by decide)
  intro system action idle checked
  refine ⟨spaced_of_spacedBelow idle checked, ?_⟩
  intro after stepped
  exact idle_step idle (Bool.and_eq_true_iff.mp checked).1 stepped

theorem undisturbedSave_releases :
    (∃ system, run step initial undisturbedSave = some system ∧
      (∀ task, (system.stage task).ownershipFailed = false)) := by
  have ran : (run step initial undisturbedSave).isSome = true := by decide
  obtain ⟨system, ran⟩ := Option.isSome_iff_exists.mp ran
  exact ⟨system, ran, (run_budget_exclusive undisturbedSave_spaced ran).1⟩

end OnyxDB.Maintenance
