import OnyxDB.Maintenance.WriteBudget

/-! Who lifts the backpressure on writers.

Writers wait while the write budget is spent, while a rollover is pending over a generation at its
admission limit, or while the catalog has no room for one. The first two are lifted by the task that
owns the budget or the pending rollover, if that task can go on. -/

namespace OnyxDB.Maintenance
open OnyxDB.Library.Tasks

/-- A compaction or rollover task that is scheduled or running; nothing runs any more where the worker
panicked. -/
def Task.maintains : Task → Bool
  | .rollover (.panicked _ _) | .compaction _ (.panicked _ _) => false
  | .rollover _ | .compaction _ _ => true
  | .scheduling request => request.snapshot || request.rollover
  | _ => false

def SupervisorStage.waitsFor : SupervisorStage → Option Gate
  | .acquiring => some .boundary
  | _ => none

/-- The gate whose lock a task awaits. -/
def Task.waitsFor : Task → Option Gate
  | .commit .acquiring | .install _ _ .acquiring => some .boundary
  | .rollover .waitingForRotation => some .rotation
  | .rollover .acquiring => some .boundary
  | .rollover (.panicked _ supervisor) | .compaction _ (.panicked _ supervisor) => supervisor.waitsFor
  | .compaction _ .waitingForCompaction | .install _ _ .waitingForCompaction => some .compaction
  | .compaction _ .waitingForRotation | .compaction _ .cleanupWaiting | .install _ _ .waitingForRotation =>
      some .rotation
  | .compaction _ (.acquiring _) | .compaction _ (.finalAcquiring _ _) => some .boundary
  | _ => none

def SupervisorStage.blocked : SupervisorStage → Bool
  | .waitingForBudget | .acquiring => true
  | _ => false

/-- The task waits in `acquire_commit_boundary`, for the budget or for the boundary itself. -/
def Task.blocked : Task → Bool
  | .commit .waitingForBudget | .commit .acquiring | .install _ _ .waitingForBudget
  | .install _ _ .acquiring => true
  | .rollover (.panicked _ supervisor) | .compaction _ (.panicked _ supervisor) => supervisor.blocked
  | _ => false

/-- A maintenance task that does not wait for a gate of a task blocked at the commit boundary. -/
def Live (system : System) (task : Nat) : Prop :=
  (system.stage task).maintains = true ∧
  ∀ gate holder, (system.stage task).waitsFor = some gate → system.holder gate = some holder →
    (system.stage holder).blocked = false

/-- The task that will store `rollover_pending` false, or spawn the one that will. -/
def Task.ownsRollover : Task → Bool
  | .rollover _ => true
  | .scheduling request => request.rollover
  | _ => false

/-- An install that has taken the rotation gate and is not admitted to its commit boundary yet. -/
def Task.installWaits : Task → Bool
  | .install _ _ .waitingForBudget | .install _ _ .acquiring | .install _ _ .atBoundary => true
  | _ => false

/-- A rollover that has found room in the catalog and not sealed its generation yet. -/
def Task.foundRoom : Task → Bool
  | .rollover .preflushing | .rollover .acquiring | .rollover .atBoundary => true
  | _ => false

/-- A generation at its admission limit has a catalog that is known and has room for it, and no install waits under
the rotation gate while the rollover of such a generation is pending. -/
structure Clear (system : System) : Prop where
  catalog : binlogGenerationAdmissionLimitBytes ≤ system.shared.activeBinlogBytes →
    system.shared.segmentCatalogUnavailable = false ∧
      system.shared.physicalSegmentCount < binlogSegmentRolloverLimit
  installs : system.shared.rolloverPending = true →
    binlogGenerationAdmissionLimitBytes ≤ system.shared.activeBinlogBytes →
      ∀ task, (system.stage task).installWaits = false

/-- Budgets are spaced and no step leaves an unclear system. -/
def Unobstructed (system : System) (action : Action) : Prop :=
  Spaced system action ∧ ∀ after, step system action = some after → Clear after

section Requests
variable {runtime : CommitRuntime} {threshold : Nat}

theorem requestRolloverIfNeeded_owned :
    (runtime.requestRolloverIfNeeded).1.rolloverPending = true →
      (runtime.requestRolloverIfNeeded).2 = true ∨ runtime.rolloverPending = true := by
  unfold CommitRuntime.requestRolloverIfNeeded
  split
  · exact fun _ => .inl rfl
  · exact fun pending => .inr pending

theorem requestMaintenanceIfNeeded_owned :
    (runtime.requestMaintenanceIfNeeded threshold).1.rolloverPending = true →
      (runtime.requestMaintenanceIfNeeded threshold).2.rollover = true ∨ runtime.rolloverPending = true := by
  obtain ⟨_, flags⟩ := runtime.requestSnapshotIfNeeded_flags threshold
  simp only [CommitRuntime.requestMaintenanceIfNeeded]
  intro pending
  rcases requestRolloverIfNeeded_owned pending with requested | before
  · exact .inl requested
  · rw [flags] at before
    exact .inr before

theorem finishCompactionScheduleAndRearm_owned {retryImmediately : Bool} :
    (runtime.finishCompactionScheduleAndRearm threshold retryImmediately).1.rolloverPending = true →
      (runtime.finishCompactionScheduleAndRearm threshold retryImmediately).2.rollover = true ∨
        runtime.rolloverPending = true := by
  unfold CommitRuntime.finishCompactionScheduleAndRearm
  cases retryImmediately with
  | true => exact requestMaintenanceIfNeeded_owned
  | false => exact requestRolloverIfNeeded_owned

theorem finishRolloverScheduleAndRearm_owned {retryImmediately : Bool} :
    (runtime.finishRolloverScheduleAndRearm threshold retryImmediately).1.rolloverPending = true →
      (runtime.finishRolloverScheduleAndRearm threshold retryImmediately).2.rollover = true := by
  unfold CommitRuntime.finishRolloverScheduleAndRearm
  cases retryImmediately with
  | true =>
      intro pending
      rcases requestMaintenanceIfNeeded_owned pending with requested | before
      · exact requested
      · cases before
  | false =>
      intro pending
      obtain ⟨_, flags⟩ :=
        (runtime.withPending runtime.compactionPending false).requestSnapshotIfNeeded_flags threshold
      simp only [Bool.false_eq_true, if_false] at pending
      rw [show { runtime with rolloverPending := false } =
        runtime.withPending runtime.compactionPending false from rfl, flags] at pending
      cases pending

end Requests

theorem activate_rolloverPending {runtime activated : CommitRuntime}
    (activating : runtime.activateCompactionWriteBudget = some activated) :
    activated.rolloverPending = runtime.rolloverPending := by
  unfold CommitRuntime.activateCompactionWriteBudget at activating
  split at activating
  · rw [← Option.some.inj activating]
  · cases activating

section Moves
variable {runtime after : CommitRuntime} {choice : Choice} {next : Task}

theorem moveCommit_rollover {stage : CommitStage} (moved : moveCommit runtime stage choice = some (after, next))
    (pending : after.rolloverPending = true) :
    next.ownsRollover = true ∨ runtime.rolloverPending = true := by
  cases stage with
  | waitingForBudget =>
      cases choice <;> try cases moved
      simp only [moveCommit] at moved
      split at moved <;> cases moved
      exact .inr pending
  | admitted =>
      cases choice with
      | records records =>
          simp only [moveCommit] at moved
          split at moved
          · rename_i accepting
            cases moved
            rw [rolloverPending_of_control (acceptNextBatches_control accepting)] at pending
            exact .inr pending
          · cases moved
            exact .inr pending
      | _ =>
          cases moved <;> exact .inr pending
  | persisted =>
      cases choice <;> cases moved
      exact requestMaintenanceIfNeeded_owned pending
  | _ =>
      cases choice <;> cases moved
      exact .inr pending

theorem moveInstall_rollover {sequence entryCount : Nat} {stage : InstallStage}
    (moved : moveInstall runtime sequence entryCount stage choice = some (after, next))
    (pending : after.rolloverPending = true) : runtime.rolloverPending = true := by
  cases stage with
  | waitingForBudget =>
      cases choice <;> try cases moved
      simp only [moveInstall] at moved
      split at moved <;> cases moved
      exact pending
  | _ => cases choice <;> cases moved <;> exact pending

/-- A rollover owns its pending flag until it has stored false, and again where it rearms itself. -/
theorem moveRollover_rollover {stage : RolloverStage}
    (moved : moveRollover runtime stage choice = some (after, next)) (pending : after.rolloverPending = true) :
    next.ownsRollover = true := by
  cases stage with
  | refreshed =>
      cases choice <;> try cases moved
      simp only [moveRollover] at moved
      split at moved
      · cases moved
        rfl
      · split at moved <;> cases moved <;> rfl
  | atBoundary =>
      cases choice <;> try cases moved
      · simp only [moveRollover] at moved
        split at moved <;> cases moved <;> rfl
      · rfl
      · rfl
  | closing ownsBudget succeeded =>
      cases ownsBudget <;> cases choice <;> cases moved <;> rfl
  | panicked failed supervisor =>
      obtain ⟨⟨supervised, stage⟩, _, placed⟩ := Option.map_eq_some_iff.mp moved
      cases placed
      rfl
  | finished succeeded =>
      cases choice <;> cases moved
      exact finishRolloverScheduleAndRearm_owned pending
  | _ => cases choice <;> cases moved <;> rfl

theorem moveCompaction_rollover {automatic : Bool} {stage : CompactionStage}
    (moved : moveCompaction runtime automatic stage choice = some (after, next))
    (pending : after.rolloverPending = true) :
    next.ownsRollover = true ∨ runtime.rolloverPending = true := by
  cases stage with
  | entered =>
      cases choice with
      | catalog fails lost =>
          simp only [moveCompaction, Option.some.injEq, Prod.mk.injEq] at moved
          obtain ⟨rfl, rfl⟩ := moved
          rw [rolloverPending_of_control (refreshSegmentCatalog_control runtime fails lost)] at pending
          exact .inr pending
      | _ => cases moved
  | cleaning =>
      cases choice with
      | catalog fails lost =>
          simp only [moveCompaction, Option.some.injEq, Prod.mk.injEq] at moved
          obtain ⟨rfl, rfl⟩ := moved
          rw [rolloverPending_of_control (refreshSegmentCatalog_control runtime fails lost)] at pending
          exact .inr pending
      | _ => cases moved
  | refreshed =>
      cases choice <;> try cases moved
      simp only [moveCompaction] at moved
      split at moved
      · split at moved
        · rename_i activated
          cases moved
          have same := activate_rolloverPending activated
          rw [same] at pending
          exact .inr pending
        · cases moved
          exact .inr pending
      · cases moved
        exact .inr pending
  | atBoundary seals =>
      cases seals with
      | false =>
          cases choice <;> cases moved
          exact .inr pending
      | true =>
          cases choice <;> try cases moved
          · simp only [moveCompaction] at moved
            split at moved
            · cases moved
              exact .inr pending
            · rename_i done
              cases moved
              rw [rolloverPending_of_control (sealGeneration_control done)] at pending
              exact .inr pending
            · rename_i done
              cases moved
              have same := rolloverPending_of_control (sealGeneration_control done)
              exact .inr (same.symm.trans pending)
          · exact .inr pending
          · exact .inr pending
  | rotationDropped capture =>
      cases choice <;> try cases moved
      cases owned : capture.sealGeneration with
      | true =>
          rw [owned] at pending
          exact .inr pending
      | false =>
          rw [owned] at pending
          exact .inr pending
  | writing capture =>
      cases choice <;> try cases moved
      · exact .inr pending
      · rename_i installed
        cases installed <;> exact .inr pending
  | closing ownsBudget => cases ownsBudget <;> cases choice <;> cases moved <;> exact .inr pending
  | panicked failed supervisor =>
      obtain ⟨⟨supervised, stage⟩, moving, placed⟩ := Option.map_eq_some_iff.mp moved
      cases placed
      rw [rolloverPending_of_control (moveSupervisor_control moving)] at pending
      exact .inr pending
  | finished succeeded =>
      cases automatic <;> cases choice <;> cases moved
      · exact .inr pending
      · exact finishCompactionScheduleAndRearm_owned pending
  | _ => cases choice <;> cases moved <;> exact .inr pending

/-- A pending rollover is owned by the task that moved, or was pending beside it. -/
theorem move_rollover {task : Task} (moved : move runtime task choice = some (after, next))
    (pending : after.rolloverPending = true) :
    next.ownsRollover = true ∨ runtime.rolloverPending = true ∧ task.ownsRollover = false := by
  cases task with
  | idle => cases moved
  | scheduling request => cases moved
  | commit stage => exact (moveCommit_rollover moved pending).imp id (fun before => ⟨before, rfl⟩)
  | rollover stage => exact .inl (moveRollover_rollover moved pending)
  | compaction automatic stage => exact (moveCompaction_rollover moved pending).imp id (fun before => ⟨before, rfl⟩)
  | install sequence entryCount stage => exact .inr ⟨moveInstall_rollover moved pending, rfl⟩

theorem moveCommit_not_rollover {stage : CommitStage} {rollover : RolloverStage} :
    moveCommit runtime stage choice ≠ some (after, .rollover rollover) := by
  intro moved
  unfold moveCommit at moved
  split at moved <;> (try split at moved) <;> cases moved

theorem moveInstall_not_rollover {sequence entryCount : Nat} {stage : InstallStage} {rollover : RolloverStage} :
    moveInstall runtime sequence entryCount stage choice ≠ some (after, .rollover rollover) := by
  intro moved
  unfold moveInstall at moved
  split at moved <;> (try split at moved) <;> cases moved

theorem moveCompaction_not_rollover {automatic : Bool} {stage : CompactionStage} {rollover : RolloverStage} :
    moveCompaction runtime automatic stage choice ≠ some (after, .rollover rollover) := by
  intro moved
  unfold moveCompaction at moved
  split at moved <;> (try split at moved) <;> (try split at moved) <;>
    first | cases moved | simp at moved

/-- A seal below the catalog limit meets its assertion. -/
theorem sealGeneration_asserted {counted : CommitRuntime}
    (room : runtime.physicalSegmentCount < Persistence.maxBinlogSegments) :
    sealGeneration runtime ≠ some (counted, false) := by
  intro done
  unfold sealGeneration at done
  split at done
  · cases done
  · simp only [Option.some.injEq, CommitRuntime.recordSealedSegment, if_pos room] at done
    split at done <;> cases done

theorem moveRollover_limit {stage : RolloverStage} {supervisor : SupervisorStage}
    (room : (Task.rollover stage).foundRoom = true → runtime.physicalSegmentCount < binlogSegmentRolloverLimit)
    (moved : moveRollover runtime stage choice = some (after, .rollover (.panicked .catalogLimit supervisor))) :
    ∃ earlier, stage = .panicked .catalogLimit earlier := by
  cases stage with
  | panicked failed earlier =>
      cases failed with
      | catalogLimit => exact ⟨earlier, rfl⟩
      | budgetOwnership =>
          obtain ⟨⟨supervised, stage⟩, _, placed⟩ := Option.map_eq_some_iff.mp moved
          cases stage <;> cases placed
  | entered =>
      cases choice <;> try cases moved
      simp only [moveRollover] at moved
      split at moved <;> cases moved
  | refreshing =>
      cases choice with
      | catalog fails lost =>
          simp only [moveRollover] at moved
          split at moved <;> cases moved
      | _ => cases moved
  | refreshed =>
      cases choice <;> try cases moved
      simp only [moveRollover] at moved
      split at moved
      · cases moved
      · split at moved <;> cases moved
  | atBoundary =>
      cases choice <;> try cases moved
      simp only [moveRollover] at moved
      split at moved
      · cases moved
      · cases moved
      · rename_i done
        exact absurd done (sealGeneration_asserted (Nat.lt_of_lt_of_le (room rfl) (by decide)))
  | closing ownsBudget succeeded => cases ownsBudget <;> cases choice <;> cases moved
  | _ => cases choice <;> cases moved

/-- A rollover that still has the room it found does not panic at the catalog limit. -/
theorem move_limit {task : Task} {supervisor : SupervisorStage}
    (room : task.foundRoom = true → runtime.physicalSegmentCount < binlogSegmentRolloverLimit)
    (moved : move runtime task choice = some (after, .rollover (.panicked .catalogLimit supervisor))) :
    ∃ earlier, task = .rollover (.panicked .catalogLimit earlier) := by
  cases task with
  | idle => cases moved
  | scheduling request => cases moved
  | commit stage => exact absurd moved moveCommit_not_rollover
  | compaction automatic stage => exact absurd moved moveCompaction_not_rollover
  | install sequence entryCount stage => exact absurd moved moveInstall_not_rollover
  | rollover stage =>
      obtain ⟨earlier, rfl⟩ := moveRollover_limit room moved
      exact ⟨earlier, rfl⟩

@[simp] theorem requestMaintenanceIfNeeded_physical (runtime : CommitRuntime) (threshold : Nat) :
    (runtime.requestMaintenanceIfNeeded threshold).1.physicalSegmentCount = runtime.physicalSegmentCount := by
  obtain ⟨_, _, flags⟩ := runtime.requestMaintenanceIfNeeded_flags threshold
  rw [flags]
  rfl

@[simp] theorem finishCompactionScheduleAndRearm_physical (runtime : CommitRuntime) (threshold : Nat)
    (retryImmediately : Bool) :
    (runtime.finishCompactionScheduleAndRearm threshold retryImmediately).1.physicalSegmentCount =
      runtime.physicalSegmentCount := by
  obtain ⟨_, _, flags⟩ := runtime.finishCompactionScheduleAndRearm_flags threshold retryImmediately
  rw [flags]
  rfl

@[simp] theorem finishRolloverScheduleAndRearm_physical (runtime : CommitRuntime) (threshold : Nat)
    (retryImmediately : Bool) :
    (runtime.finishRolloverScheduleAndRearm threshold retryImmediately).1.physicalSegmentCount =
      runtime.physicalSegmentCount := by
  obtain ⟨_, _, flags⟩ := runtime.finishRolloverScheduleAndRearm_flags threshold retryImmediately
  rw [flags]
  rfl

theorem acceptNextBatches_physical {records : List LogRecord} {accepted : CommitRuntime}
    (accepting : runtime.acceptNextBatches records = some accepted) :
    accepted.physicalSegmentCount = runtime.physicalSegmentCount := by
  unfold CommitRuntime.acceptNextBatches at accepting
  split at accepting
  · cases accepting
  · split at accepting
    · obtain ⟨disk, _, rfl⟩ := Option.map_eq_some_iff.mp accepting
      rfl
    · cases accepting

theorem moveSupervisor_physical {stage : SupervisorStage} {reached : Option SupervisorStage}
    (moved : moveSupervisor runtime stage choice = some (after, reached)) :
    after.physicalSegmentCount = runtime.physicalSegmentCount := by
  cases stage with
  | acquiring =>
      cases choice <;> cases moved
      rfl
  | _ =>
      cases choice <;> try cases moved
      simp only [moveSupervisor] at moved
      split at moved <;> cases moved <;> rfl

/-- The segments are counted anew under the rotation gate only. -/
theorem move_physical {task : Task} (moved : move runtime task choice = some (after, next))
    (outside : task.holds .rotation = false) : after.physicalSegmentCount = runtime.physicalSegmentCount := by
  cases task with
  | idle => cases moved
  | scheduling request => cases moved
  | commit stage =>
      cases stage with
      | waitingForBudget =>
          cases choice <;> try cases moved
          simp only [move, moveCommit] at moved
          split at moved <;> cases moved
          rfl
      | admitted =>
          cases choice with
          | records records =>
              simp only [move, moveCommit] at moved
              split at moved
              · rename_i accepting
                cases moved
                exact acceptNextBatches_physical accepting
              · cases moved
                rfl
          | _ => cases moved <;> rfl
      | persisted =>
          cases choice <;> cases moved
          exact requestMaintenanceIfNeeded_physical _ _
      | _ =>
          cases choice <;> cases moved
          rfl
  | rollover stage =>
      cases stage with
      | panicked failed supervisor =>
          obtain ⟨⟨supervised, stage⟩, moving, placed⟩ := Option.map_eq_some_iff.mp moved
          cases placed
          exact moveSupervisor_physical moving
      | finished succeeded =>
          cases choice <;> cases moved
          exact finishRolloverScheduleAndRearm_physical _ _ _
      | waitingForRotation =>
          cases choice <;> cases moved
          rfl
      | _ => cases outside
  | compaction automatic stage =>
      cases stage with
      | rotationDropped capture =>
          cases choice <;> cases moved
          split <;> rfl
      | writing capture =>
          cases choice <;> cases moved
          · rfl
          · split <;> rfl
      | panicked failed supervisor =>
          obtain ⟨⟨supervised, stage⟩, moving, placed⟩ := Option.map_eq_some_iff.mp moved
          cases placed
          exact moveSupervisor_physical moving
      | finished succeeded =>
          cases automatic <;> cases choice <;> cases moved
          · rfl
          · exact finishCompactionScheduleAndRearm_physical _ _ _
      | waitingForCompaction | waitingForRotation | finalAcquiring _ _ | finalizing _ _ | cleanupWaiting
      | exiting _ => cases choice <;> cases moved <;> rfl
      | _ => cases outside
  | install sequence entryCount stage =>
      cases stage with
      | waitingForCompaction | waitingForRotation | leavingCompaction =>
          cases choice <;> cases moved
          rfl
      | _ => cases outside

/-- A rollover finds room where there is some, and takes what it found along. -/
theorem moveRollover_foundRoom {stage : RolloverStage} (moved : moveRollover runtime stage choice = some (after, next))
    (found : next.foundRoom = true) :
    after.physicalSegmentCount < binlogSegmentRolloverLimit ∨
      (Task.rollover stage).foundRoom = true ∧ after.physicalSegmentCount = runtime.physicalSegmentCount := by
  cases stage with
  | entered =>
      cases choice <;> cases moved
      split at found <;> cases found
  | refreshing =>
      cases choice with
      | catalog fails lost =>
          cases moved
          split at found <;> cases found
      | _ => cases moved
  | refreshed =>
      cases choice <;> try cases moved
      simp only [moveRollover] at moved
      split at moved
      · cases moved
        cases found
      · rename_i room
        unfold CommitRuntime.activateCompactionWriteBudget at moved
        split at moved
        · rename_i activated
          split at activated <;> cases activated
          cases moved
          exact .inl (Nat.lt_of_not_le room)
        · cases moved
          cases found
  | preflushing => cases choice <;> cases moved <;> exact .inr ⟨rfl, rfl⟩
  | acquiring =>
      cases choice <;> cases moved
      exact .inr ⟨rfl, rfl⟩
  | atBoundary =>
      cases choice <;> try cases moved
      · simp only [moveRollover] at moved
        split at moved <;> cases moved <;> cases found
      · cases found
      · cases found
  | closing ownsBudget succeeded => cases ownsBudget <;> cases choice <;> cases moved <;> cases found
  | panicked failed supervisor =>
      obtain ⟨⟨supervised, stage⟩, moving, placed⟩ := Option.map_eq_some_iff.mp moved
      cases placed
      cases stage <;> cases found
  | _ =>
      cases choice <;> cases moved
      cases found

theorem move_foundRoom {task : Task} (moved : move runtime task choice = some (after, next))
    (found : next.foundRoom = true) :
    after.physicalSegmentCount < binlogSegmentRolloverLimit ∨
      task.foundRoom = true ∧ after.physicalSegmentCount = runtime.physicalSegmentCount := by
  obtain ⟨reached, rfl⟩ : ∃ reached, next = .rollover reached := by
    cases next with
    | rollover reached => exact ⟨reached, rfl⟩
    | _ => cases found
  cases task with
  | idle => cases moved
  | scheduling request => cases moved
  | commit stage => exact absurd moved moveCommit_not_rollover
  | compaction automatic stage => exact absurd moved moveCompaction_not_rollover
  | install sequence entryCount stage => exact absurd moved moveInstall_not_rollover
  | rollover stage => exact moveRollover_foundRoom moved found

end Moves

section Steps
variable {system after : System} {action : Action}

theorem maintains_of_ownsBudget {task : Task} (owns : task.ownsBudget = true) : task.maintains = true := by
  unfold Task.ownsBudget at owns
  split at owns <;> first | rfl | cases owns

/-- Nobody who waits in `acquire_commit_boundary` holds the boundary, and only an install holds the
rotation gate there. -/
theorem holds_of_blocked {task : Task} (blocked : task.blocked = true) :
    task.holds .boundary = false ∧ (task.holds .rotation = true → task.installWaits = true) := by
  unfold Task.blocked at blocked
  split at blocked
  · exact ⟨rfl, nofun⟩
  · exact ⟨rfl, nofun⟩
  · exact ⟨rfl, fun _ => rfl⟩
  · exact ⟨rfl, fun _ => rfl⟩
  · rename_i supervisor
    cases supervisor <;> first | exact ⟨rfl, nofun⟩ | cases blocked
  · rename_i supervisor
    cases supervisor <;> first | exact ⟨rfl, nofun⟩ | cases blocked
  · cases blocked

theorem not_blocked_of_boundary (guarded : Guarded Task.holds system) {holder : Nat}
    (held : system.holder .boundary = some holder) : (system.stage holder).blocked = false := by
  cases blocked : (system.stage holder).blocked with
  | false => rfl
  | true =>
      have holds := (guarded holder .boundary).mpr held
      rw [(holds_of_blocked blocked).1] at holds
      cases holds

theorem waitsFor_of_ownsBudget {task : Task} {gate : Gate} (owns : task.ownsBudget = true)
    (waits : task.waitsFor = some gate) : gate = .boundary := by
  unfold Task.ownsBudget at owns
  split at owns <;> first | (cases waits <;> rfl) | cases waits | cases owns

/-- The pending rollover has an owner, and no rollover panicked at the catalog limit. -/
structure RolloverOwned (system : System) : Prop where
  owned : system.shared.rolloverPending = true → ∃ task, (system.stage task).ownsRollover = true
  within : ∀ task supervisor, system.stage task ≠ .rollover (.panicked .catalogLimit supervisor)

theorem rolloverOwned_startup (disk : Disk) (recovery : Persistence.Recovery.RecoveryState) (totalKeys : Nat) :
    RolloverOwned (startup disk recovery totalKeys) := by
  constructor
  · intro pending
    refine ⟨0, ?_⟩
    simp only [startup] at pending ⊢
    rcases requestMaintenanceIfNeeded_owned pending with requested | before
    · exact requested
    · cases before
  · intro task supervisor
    simp only [startup]
    split <;> (intro same; cases same)

/-- One task takes the place of a task that owned no rollover, or owns one itself. -/
theorem RolloverOwned.replace (owned : RolloverOwned system) {task : Nat} {next : Task}
    (pending : after.shared.rolloverPending = true → next.ownsRollover = true ∨
      system.shared.rolloverPending = true ∧ (system.stage task).ownsRollover = false)
    (within : ∀ supervisor, next ≠ .rollover (.panicked .catalogLimit supervisor))
    (stage : after.stage = Function.update system.stage task next) : RolloverOwned after := by
  constructor
  · intro set
    rcases pending set with here | ⟨before, free⟩
    · refine ⟨task, ?_⟩
      rw [stage, Function.update_self]
      exact here
    · obtain ⟨other, owns⟩ := owned.owned before
      refine ⟨other, ?_⟩
      rw [stage]
      by_cases same : other = task
      · rw [same, free] at owns
        cases owns
      · rw [Function.update_of_ne same]
        exact owns
  · intro other supervisor
    rw [stage]
    by_cases same : other = task
    · rw [same, Function.update_self]
      exact within supervisor
    · rw [Function.update_of_ne same]
      exact owned.within other supervisor

/-- The rollovers that found room in the catalog still have it. -/
def Roomy (system : System) : Prop :=
  ∀ task, (system.stage task).foundRoom = true → system.shared.physicalSegmentCount < binlogSegmentRolloverLimit

theorem holds_rotation_of_foundRoom {task : Task} (found : task.foundRoom = true) : task.holds .rotation = true := by
  unfold Task.foundRoom at found
  split at found <;> first | rfl | cases found

theorem not_foundRoom_of_resting {task : Task} (rests : task.resting = true) : task.foundRoom = false := by
  unfold Task.resting at rests
  split at rests <;> first | rfl | cases rests

theorem Roomy.replace {system after : System} {task : Nat} {next : Task} (roomy : Roomy system)
    (_ : (system.stage task).resting = true) (rests : next.resting = true)
    (advanced : system.advance task system.shared next = some after) : Roomy after := by
  obtain ⟨_, shared, stage⟩ := advance_some advanced
  intro other found
  rw [stage] at found
  rw [shared]
  by_cases same : other = task
  · rw [same, Function.update_self, not_foundRoom_of_resting rests] at found
    cases found
  · rw [Function.update_of_ne same] at found
    exact roomy other found

theorem roomy_startup (disk : Disk) (recovery : Persistence.Recovery.RecoveryState) (totalKeys : Nat) :
    Roomy (startup disk recovery totalKeys) := by
  intro task found
  simp only [startup] at found
  split at found <;> cases found

/-- Nobody counts the segments anew while a rollover has the rotation gate. -/
theorem roomy_step (guarded : Guarded Task.holds system) (roomy : Roomy system)
    (stepped : step system action = some after) : Roomy after := by
  rcases step_cases stepped with ⟨task, choice, runtime, next, rfl, moved, advanced⟩ |
    ⟨fails, totalKeys, disk, recovery, rfl, _, rfl⟩ | administered
  · obtain ⟨_, shared, stage⟩ := advance_some advanced
    intro other found
    rw [stage] at found
    rw [shared]
    by_cases same : other = task
    · rw [same, Function.update_self] at found
      rcases move_foundRoom moved found with room | ⟨before, kept⟩
      · exact room
      · rw [kept]
        exact roomy task before
    · rw [Function.update_of_ne same] at found
      have outside : (system.stage task).holds .rotation = false := by
        by_contra held
        rw [Bool.not_eq_false] at held
        exact same (guarded.exclusive (holds_rotation_of_foundRoom found) held)
      rw [move_physical moved outside]
      exact roomy other found
  · exact roomy_startup disk recovery totalKeys
  · exact administered.keeps Roomy.replace roomy

theorem rolloverOwned_step (owned : RolloverOwned system) (roomy : Roomy system)
    (stepped : step system action = some after) : RolloverOwned after := by
  cases action with
  | arrive task arrival =>
      simp only [step] at stepped
      split at stepped
      · rename_i idle
        obtain ⟨_, shared, stage⟩ := advance_some stepped
        refine owned.replace ?_ ?_ stage
        · intro pending
          rw [shared] at pending
          exact .inr ⟨pending, by rw [idle]; rfl⟩
        · cases arrival <;> (intro _ same; cases same)
      · cases stepped
  | move task choice =>
      obtain ⟨⟨runtime, next⟩, moved, advanced⟩ := Option.bind_eq_some_iff.mp stepped
      obtain ⟨_, shared, stage⟩ := advance_some advanced
      refine owned.replace ?_ ?_ stage
      · intro pending
        rw [shared] at pending
        exact move_rollover moved pending
      · rintro supervisor rfl
        obtain ⟨earlier, panicked⟩ := move_limit (roomy task) moved
        exact owned.within task earlier panicked
  | schedule task fresh =>
      simp only [step, System.schedule] at stepped
      split at stepped
      · rename_i request scheduling
        split at stepped
        · rename_i work rest scheduled
          split at stepped
          · rename_i idle
            obtain ⟨spawned, first, second⟩ := Option.bind_eq_some_iff.mp stepped
            obtain ⟨_, shared, stage⟩ := advance_some first
            obtain ⟨_, kept, later⟩ := advance_some second
            have middle : RolloverOwned spawned := by
              refine owned.replace ?_ ?_ stage
              · intro pending
                rw [shared] at pending
                exact .inr ⟨pending, by rw [idle]; rfl⟩
              · unfold nextScheduled at scheduled
                split at scheduled <;> cases scheduled <;> (intro _ same; cases same)
            have different : task ≠ fresh := by
              rintro rfl
              rw [idle] at scheduling
              cases scheduling
            have here : spawned.stage task = .scheduling request := by
              rw [stage, Function.update_of_ne different, scheduling]
            obtain ⟨snapshot, rollover⟩ := request
            cases snapshot with
            | true =>
                cases scheduled
                refine middle.replace ?_ ?_ later
                · intro pending
                  rw [kept, ← shared] at pending
                  cases rollover with
                  | true => exact .inl rfl
                  | false => exact .inr ⟨pending, by rw [here]; rfl⟩
                · intro _ same
                  cases same
            | false =>
                cases rollover with
                | false => cases scheduled
                | true =>
                    cases scheduled
                    constructor
                    · intro _
                      refine ⟨fresh, ?_⟩
                      rw [later, Function.update_of_ne (Ne.symm different), stage, Function.update_self]
                      rfl
                    · intro other supervisor
                      rw [later]
                      by_cases same : other = task
                      · rw [same, Function.update_self]
                        intro same
                        cases same
                      · rw [Function.update_of_ne same]
                        exact middle.within other supervisor
          · cases stepped
        · rename_i nothing
          obtain ⟨_, shared, stage⟩ := advance_some stepped
          refine owned.replace ?_ ?_ stage
          · intro pending
            rw [shared] at pending
            refine .inr ⟨pending, ?_⟩
            rw [scheduling]
            obtain ⟨snapshot, rollover⟩ := request
            cases snapshot <;> cases rollover <;> first | rfl | cases nothing
          · intro _ same
            cases same
      · cases stepped
  | restart fails totalKeys =>
      obtain ⟨⟨disk, recovery⟩, _, restarted⟩ := Option.map_eq_some_iff.mp stepped
      cases restarted
      exact rolloverOwned_startup disk recovery totalKeys

/-- The owner of a spent budget is live: it waits for the boundary at most. -/
theorem live_of_ownsBudget (guarded : Guarded Task.holds system) {task : Nat}
    (owns : (system.stage task).ownsBudget = true) : Live system task := by
  refine ⟨maintains_of_ownsBudget owns, ?_⟩
  intro gate holder waits held
  rw [waitsFor_of_ownsBudget owns waits] at held
  exact not_blocked_of_boundary guarded held

/-- The owner of a pending rollover is live where no install waits under the rotation gate. -/
theorem live_of_ownsRollover (guarded : Guarded Task.holds system) (exclusive : Exclusive system)
    (owned : RolloverOwned system) {task : Nat} (owns : (system.stage task).ownsRollover = true)
    (installs : ∀ task, (system.stage task).installWaits = false) : Live system task := by
  have rotation : ∀ holder, system.holder .rotation = some holder → (system.stage holder).blocked = false := by
    intro holder held
    cases blocked : (system.stage holder).blocked with
    | false => rfl
    | true =>
        have waits := (holds_of_blocked blocked).2 ((guarded holder .rotation).mpr held)
        rw [installs holder] at waits
        cases waits
  have boundary : ∀ holder, system.holder .boundary = some holder → (system.stage holder).blocked = false :=
    fun holder held => not_blocked_of_boundary guarded held
  have sound := exclusive.sound task
  have within := owned.within task
  unfold Live
  cases stage : system.stage task with
  | scheduling request =>
      rw [stage] at owns
      have requested : request.rollover = true := owns
      refine ⟨?_, nofun⟩
      simp [Task.maintains, requested]
  | rollover stage' =>
      rw [stage] at sound within
      cases stage' with
      | panicked failed supervisor =>
          cases failed with
          | budgetOwnership => cases sound
          | catalogLimit => exact absurd rfl (within supervisor)
      | waitingForRotation =>
          refine ⟨rfl, ?_⟩
          intro gate holder waits held
          cases waits
          exact rotation holder held
      | acquiring =>
          refine ⟨rfl, ?_⟩
          intro gate holder waits held
          cases waits
          exact boundary holder held
      | _ => exact ⟨rfl, nofun⟩
  | _ =>
      rw [stage] at owns
      cases owns

/-- Whoever holds writers back in a clear system is live. -/
theorem live_of_held (guarded : Guarded Task.holds system) (exclusive : Exclusive system)
    (owned : RolloverOwned system) (clear : Clear system)
    (held : system.shared.compactionWriteBudgetAllowsProgress = false) : ∃ task, Live system task := by
  cases rollover : system.shared.rolloverBackpressureActive with
  | true =>
      simp only [CommitRuntime.rolloverBackpressureActive, Bool.and_eq_true] at rollover
      obtain ⟨task, owns⟩ := owned.owned rollover.1
      have full := of_decide_eq_true rollover.2
      exact ⟨task, live_of_ownsRollover guarded exclusive owned owns (clear.installs rollover.1 full)⟩
  | false =>
      have catalog : system.shared.segmentCatalogBackpressureActive = false := by
        unfold CommitRuntime.segmentCatalogBackpressureActive
        by_cases full : binlogGenerationAdmissionLimitBytes ≤ system.shared.activeBinlogBytes
        · obtain ⟨known, room⟩ := clear.catalog full
          simp [known, Nat.not_le.mpr room]
        · simp [full]
      have spent : system.shared.compactionWriteBudgetLimit ≠ writeBudgetOpen := by
        intro opened
        simp [CommitRuntime.compactionWriteBudgetAllowsProgress, rollover, catalog, opened] at held
      obtain ⟨task, owns⟩ : ∃ task, (system.stage task).ownsBudget = true := by
        by_contra nobody
        apply spent
        apply exclusive.opened
        intro task
        cases owns : (system.stage task).ownsBudget with
        | false => rfl
        | true => exact absurd ⟨task, owns⟩ nobody
      exact ⟨task, live_of_ownsBudget guarded owns⟩

/-- In every run that keeps its budgets spaced and in which a generation that reaches its admission limit finds its
catalog known and with room, and no install waiting under the rotation gate beside its pending rollover, whoever holds
writers back can go on. -/
theorem run_backpressure_live {actions : List Action} (unobstructed : Along step Unobstructed initial actions)
    (ran : run step initial actions = some system)
    (held : system.shared.compactionWriteBudgetAllowsProgress = false) : ∃ task, Live system task := by
  have kept := run_keeps (fun system => Guarded Task.holds system ∧ Exclusive system ∧ Roomy system ∧
      RolloverOwned system ∧ Clear system)
    (fun _ _ _ ⟨guarded, exclusive, roomy, owned, _⟩ allowed stepped => ⟨guarded_step guarded stepped,
      exclusive_step guarded exclusive allowed.1 stepped, roomy_step guarded roomy stepped,
      rolloverOwned_step owned roomy stepped, allowed.2 _ stepped⟩)
    actions initial system
    ⟨guarded_startup _ _ _, exclusive_startup _ _ _, roomy_startup _ _ _, rolloverOwned_startup _ _ _,
      ⟨fun _ => by decide, nofun⟩⟩ unobstructed ran
  obtain ⟨guarded, exclusive, _, owned, clear⟩ := kept
  exact live_of_held guarded exclusive owned clear held

end Steps

/-- A full synchronization takes the rotation gate that a scheduled rollover waits for, and a commit
fills the generation to its admission limit before the install is admitted. -/
def installBeforeRollover : List Action :=
  [.schedule 0 0] ++ acceptedCommit 1 [⟨1, binlogGenerationTargetBytes, binlogGenerationTargetBytes_pos⟩] ++
  [.schedule 1 2, .schedule 1 0, .arrive 3 (.fullSync 9 0), .move 3 .go, .move 3 .go] ++
  acceptedCommit 4 [⟨2, compactionPreflushWriteBudgetBytes, compactionPreflushWriteBudgetBytes_pos⟩]

theorem installBeforeRollover_stages :
    (run step initial installBeforeRollover).map (fun system =>
      (system.shared.compactionWriteBudgetAllowsProgress, system.holder .rotation,
        [system.stage 0, system.stage 1, system.stage 2, system.stage 3, system.stage 4])) =
    some (false, some 3, [.idle, .idle, .rollover .waitingForRotation, .install 9 0 .waitingForBudget,
      .scheduling ⟨false, false⟩]) := by
  decide

/-- Writers, the install and the rollover wait for each other. -/
theorem backpressure_without_live_owner :
    ¬ ∀ (actions : List Action) (system : System), run step initial actions = some system →
      system.shared.compactionWriteBudgetAllowsProgress = false → ∃ task, Live system task := by
  intro live
  obtain ⟨system, ran, final⟩ := Option.map_eq_some_iff.mp installBeforeRollover_stages
  simp only [Prod.mk.injEq, List.cons.injEq, and_true] at final
  obtain ⟨held, rotation, start, first, second, third, fourth⟩ := final
  obtain ⟨task, maintains, free⟩ := live installBeforeRollover system ran held
  match task with
  | 0 => rw [start] at maintains; cases maintains
  | 1 => rw [first] at maintains; cases maintains
  | 2 =>
      have blocked := free .rotation 3 (by rw [second]; rfl) rotation
      rw [third] at blocked
      cases blocked
  | 3 => rw [third] at maintains; cases maintains
  | 4 => rw [fourth] at maintains; cases maintains
  | task + 5 =>
      have untouched : ∀ action ∈ installBeforeRollover, action.touches (task + 5) = false := by
        simp [installBeforeRollover, acceptedCommit, Action.touches]
      rw [run_elsewhere untouched ran] at maintains
      cases maintains

/-- A save finds the catalog unavailable, the next one activates its budget, and a commit spends it. -/
def spentBudget : List Action :=
  [.schedule 0 0, .arrive 1 .save, .move 1 .go, .move 1 .go, .move 1 (.catalog (fun _ => false) true),
    .move 1 .go, .move 1 .go, .move 1 .go, .arrive 1 .save, .move 1 .go, .move 1 .go,
    .move 1 (.catalog (fun _ => false) false), .move 1 .go] ++
  acceptedCommit 2 [⟨1, compactionPreflushWriteBudgetBytes, compactionPreflushWriteBudgetBytes_pos⟩]

/-- `Unobstructed`, decided over the tasks that are not idle. -/
def unobstructedBelow (bound : Nat) (system : System) (action : Action) : Bool :=
  spacedBelow bound system action &&
  (step system action).elim true (fun after =>
    decide (after.shared.activeBinlogBytes < binlogGenerationAdmissionLimitBytes) ||
      (!after.shared.segmentCatalogUnavailable &&
        decide (after.shared.physicalSegmentCount < binlogSegmentRolloverLimit) &&
        (!after.shared.rolloverPending || (List.range bound).all (fun task => !(after.stage task).installWaits))))

theorem unobstructed_of_below {bound : Nat} {system : System} {action : Action} (idle : Idle bound system)
    (checked : unobstructedBelow bound system action = true) :
    Unobstructed system action ∧ ∀ after, step system action = some after → Idle bound after := by
  simp only [unobstructedBelow, Bool.and_eq_true] at checked
  have below : action.below bound = true := (Bool.and_eq_true_iff.mp checked.1).1
  have later : ∀ after, step system action = some after → Idle bound after :=
    fun after stepped => idle_step idle below stepped
  refine ⟨⟨spaced_of_spacedBelow idle checked.1, ?_⟩, later⟩
  intro after stepped
  have facts := checked.2
  rw [stepped, Option.elim_some, Bool.or_eq_true, decide_eq_true_eq] at facts
  rcases facts with small | facts
  · exact ⟨fun full => absurd small (Nat.not_lt.mpr full), fun _ full => absurd small (Nat.not_lt.mpr full)⟩
  · simp only [Bool.and_eq_true, Bool.not_eq_true', decide_eq_true_eq] at facts
    refine ⟨fun _ => facts.1, ?_⟩
    intro pending _ task
    have each := facts.2
    simp only [pending, Bool.not_true, Bool.false_or, List.all_eq_true, Bool.not_eq_true'] at each
    rcases Nat.lt_or_ge task bound with inside | beyond
    · exact each task (List.mem_range.mpr inside)
    · rw [later after stepped task beyond]
      rfl

theorem spentBudget_unobstructed : Along step Unobstructed initial spentBudget := by
  apply along_of_check (Idle 3) _ spentBudget initial (idle_initial.mono (by decide))
    (show checkRun step (unobstructedBelow 3) initial spentBudget = true by decide)
  exact fun _ _ idle checked => unobstructed_of_below idle checked

theorem spentBudget_live :
    ∃ system, run step initial spentBudget = some system ∧
      system.shared.compactionWriteBudgetAllowsProgress = false ∧ ∃ task, Live system task := by
  have final : (run step initial spentBudget).map (fun system =>
      system.shared.compactionWriteBudgetAllowsProgress) = some false := by
    decide
  obtain ⟨system, ran, held⟩ := Option.map_eq_some_iff.mp final
  exact ⟨system, ran, held, run_backpressure_live spentBudget_unobstructed ran held⟩

end OnyxDB.Maintenance
