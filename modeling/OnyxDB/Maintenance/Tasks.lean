import OnyxDB.Library.Tasks
import OnyxDB.Maintenance.Runtime

/-! Commits, rollovers, compactions and full-sync installs as tasks over the commit runtime.

A stage stands between two statements of the task's source. The gates a stage holds are the guards
that are alive there. What the source leaves to the outside (a failing file call, the contents of a
commit) comes in as the choice of a move. -/

namespace OnyxDB.Maintenance
open OnyxDB.Library.Tasks

/-- The commit boundary is the write gate and, under it, the visibility gate. -/
inductive Gate where
  | compaction
  | rotation
  | boundary
  deriving DecidableEq

instance : Fintype Gate where
  elems := {.compaction, .rotation, .boundary}
  complete := by
    intro gate
    cases gate <;> decide

/-- `acquire_commit_boundary` and a commit under the boundary. -/
inductive CommitStage where
  | waitingForBudget
  | acquiring
  | atBoundary
  | admitted
  | persisted
  deriving DecidableEq

inductive Assertion where
  | budgetOwnership
  | catalogLimit
  deriving DecidableEq

/-- The supervisor of a worker that panicked: `enter_fail_stop`. -/
inductive SupervisorStage where
  | interrupted
  | waitingForBudget
  | acquiring
  | atBoundary
  deriving DecidableEq

/-- `rollover_generation_owned` and the end of its scheduled task. `closing` unwinds the guards, the
write budget (where it is still owned) before the rotation gate. -/
inductive RolloverStage where
  | waitingForRotation
  | entered
  | refreshing
  | refreshed
  | preflushing
  | acquiring
  | atBoundary
  | counted
  | closing (ownsBudget succeeded : Bool)
  | panicked (failed : Assertion) (supervisor : SupervisorStage)
  | finished (succeeded : Bool)
  deriving DecidableEq

/-- What a compaction remembers of its first boundary. -/
structure Capture where
  watermark : Nat
  compactedWriteCount : Nat
  compactedSegmentCount : Nat
  sealGeneration : Bool
  deriving DecidableEq

/-- `compact_owned` and the end of its task. -/
inductive CompactionStage where
  | waitingForCompaction
  | waitingForRotation
  | entered
  | refreshed
  | preflushing
  | acquiring (sealGeneration : Bool)
  | atBoundary (sealGeneration : Bool)
  | captured (capture : Capture)
  | boundaryDropped (capture : Capture)
  | rotationDropped (capture : Capture)
  | writing (capture : Capture)
  | finalAcquiring (capture : Capture) (snapshotEntryCount : Nat)
  | finalizing (capture : Capture) (snapshotEntryCount : Nat)
  | cleanupWaiting
  | cleaning
  | closing (ownsBudget : Bool)
  | exiting (succeeded : Bool)
  | panicked (failed : Assertion) (supervisor : SupervisorStage)
  | finished (succeeded : Bool)
  deriving DecidableEq

/-- `install_full_sync`. -/
inductive InstallStage where
  | waitingForCompaction
  | waitingForRotation
  | waitingForBudget
  | acquiring
  | atBoundary
  | admitted
  | truncated
  | written
  | leaving
  | leavingRotation
  | leavingCompaction
  deriving DecidableEq

/-- A compaction is automatic where it owns `compaction_pending`; others come from `SAVE` and from
shutdown. -/
inductive Task where
  | idle
  | commit (stage : CommitStage)
  | rollover (stage : RolloverStage)
  | compaction (automatic : Bool) (stage : CompactionStage)
  | install (sequence entryCount : Nat) (stage : InstallStage)
  | scheduling (request : MaintenanceRequest)
  deriving DecidableEq

section Holds

def CommitStage.holds : CommitStage → Gate → Bool
  | .atBoundary, .boundary | .admitted, .boundary | .persisted, .boundary => true
  | _, _ => false

def SupervisorStage.holds : SupervisorStage → Gate → Bool
  | .atBoundary, .boundary => true
  | _, _ => false

def RolloverStage.holds : RolloverStage → Gate → Bool
  | .entered, .rotation | .refreshing, .rotation | .refreshed, .rotation | .preflushing, .rotation
  | .acquiring, .rotation | .closing _ _, .rotation => true
  | .atBoundary, .rotation | .atBoundary, .boundary | .counted, .rotation | .counted, .boundary => true
  | .panicked _ supervisor, gate => supervisor.holds gate
  | _, _ => false

def CompactionStage.holds : CompactionStage → Gate → Bool
  | .waitingForCompaction, _ | .finished _, _ => false
  | .panicked _ supervisor, gate => supervisor.holds gate
  | _, .compaction => true
  | .waitingForRotation, .rotation | .rotationDropped _, .rotation | .writing _, .rotation
  | .finalAcquiring _ _, .rotation | .finalizing _ _, .rotation | .cleanupWaiting, .rotation
  | .exiting _, .rotation => false
  | _, .rotation => true
  | .atBoundary _, .boundary | .captured _, .boundary | .finalizing _ _, .boundary => true
  | _, .boundary => false

def InstallStage.holds : InstallStage → Gate → Bool
  | .waitingForCompaction, _ => false
  | _, .compaction => true
  | .waitingForRotation, .rotation | .leavingCompaction, .rotation => false
  | _, .rotation => true
  | .atBoundary, .boundary | .admitted, .boundary | .truncated, .boundary | .written, .boundary
  | .leaving, .boundary => true
  | _, .boundary => false

def Task.holds : Task → Gate → Bool
  | .idle, _ | .scheduling _, _ => false
  | .commit stage, gate => stage.holds gate
  | .rollover stage, gate => stage.holds gate
  | .compaction _ stage, gate => stage.holds gate
  | .install _ _ stage, gate => stage.holds gate

/-- Once fail-stop keeps the visibility guard, no boundary is taken any more. -/
def shut (runtime : CommitRuntime) : Gate → Bool
  | .boundary => runtime.failStopVisibilityGuard
  | _ => false

end Holds

/-- What comes from outside into a move. -/
inductive Choice where
  | go
  | refuse
  | records (records : List LogRecord)
  | catalog (fails : Nat → Bool) (lost : Bool)
  | snapshot (entryCount : Nat)
  | snapshotFailed (installed : Bool)
  | fail
  | indeterminate

/-- Where a worker's move leads. -/
abbrev Move (Stage : Type) := Option (CommitRuntime × Stage)

section Moves

def moveCommit (runtime : CommitRuntime) : CommitStage → Choice → Move Task
  | .waitingForBudget, .go =>
      if runtime.compactionWriteBudgetAllowsProgress then some (runtime, .commit .acquiring) else none
  | .acquiring, .go => some (runtime, .commit .atBoundary)
  | .atBoundary, .go =>
      some (runtime, .commit
        (if runtime.compactionWriteBudgetAllowsProgress then .admitted else .waitingForBudget))
  | .admitted, .refuse => some (runtime, .idle)
  | .admitted, .indeterminate => some (runtime.enterFailStopWithBoundary, .idle)
  | .admitted, .records records =>
      match runtime.acceptNextBatches records with
      | some accepted => some (accepted, .commit .persisted)
      | none => some (runtime, .idle)
  | .persisted, .go =>
      let (runtime, request) := runtime.requestMaintenanceIfNeeded compactionThreshold
      some (runtime, .scheduling request)
  | _, _ => none

/-- The supervisor goes on to `finished` where nothing is left for it to do. -/
def moveSupervisor (runtime : CommitRuntime) : SupervisorStage → Choice → Move (Option SupervisorStage)
  | .interrupted, .go =>
      if runtime.failStopStarted then some (runtime, none)
      else some ({ runtime with failStopStarted := true }, some .waitingForBudget)
  | .waitingForBudget, .go =>
      if runtime.compactionWriteBudgetAllowsProgress then some (runtime, some .acquiring) else none
  | .acquiring, .go => some (runtime, some .atBoundary)
  | .atBoundary, .go =>
      if runtime.compactionWriteBudgetAllowsProgress then some (runtime.enterFailStopWithBoundary, none)
      else some (runtime, some .waitingForBudget)
  | _, _ => none

/-- A seal at the current sequence under the boundary, with the counters it changes. Nothing is
returned where the file stays as it was. -/
def sealGeneration (runtime : CommitRuntime) : Option (CommitRuntime × Bool) :=
  match sealActive runtime.disk runtime.sequence with
  | .unchanged => none
  | .done disk bytes => some (({ runtime with disk, activeBinlogBytes := 0 }).recordSealedSegment bytes)

def moveRollover (runtime : CommitRuntime) : RolloverStage → Choice → Move Task
  | .waitingForRotation, .go => some (runtime, .rollover .entered)
  | .entered, .go =>
      some (runtime, .rollover (if runtime.activeBinlogBytes = 0 then .closing false true else .refreshing))
  | .refreshing, .catalog fails lost =>
      let (runtime, established) := runtime.refreshSegmentCatalog fails lost
      some (runtime, .rollover (if established then .refreshed else .closing false false))
  | .refreshed, .go =>
      if binlogSegmentRolloverLimit ≤ runtime.physicalSegmentCount then
        some (runtime, .rollover (.closing false false))
      else
        match runtime.activateCompactionWriteBudget with
        | some runtime => some (runtime, .rollover .preflushing)
        | none => some (runtime, .rollover (.panicked .budgetOwnership .interrupted))
  | .preflushing, .go => some (runtime, .rollover .acquiring)
  | .preflushing, .fail => some (runtime, .rollover (.closing true false))
  | .acquiring, .go => some (runtime, .rollover .atBoundary)
  | .atBoundary, .go =>
      match sealGeneration runtime with
      | none => some (runtime, .rollover (.closing true false))
      | some (counted, true) => some (counted, .rollover .counted)
      | some (counted, false) =>
          some (counted.releaseCompactionWriteBudget, .rollover (.panicked .catalogLimit .interrupted))
  | .atBoundary, .fail => some (runtime, .rollover (.closing true false))
  | .atBoundary, .indeterminate =>
      some (runtime.enterFailStopWithBoundary, .rollover (.closing true false))
  | .counted, .go => some (runtime, .rollover (.closing true true))
  | .closing true succeeded, .go =>
      some (runtime.releaseCompactionWriteBudget, .rollover (.closing false succeeded))
  | .closing false succeeded, .go => some (runtime, .rollover (.finished succeeded))
  | .panicked failed supervisor, choice =>
      (moveSupervisor runtime supervisor choice).map (fun (runtime, next) =>
        (runtime, .rollover (next.elim (.finished false) (.panicked failed))))
  | .finished succeeded, .go =>
      let (runtime, request) := runtime.finishRolloverScheduleAndRearm compactionThreshold succeeded
      some (runtime, .scheduling request)
  | _, _ => none

/-- The counts of the first boundary, after the generation was sealed there or left as it is. -/
def capture (runtime : CommitRuntime) (sealGeneration : Bool) : Capture where
  watermark := runtime.sequence
  compactedWriteCount := runtime.writeCount
  compactedSegmentCount := runtime.unsnapshottedSegmentCount
  sealGeneration := sealGeneration

/-- The snapshot of a capture is authoritative now. -/
def finalizeCompaction (runtime : CommitRuntime) (capture : Capture) (snapshotEntryCount : Nat) :
    CommitRuntime :=
  { runtime with
    snapshotWatermark := capture.watermark
    writeCount := runtime.writeCount - capture.compactedWriteCount
    unsnapshottedSegmentCount := runtime.unsnapshottedSegmentCount - capture.compactedSegmentCount
    compactionEntryFloor := snapshotEntryCount }

def installSnapshot (runtime : CommitRuntime) (watermark : Nat) : CommitRuntime :=
  { runtime with disk := { runtime.disk with snapshotWatermark := watermark } }

def moveCompaction (runtime : CommitRuntime) (automatic : Bool) : CompactionStage → Choice → Move Task
  | .waitingForCompaction, .go => some (runtime, .compaction automatic .waitingForRotation)
  | .waitingForRotation, .go => some (runtime, .compaction automatic .entered)
  | .entered, .catalog fails lost =>
      let (runtime, established) := runtime.refreshSegmentCatalog fails lost
      some (runtime, .compaction automatic (if established then .refreshed else .closing false))
  | .refreshed, .go =>
      if runtime.physicalSegmentCount < Persistence.maxBinlogSegments then
        match runtime.activateCompactionWriteBudget with
        | some runtime => some (runtime, .compaction automatic .preflushing)
        | none => some (runtime, .compaction automatic (.panicked .budgetOwnership .interrupted))
      else
        some (runtime, .compaction automatic (.acquiring false))
  | .preflushing, .go => some (runtime, .compaction automatic (.acquiring true))
  | .preflushing, .fail => some (runtime, .compaction automatic (.closing true))
  | .acquiring seals, .go => some (runtime, .compaction automatic (.atBoundary seals))
  | .atBoundary true, .go =>
      match sealGeneration runtime with
      | none => some (runtime, .compaction automatic (.closing true))
      | some (counted, true) => some (counted, .compaction automatic (.captured (capture counted true)))
      | some (counted, false) =>
          some (counted.releaseCompactionWriteBudget,
            .compaction automatic (.panicked .catalogLimit .interrupted))
  | .atBoundary false, .go => some (runtime, .compaction automatic (.captured (capture runtime false)))
  | .atBoundary true, .fail => some (runtime, .compaction automatic (.closing true))
  | .atBoundary true, .indeterminate =>
      some (runtime.enterFailStopWithBoundary, .compaction automatic (.closing true))
  | .captured capture, .go => some (runtime, .compaction automatic (.boundaryDropped capture))
  | .boundaryDropped capture, .go => some (runtime, .compaction automatic (.rotationDropped capture))
  | .rotationDropped capture, .go =>
      some (if capture.sealGeneration then runtime.releaseCompactionWriteBudget else runtime,
        .compaction automatic (.writing capture))
  | .writing capture, .snapshot entryCount =>
      some (installSnapshot runtime capture.watermark,
        .compaction automatic (.finalAcquiring capture entryCount))
  | .writing capture, .snapshotFailed installed =>
      some (if installed then installSnapshot runtime capture.watermark else runtime,
        .compaction automatic (.exiting false))
  | .finalAcquiring capture entryCount, .go =>
      some (runtime, .compaction automatic (.finalizing capture entryCount))
  | .finalizing capture entryCount, .go =>
      some (finalizeCompaction runtime capture entryCount, .compaction automatic .cleanupWaiting)
  | .finalizing _ _, .fail => some (runtime, .compaction automatic (.exiting false))
  | .finalizing _ _, .indeterminate =>
      some (runtime.enterFailStopWithBoundary, .compaction automatic (.exiting false))
  | .cleanupWaiting, .go => some (runtime, .compaction automatic .cleaning)
  | .cleaning, .catalog fails lost =>
      some ((runtime.refreshSegmentCatalog fails lost).1, .compaction automatic (.exiting true))
  | .closing true, .go =>
      some (runtime.releaseCompactionWriteBudget, .compaction automatic (.closing false))
  | .closing false, .go => some (runtime, .compaction automatic (.exiting false))
  | .exiting succeeded, .go => some (runtime, .compaction automatic (.finished succeeded))
  | .panicked failed supervisor, choice =>
      (moveSupervisor runtime supervisor choice).map (fun (runtime, next) =>
        (runtime, .compaction automatic (next.elim (.finished false) (.panicked failed))))
  | .finished succeeded, .go =>
      if automatic then
        let (runtime, request) := runtime.finishCompactionScheduleAndRearm compactionThreshold succeeded
        some (runtime, .scheduling request)
      else
        some (runtime, .idle)
  | _, _ => none

def moveInstall (runtime : CommitRuntime) (sequence entryCount : Nat) : InstallStage → Choice → Move Task
  | .waitingForCompaction, .go => some (runtime, .install sequence entryCount .waitingForRotation)
  | .waitingForRotation, .go => some (runtime, .install sequence entryCount .waitingForBudget)
  | .waitingForBudget, .go =>
      if runtime.compactionWriteBudgetAllowsProgress then
        some (runtime, .install sequence entryCount .acquiring)
      else
        none
  | .acquiring, .go => some (runtime, .install sequence entryCount .atBoundary)
  | .atBoundary, .go =>
      some (runtime, .install sequence entryCount
        (if runtime.compactionWriteBudgetAllowsProgress then .admitted else .waitingForBudget))
  | .admitted, .refuse => some (runtime, .install sequence entryCount .leaving)
  | .admitted, .go =>
      some ({ runtime with disk := truncateBinlog runtime.disk }, .install sequence entryCount .truncated)
  | .admitted, .indeterminate =>
      some (runtime.enterFailStopWithBoundary, .install sequence entryCount .leavingRotation)
  | .truncated, .go => some (installSnapshot runtime sequence, .install sequence entryCount .written)
  | .truncated, .indeterminate =>
      some (runtime.enterFailStopWithBoundary, .install sequence entryCount .leavingRotation)
  | .written, .go =>
      some (runtime.installBaseline sequence entryCount, .install sequence entryCount .leaving)
  | .written, .indeterminate =>
      some (runtime.enterFailStopWithBoundary, .install sequence entryCount .leavingRotation)
  | .leaving, .go => some (runtime, .install sequence entryCount .leavingRotation)
  | .leavingRotation, .go => some (runtime, .install sequence entryCount .leavingCompaction)
  | .leavingCompaction, .go => some (runtime, .idle)
  | _, _ => none

def move (runtime : CommitRuntime) : Task → Choice → Move Task
  | .commit stage, choice => moveCommit runtime stage choice
  | .rollover stage, choice => moveRollover runtime stage choice
  | .compaction automatic stage, choice => moveCompaction runtime automatic stage choice
  | .install sequence entryCount stage, choice => moveInstall runtime sequence entryCount stage choice
  | _, _ => none

end Moves

abbrev System := Pool Gate Task CommitRuntime

def System.advance (system : System) (task : Nat) (runtime : CommitRuntime) (next : Task) : Option System :=
  Pool.advance Task.holds shut system task runtime next

/-- Work that arrives from clients, from an operator and from a replica's upstream. -/
inductive Arrival where
  | commit
  | save
  | fullSync (sequence entryCount : Nat)

def Arrival.task : Arrival → Task
  | .commit => .commit .waitingForBudget
  | .save => .compaction false .waitingForCompaction
  | .fullSync sequence entryCount => .install sequence entryCount .waitingForCompaction

/-- `schedule_maintenance`: the tasks of a request are spawned, the compaction first. -/
def nextScheduled : MaintenanceRequest → Option (Task × MaintenanceRequest)
  | ⟨true, rollover⟩ => some (.compaction true .waitingForCompaction, ⟨false, rollover⟩)
  | ⟨false, true⟩ => some (.rollover .waitingForRotation, ⟨false, false⟩)
  | ⟨false, false⟩ => none

def System.schedule (system : System) (task fresh : Nat) : Option System :=
  match system.stage task with
  | .scheduling request =>
      match nextScheduled request with
      | some (work, rest) =>
          if system.stage fresh = .idle then
            (system.advance fresh system.shared work).bind
              (fun spawned => spawned.advance task system.shared (.scheduling rest))
          else
            none
      | none => system.advance task system.shared .idle
  | _ => none

/-- A server that has recovered its files, with the maintenance it requests at startup. -/
def startup (disk : Disk) (recovery : Persistence.Recovery.RecoveryState) (totalKeys : Nat) : System :=
  let runtime := { (CommitRuntime.new recovery.lastSequence disk).restoreMaintenanceState recovery with
    compactionEntryFloor := totalKeys }
  let (runtime, request) := runtime.requestMaintenanceIfNeeded compactionThreshold
  { shared := runtime
    holder := fun _ => none
    stage := fun task => if task = 0 then .scheduling request else .idle }

inductive Action where
  | arrive (task : Nat) (arrival : Arrival)
  | move (task : Nat) (choice : Choice)
  | schedule (task fresh : Nat)
  | restart (fails : Nat → Bool) (totalKeys : Nat)

def step (system : System) : Action → Option System
  | .arrive task arrival =>
      if system.stage task = .idle then system.advance task system.shared arrival.task else none
  | .move task choice =>
      (Maintenance.move system.shared (system.stage task) choice).bind
        (fun (runtime, next) => system.advance task runtime next)
  | .schedule task fresh => system.schedule task fresh
  | .restart fails totalKeys =>
      (loadDataFromPaths system.shared.disk fails).map
        (fun (disk, recovery) => startup disk recovery totalKeys)

def emptyDisk : Disk := ⟨0, [], []⟩

/-- The first start, in an empty data directory. -/
def initial : System := startup emptyDisk ⟨0, 0, 0, 0, 0, 0⟩ 0

section Steps
variable {system after : System} {action : Action}

/-- A task that has not begun to run, or only hands out scheduled work. -/
def Task.resting : Task → Bool
  | .idle | .scheduling _ | .commit .waitingForBudget | .rollover .waitingForRotation
  | .compaction _ .waitingForCompaction | .install _ _ .waitingForCompaction => true
  | _ => false

/-- Resting tasks take the place of resting tasks; the runtime stays as it is. -/
inductive Administered : System → System → Prop
  | replace {system after : System} {task : Nat} {next : Task} (before : (system.stage task).resting = true)
      (rests : next.resting = true) (advanced : system.advance task system.shared next = some after) :
      Administered system after
  | trans {system middle after : System} (first : Administered system middle)
      (second : Administered middle after) : Administered system after

/-- The three kinds of steps. -/
theorem step_cases (stepped : step system action = some after) :
    (∃ task choice runtime next, action = .move task choice ∧
      move system.shared (system.stage task) choice = some (runtime, next) ∧
      system.advance task runtime next = some after) ∨
    (∃ fails totalKeys disk recovery, action = .restart fails totalKeys ∧
      loadDataFromPaths system.shared.disk fails = some (disk, recovery) ∧
      after = startup disk recovery totalKeys) ∨
    Administered system after := by
  cases action with
  | arrive task arrival =>
      right
      right
      simp only [step] at stepped
      split at stepped
      · rename_i idle
        apply Administered.replace _ _ stepped
        · rw [idle]
          rfl
        · cases arrival <;> rfl
      · cases stepped
  | move task choice =>
      obtain ⟨⟨runtime, next⟩, moved, advanced⟩ := Option.bind_eq_some_iff.mp stepped
      exact .inl ⟨task, choice, runtime, next, rfl, moved, advanced⟩
  | restart fails totalKeys =>
      obtain ⟨⟨disk, recovery⟩, loaded, restarted⟩ := Option.map_eq_some_iff.mp stepped
      exact .inr (.inl ⟨fails, totalKeys, disk, recovery, rfl, loaded, restarted.symm⟩)
  | schedule task fresh =>
      right
      right
      simp only [step, System.schedule] at stepped
      split at stepped
      · rename_i request scheduling
        have here : (system.stage task).resting = true := by
          rw [scheduling]
          rfl
        split at stepped
        · rename_i work rest scheduled
          split at stepped
          · rename_i idle
            obtain ⟨spawned, first, second⟩ := Option.bind_eq_some_iff.mp stepped
            have rests : work.resting = true := by
              unfold nextScheduled at scheduled
              split at scheduled <;> cases scheduled <;> rfl
            obtain ⟨_, shared, stage⟩ := advance_some first
            have still : (spawned.stage task).resting = true := by
              rw [stage]
              by_cases same : task = fresh
              · rw [same, Function.update_self, rests]
              · rw [Function.update_of_ne same, here]
            rw [← shared] at second
            exact .trans (.replace (by rw [idle]; rfl) rests first) (.replace still rfl second)
          · cases stepped
        · exact .replace here rfl stepped
      · cases stepped

/-- What every replacement of a resting task keeps, the administration of tasks keeps. -/
theorem Administered.keeps {property : System → Prop} (administered : Administered system after)
    (kept : ∀ {system after : System} {task : Nat} {next : Task}, property system →
      (system.stage task).resting = true → next.resting = true →
      system.advance task system.shared next = some after → property after)
    (holding : property system) : property after := by
  induction administered with
  | replace before rests advanced => exact kept holding before rests advanced
  | trans first second firstIh secondIh => exact secondIh (firstIh holding)

theorem guarded_startup (disk : Disk) (recovery : Persistence.Recovery.RecoveryState) (totalKeys : Nat) :
    Guarded Task.holds (startup disk recovery totalKeys) := by
  intro task gate
  simp only [startup]
  split <;> simp [Task.holds]

/-- A step keeps every gate with the one task whose stage holds it. -/
theorem guarded_step (guarded : Guarded Task.holds system) (stepped : step system action = some after) :
    Guarded Task.holds after := by
  rcases step_cases stepped with ⟨task, choice, runtime, next, rfl, _, advanced⟩ |
    ⟨fails, totalKeys, disk, recovery, rfl, _, rfl⟩ | administered
  · exact guarded_advance guarded advanced
  · exact guarded_startup disk recovery totalKeys
  · exact administered.keeps (fun guarded _ _ advanced => guarded_advance guarded advanced) guarded

/-- The tasks that an action moves or spawns; a restart touches every task. -/
def Action.touches : Action → Nat → Bool
  | .arrive task _, other | .move task _, other => decide (other = task)
  | .schedule task fresh, other => decide (other = task) || decide (other = fresh)
  | .restart _ _, _ => true

theorem step_elsewhere {other : Nat} (untouched : action.touches other = false)
    (stepped : step system action = some after) : after.stage other = system.stage other := by
  cases action with
  | restart fails totalKeys => cases untouched
  | arrive task arrival =>
      simp only [step] at stepped
      split at stepped
      · obtain ⟨_, _, stage⟩ := advance_some stepped
        rw [stage, Function.update_of_ne (of_decide_eq_false untouched)]
      · cases stepped
  | move task choice =>
      obtain ⟨⟨runtime, next⟩, _, advanced⟩ := Option.bind_eq_some_iff.mp stepped
      obtain ⟨_, _, stage⟩ := advance_some advanced
      rw [stage, Function.update_of_ne (of_decide_eq_false untouched)]
  | schedule task fresh =>
      simp only [Action.touches, Bool.or_eq_false_iff, decide_eq_false_iff_not] at untouched
      simp only [step, System.schedule] at stepped
      split at stepped
      · split at stepped
        · split at stepped
          · obtain ⟨spawned, first, second⟩ := Option.bind_eq_some_iff.mp stepped
            obtain ⟨_, _, stage⟩ := advance_some first
            obtain ⟨_, _, later⟩ := advance_some second
            rw [later, Function.update_of_ne untouched.1, stage, Function.update_of_ne untouched.2]
          · cases stepped
        · obtain ⟨_, _, stage⟩ := advance_some stepped
          rw [stage, Function.update_of_ne untouched.1]
      · cases stepped

theorem run_elsewhere {other : Nat} : ∀ {actions : List Action} {system after : System},
    (∀ action ∈ actions, action.touches other = false) → run step system actions = some after →
    after.stage other = system.stage other
  | [], _, _, _, ran => by
      cases ran
      rfl
  | action :: rest, system, after, untouched, ran => by
      obtain ⟨middle, stepped, ran⟩ := Option.bind_eq_some_iff.mp ran
      have later := run_elsewhere (fun other member => untouched other (List.mem_cons_of_mem _ member)) ran
      rw [later, step_elsewhere (untouched action (List.mem_cons_self ..)) stepped]

/-- Every task from `bound` on is idle. -/
def Idle (bound : Nat) (system : System) : Prop := ∀ task, bound ≤ task → system.stage task = .idle

/-- The action touches no task from `bound` on. -/
def Action.below (bound : Nat) : Action → Bool
  | .arrive task _ | .move task _ => decide (task < bound)
  | .schedule task fresh => decide (task < bound) && decide (fresh < bound)
  | .restart _ _ => false

theorem idle_step {bound : Nat} (idle : Idle bound system) (below : action.below bound = true)
    (stepped : step system action = some after) : Idle bound after := by
  intro task beyond
  rw [step_elsewhere _ stepped, idle task beyond]
  cases action with
  | restart fails totalKeys => cases below
  | arrive other arrival =>
      have below := of_decide_eq_true below
      exact decide_eq_false (by omega)
  | move other choice =>
      have below := of_decide_eq_true below
      exact decide_eq_false (by omega)
  | schedule other fresh =>
      simp only [Action.below, Bool.and_eq_true, decide_eq_true_eq] at below
      simp only [Action.touches, Bool.or_eq_false_iff, decide_eq_false_iff_not]
      omega

theorem idle_initial : Idle 1 initial := by
  intro task beyond
  have other : task ≠ 0 := by omega
  simp [initial, startup, other]

theorem Idle.mono {bound more : Nat} (idle : Idle bound system) (larger : bound ≤ more) : Idle more system :=
  fun task beyond => idle task (Nat.le_trans larger beyond)

end Steps

end OnyxDB.Maintenance
