import OnyxDB.Maintenance.Ledger

/-! The maintenance counters describe the disk.

A move of a task makes one entry in the ledger at most, under the gates that keep the other tasks away
from what it changes. -/

namespace OnyxDB.Maintenance
open OnyxDB.Library.Tasks OnyxDB.Persistence

section Stages

/-- The bound below which the catalog was found and has to stay until the seal. -/
def Task.room : Task → Option Nat
  | .rollover .preflushing | .rollover .acquiring | .rollover .atBoundary => some binlogSegmentRolloverLimit
  | .compaction _ .preflushing | .compaction _ (.acquiring true) | .compaction _ (.atBoundary true) =>
      some maxBinlogSegments
  | _ => none

/-- The capture of a compaction whose snapshot is not authoritative yet. -/
def Task.pendingCapture : Task → Option Capture
  | .compaction _ (.captured capture) | .compaction _ (.boundaryDropped capture)
  | .compaction _ (.rotationDropped capture) | .compaction _ (.writing capture)
  | .compaction _ (.finalAcquiring capture _) | .compaction _ (.finalizing capture _) => some capture
  | _ => none

/-- An install between the truncation of the binlog and the new baseline. -/
def Task.replacing : Task → Bool
  | .install _ _ .truncated | .install _ _ .written => true
  | _ => false

def Task.writtenBaseline : Task → Option Nat
  | .install sequence _ .written => some sequence
  | _ => none

/-- The assertion of `record_sealed_segment` failed in this task. -/
def Task.catalogFailed : Task → Bool
  | .rollover (.panicked .catalogLimit _) | .compaction _ (.panicked .catalogLimit _) => true
  | _ => false

/-- The next move seals the active generation. -/
def Task.seals : Task → Bool
  | .rollover .atBoundary | .compaction _ (.atBoundary true) => true
  | _ => false

/-- What a task relies on at its stage. -/
structure Task.Fits (ledger : Ledger) (task : Task) : Prop where
  room : ∀ bound, task.room = some bound → ledger.physicalSegmentCount < bound
  covers : ∀ capture, task.pendingCapture = some capture → ledger.Covers capture
  emptied : task.replacing = true → ledger.disk.segments = [] ∧ ledger.disk.active = []
  written : ∀ sequence, task.writtenBaseline = some sequence → ledger.disk.snapshotWatermark = sequence
  asserted : task.catalogFailed = false

/-- A stage that relies on nothing. -/
def Task.plain (task : Task) : Bool :=
  task.room.isNone && task.pendingCapture.isNone && !task.replacing && task.writtenBaseline.isNone &&
    !task.catalogFailed

theorem fits_of_plain {task : Task} (plain : task.plain = true) (ledger : Ledger) : task.Fits ledger := by
  simp only [Task.plain, Bool.and_eq_true, Option.isNone_iff_eq_none, Bool.not_eq_true'] at plain
  obtain ⟨⟨⟨⟨room, capture⟩, replacing⟩, written⟩, failed⟩ := plain
  constructor
  · intro bound found
    rw [room] at found
    cases found
  · intro pending found
    rw [capture] at found
    cases found
  · intro found
    rw [replacing] at found
    cases found
  · intro sequence found
    rw [written] at found
    cases found
  · exact failed

theorem replacing_of_plain {task : Task} (plain : task.plain = true) : task.replacing = false := by
  simp only [Task.plain, Bool.and_eq_true, Bool.not_eq_true'] at plain
  exact plain.1.1.2

theorem plain_of_resting {task : Task} (rests : task.resting = true) : task.plain = true := by
  unfold Task.resting at rests
  split at rests <;> first | rfl | cases rests

theorem holds_rotation_of_room {task : Task} {bound : Nat} (found : task.room = some bound) :
    task.holds .rotation = true := by
  unfold Task.room at found
  split at found <;> first | rfl | cases found

theorem room_of_seals {task : Task} (seals : task.seals = true) :
    ∃ bound, task.room = some bound ∧ bound ≤ maxBinlogSegments := by
  unfold Task.seals at seals
  split at seals
  · exact ⟨_, rfl, by decide⟩
  · exact ⟨_, rfl, by decide⟩
  · cases seals

theorem holds_compaction_of_pendingCapture {task : Task} {capture : Capture}
    (found : task.pendingCapture = some capture) : task.holds .compaction = true := by
  unfold Task.pendingCapture at found
  split at found <;> first | rfl | cases found

theorem holds_of_replacing {task : Task} (replacing : task.replacing = true) (gate : Gate) :
    task.holds gate = true := by
  unfold Task.replacing at replacing
  split at replacing <;> first | (cases gate <;> rfl) | cases replacing

theorem replacing_of_writtenBaseline {task : Task} {sequence : Nat}
    (found : task.writtenBaseline = some sequence) : task.replacing = true := by
  unfold Task.writtenBaseline at found
  split at found <;> first | rfl | cases found

end Stages

/-- What a move does to the ledger, and which gates it does it under. -/
inductive LedgerEffect (ledger : Ledger) (task : Task) (after : Ledger) (next : Task) : Prop
  | kept (same : after = ledger) (fits : task.Fits ledger → next.Fits ledger)
      (replacing : next.replacing = task.replacing)
  | settled (boundary : task.holds .boundary = true) (steady : task.replacing = false)
      (same : ledger.Sound → after = ledger) (fits : ledger.Sound → next.Fits ledger)
      (replacing : next.replacing = false)
  | accepted (boundary : task.holds .boundary = true) (steady : task.replacing = false)
      (records : List LogRecord) (present : records ≠ [])
      (follows : CommitRuntime.consecutive (ledger.sequence + 1) records = true)
      (entry : ledger.Sound → after = ledger.accepted records) (plain : next.plain = true)
  | cleaned (rotation : task.holds .rotation = true) (steady : task.replacing = false) (fails : Nat → Bool)
      (entry : ledger.Sound → after = ledger.cleaned fails) (plain : next.plain = true)
  | rotated (rotation : task.holds .rotation = true) (boundary : task.holds .boundary = true)
      (steady : task.replacing = false) (seals : task.seals = true) (active : ledger.disk.active ≠ [])
      (entry : task.Fits ledger → after = ledger.rotated) (fits : task.Fits ledger → after.Sound → next.Fits after)
      (replacing : next.replacing = false)
  | snapshotted (compaction : task.holds .compaction = true) (steady : task.replacing = false)
      (capture : Capture) (pending : task.pendingCapture = some capture)
      (entry : after = ledger.snapshotted capture.watermark) (fits : task.Fits ledger → next.Fits after)
      (replacing : next.replacing = false)
  | finalized (compaction : task.holds .compaction = true) (boundary : task.holds .boundary = true)
      (steady : task.replacing = false) (capture : Capture) (pending : task.pendingCapture = some capture)
      (entry : after = ledger.finalized capture) (plain : next.plain = true)
  | truncated (gates : ∀ gate, task.holds gate = true) (entry : after = ledger.truncated)
      (fits : next.Fits after) (replacing : next.replacing = true)
  | written (gates : task.replacing = true) (sequence : Nat) (entry : after = ledger.snapshotted sequence)
      (fits : task.Fits ledger → next.Fits after) (replacing : next.replacing = true)
  | installed (gates : task.replacing = true) (sequence : Nat)
      (baseline : task.writtenBaseline = some sequence) (entry : after = ledger.baseline sequence)
      (plain : next.plain = true)

/-- The file calls outside snapshot writing and the removal of segments succeed. -/
def Choice.permitted : Choice → Bool
  | .indeterminate | .catalog _ true => false
  | _ => true

section Moves
variable {runtime after : CommitRuntime} {choice : Choice} {next : Task}

/-- The ledger stays, and the next stage relies on nothing. -/
theorem LedgerEffect.rest {ledger after : Ledger} {task next : Task} (same : after = ledger)
    (plain : next.plain = true) (steady : task.replacing = false) : LedgerEffect ledger task after next :=
  .kept same (fun _ => fits_of_plain plain ledger) ((replacing_of_plain plain).trans steady.symm)

theorem moveCommit_ledger {stage : CommitStage} (moved : moveCommit runtime stage choice = some (after, next)) :
    LedgerEffect runtime.ledger (.commit stage) after.ledger next := by
  cases stage with
  | waitingForBudget =>
      cases choice <;> try cases moved
      simp only [moveCommit] at moved
      split at moved <;> cases moved
      exact .rest rfl rfl rfl
  | acquiring =>
      cases choice <;> cases moved
      exact .rest rfl rfl rfl
  | atBoundary =>
      cases choice <;> cases moved
      exact .rest rfl rfl rfl
  | admitted =>
      cases choice with
      | records records =>
          simp only [moveCommit] at moved
          split at moved
          · rename_i accepting
            cases moved
            obtain ⟨present, follows, entry⟩ := acceptNextBatches_ledger accepting
            exact .accepted rfl rfl records present follows entry rfl
          · cases moved
            exact .rest rfl rfl rfl
      | _ =>
          cases moved <;> exact .rest rfl rfl rfl
  | persisted =>
      cases choice <;> cases moved
      exact .rest (requestMaintenanceIfNeeded_ledger _) rfl rfl

theorem moveInstall_ledger {sequence entryCount : Nat} {stage : InstallStage}
    (permitted : choice.permitted = true)
    (moved : moveInstall runtime sequence entryCount stage choice = some (after, next)) :
    LedgerEffect runtime.ledger (.install sequence entryCount stage) after.ledger next := by
  cases stage with
  | waitingForBudget =>
      cases choice <;> try cases moved
      simp only [moveInstall] at moved
      split at moved <;> cases moved
      exact .rest rfl rfl rfl
  | atBoundary =>
      cases choice <;> cases moved
      cases runtime.compactionWriteBudgetAllowsProgress <;> exact .rest rfl rfl rfl
  | admitted =>
      cases choice <;> cases moved
      · exact .truncated (fun gate => by cases gate <;> rfl) rfl ⟨nofun, nofun, fun _ => ⟨rfl, rfl⟩, nofun, rfl⟩ rfl
      · exact .rest rfl rfl rfl
      · cases permitted
  | truncated =>
      cases choice <;> cases moved
      · refine .written rfl sequence rfl (fun fits => ⟨nofun, nofun, fun _ => fits.emptied rfl, ?_, rfl⟩) rfl
        intro baseline found
        cases found
        rfl
      · cases permitted
  | written =>
      cases choice <;> cases moved
      · exact .installed rfl sequence rfl rfl rfl
      · cases permitted
  | _ =>
      cases choice <;> cases moved
      all_goals exact .rest rfl rfl rfl

/-- A supervisor leaves the ledger alone. -/
theorem supervised_ledger {task : Task} {supervisor : SupervisorStage} (place : Option SupervisorStage → Task)
    (steady : task.replacing = false) (fits : ∀ stage, task.Fits runtime.ledger → (place stage).Fits runtime.ledger)
    (replacing : ∀ stage, (place stage).replacing = false)
    (moved : (moveSupervisor runtime supervisor choice).map (fun (runtime, stage) => (runtime, place stage)) =
      some (after, next)) : LedgerEffect runtime.ledger task after.ledger next := by
  obtain ⟨⟨supervised, stage⟩, moving, placed⟩ := Option.map_eq_some_iff.mp moved
  cases placed
  exact .kept (moveSupervisor_ledger moving) (fits stage) ((replacing stage).trans steady.symm)

/-- A seal by a task that found room in the catalog, and what the task does after each outcome. -/
theorem sealing_ledger {task kept failed : Task} {counted : CommitRuntime → Task} {bound : Nat}
    (rotation : task.holds .rotation = true) (boundary : task.holds .boundary = true)
    (steady : task.replacing = false) (seals : task.seals = true) (room : task.room = some bound)
    (within : bound ≤ maxBinlogSegments) (plain : kept.plain = true)
    (fits : ∀ runtime : CommitRuntime, runtime.ledger.Sound → (counted runtime).Fits runtime.ledger)
    (still : ∀ runtime, (counted runtime).replacing = false) (stopped : failed.replacing = false)
    (moved : (match sealGeneration runtime with
      | none => some (runtime, kept)
      | some (runtime, true) => some (runtime, counted runtime)
      | some (runtime, false) => some (runtime.releaseCompactionWriteBudget, failed)) = some (after, next)) :
    LedgerEffect runtime.ledger task after.ledger next := by
  have enough : task.Fits runtime.ledger → runtime.ledger.physicalSegmentCount < maxBinlogSegments :=
    fun relied => Nat.lt_of_lt_of_le (relied.room bound room) within
  split at moved
  · cases moved
    exact .rest rfl plain steady
  · rename_i done
    cases moved
    rcases sealGeneration_ledger done with ⟨_, _, same⟩ | ⟨active, rotated⟩
    · refine .settled boundary steady same ?_ (still _)
      intro sound
      have relied := fits after
      rw [same sound] at relied
      exact relied sound
    · exact .rotated rotation boundary steady seals active (fun relied => (rotated (enough relied)).2)
        (fun _ sound => fits after sound) (still _)
  · rename_i done
    cases moved
    rcases sealGeneration_ledger done with ⟨_, impossible, _⟩ | ⟨active, rotated⟩
    · cases impossible
    · refine .rotated rotation boundary steady seals active ?_ ?_ stopped
      · intro relied
        cases (rotated (enough relied)).1
      · intro relied
        cases (rotated (enough relied)).1

theorem moveRollover_ledger {stage : RolloverStage} (permitted : choice.permitted = true)
    (moved : moveRollover runtime stage choice = some (after, next)) :
    LedgerEffect runtime.ledger (.rollover stage) after.ledger next := by
  cases stage with
  | entered =>
      cases choice <;> cases moved
      by_cases empty : runtime.activeBinlogBytes = 0
      · rw [if_pos empty]
        exact .rest rfl rfl rfl
      · rw [if_neg empty]
        exact .rest rfl rfl rfl
  | refreshing =>
      cases choice with
      | catalog fails lost =>
          cases lost with
          | true => cases permitted
          | false =>
              simp only [moveRollover, Option.some.injEq, Prod.mk.injEq] at moved
              obtain ⟨rfl, rfl⟩ := moved
              apply LedgerEffect.cleaned rfl rfl fails (refreshSegmentCatalog_ledger fails)
              cases (runtime.refreshSegmentCatalog fails false).2 <;> rfl
      | _ => cases moved
  | refreshed =>
      cases choice <;> try cases moved
      simp only [moveRollover] at moved
      split at moved
      · cases moved
        exact .rest rfl rfl rfl
      · rename_i below
        split at moved
        · rename_i activated
          cases moved
          refine .kept (activate_ledger activated) (fun _ => ⟨?_, nofun, nofun, nofun, rfl⟩) rfl
          intro bound found
          cases found
          exact Nat.not_le.mp below
        · cases moved
          exact .rest rfl rfl rfl
  | preflushing =>
      cases choice <;> cases moved
      · exact .kept rfl (fun relied => ⟨relied.room, nofun, nofun, nofun, rfl⟩) rfl
      · exact .rest rfl rfl rfl
  | acquiring =>
      cases choice <;> cases moved
      exact .kept rfl (fun relied => ⟨relied.room, nofun, nofun, nofun, rfl⟩) rfl
  | atBoundary =>
      cases choice with
      | go =>
          exact sealing_ledger rfl rfl rfl rfl rfl rolloverLimit_le rfl (fun _ _ => fits_of_plain rfl _)
            (fun _ => rfl) rfl moved
      | _ => cases moved <;> exact .rest rfl rfl rfl
  | closing ownsBudget succeeded =>
      cases ownsBudget <;> cases choice <;> cases moved
      all_goals exact .rest rfl rfl rfl
  | panicked failed supervisor =>
      apply supervised_ledger (fun stage => .rollover (stage.elim (.finished false) (.panicked failed)))
        rfl _ _ moved
      · intro stage relied
        cases stage with
        | none => exact fits_of_plain rfl _
        | some stage => exact ⟨nofun, nofun, nofun, nofun, by cases failed <;> exact relied.asserted⟩
      · intro stage
        cases stage <;> rfl
  | finished succeeded =>
      cases choice <;> cases moved
      exact .rest (finishRolloverScheduleAndRearm_ledger _ _) rfl rfl
  | _ =>
      cases choice <;> cases moved
      all_goals exact .rest rfl rfl rfl

theorem moveCompaction_ledger {automatic : Bool} {stage : CompactionStage} (permitted : choice.permitted = true)
    (moved : moveCompaction runtime automatic stage choice = some (after, next)) :
    LedgerEffect runtime.ledger (.compaction automatic stage) after.ledger next := by
  cases stage with
  | entered =>
      cases choice with
      | catalog fails lost =>
          cases lost with
          | true => cases permitted
          | false =>
              simp only [moveCompaction, Option.some.injEq, Prod.mk.injEq] at moved
              obtain ⟨rfl, rfl⟩ := moved
              apply LedgerEffect.cleaned rfl rfl fails (refreshSegmentCatalog_ledger fails)
              cases (runtime.refreshSegmentCatalog fails false).2 <;> rfl
      | _ => cases moved
  | refreshed =>
      cases choice <;> try cases moved
      simp only [moveCompaction] at moved
      split at moved
      · rename_i below
        split at moved
        · rename_i activated
          cases moved
          refine .kept (activate_ledger activated) (fun _ => ⟨?_, nofun, nofun, nofun, rfl⟩) rfl
          intro bound found
          cases found
          exact below
        · cases moved
          exact .rest rfl rfl rfl
      · cases moved
        exact .rest rfl rfl rfl
  | preflushing =>
      cases choice <;> cases moved
      · exact .kept rfl (fun relied => ⟨relied.room, nofun, nofun, nofun, rfl⟩) rfl
      · exact .rest rfl rfl rfl
  | acquiring seals =>
      cases seals <;> cases choice <;> cases moved
      · exact .rest rfl rfl rfl
      · exact .kept rfl (fun relied => ⟨relied.room, nofun, nofun, nofun, rfl⟩) rfl
  | atBoundary seals =>
      have captures : ∀ (seals : Bool) (runtime : CommitRuntime), runtime.ledger.Sound →
          (Task.compaction automatic (.captured (capture runtime seals))).Fits runtime.ledger := by
        intro seals runtime sound
        refine ⟨nofun, ?_, nofun, nofun, rfl⟩
        intro pending found
        cases found
        exact sound.covers rfl rfl rfl
      cases seals with
      | true =>
          cases choice with
          | go =>
              exact sealing_ledger rfl rfl rfl rfl rfl (Nat.le_refl _) rfl (captures true) (fun _ => rfl)
                rfl moved
          | _ => cases moved <;> exact .rest rfl rfl rfl
      | false =>
          cases choice <;> cases moved
          exact .settled rfl rfl (fun _ => rfl) (captures false runtime) rfl
  | captured capture =>
      cases choice <;> cases moved
      exact .kept rfl (fun relied => ⟨nofun, relied.covers, nofun, nofun, rfl⟩) rfl
  | boundaryDropped capture =>
      cases choice <;> cases moved
      exact .kept rfl (fun relied => ⟨nofun, relied.covers, nofun, nofun, rfl⟩) rfl
  | rotationDropped capture =>
      cases choice <;> cases moved
      refine .kept ?_ (fun relied => ⟨nofun, relied.covers, nofun, nofun, rfl⟩) rfl
      cases capture.sealGeneration <;> rfl
  | writing capture =>
      cases choice <;> cases moved
      · refine .snapshotted rfl rfl capture rfl rfl (fun relied => ⟨nofun, ?_, nofun, nofun, rfl⟩) rfl
        intro pending found
        have covers := relied.covers pending found
        exact ⟨covers.low, covers.high, covers.writes, covers.segments⟩
      · rename_i installed
        cases installed with
        | true => exact .snapshotted rfl rfl capture rfl rfl (fun _ => fits_of_plain rfl _) rfl
        | false => exact .rest rfl rfl rfl
  | finalAcquiring capture entryCount =>
      cases choice <;> cases moved
      exact .kept rfl (fun relied => ⟨nofun, relied.covers, nofun, nofun, rfl⟩) rfl
  | finalizing capture entryCount =>
      cases choice <;> cases moved
      · exact .finalized rfl rfl rfl capture rfl rfl rfl
      · exact .rest rfl rfl rfl
      · exact .rest rfl rfl rfl
  | cleaning =>
      cases choice with
      | catalog fails lost =>
          cases lost with
          | true => cases permitted
          | false =>
              simp only [moveCompaction, Option.some.injEq, Prod.mk.injEq] at moved
              obtain ⟨rfl, rfl⟩ := moved
              exact .cleaned rfl rfl fails (refreshSegmentCatalog_ledger fails) rfl
      | _ => cases moved
  | closing ownsBudget =>
      cases ownsBudget <;> cases choice <;> cases moved
      all_goals exact .rest rfl rfl rfl
  | panicked failed supervisor =>
      apply supervised_ledger
        (fun stage => .compaction automatic (stage.elim (.finished false) (.panicked failed))) rfl _ _ moved
      · intro stage relied
        cases stage with
        | none => exact fits_of_plain rfl _
        | some stage => exact ⟨nofun, nofun, nofun, nofun, by cases failed <;> exact relied.asserted⟩
      · intro stage
        cases stage <;> rfl
  | finished succeeded =>
      cases automatic <;> cases choice <;> cases moved
      · exact .rest rfl rfl rfl
      · exact .rest (finishCompactionScheduleAndRearm_ledger _ _) rfl rfl
  | _ =>
      cases choice <;> cases moved
      all_goals exact .rest rfl rfl rfl

theorem move_ledger {task : Task} (permitted : choice.permitted = true)
    (moved : move runtime task choice = some (after, next)) :
    LedgerEffect runtime.ledger task after.ledger next := by
  cases task with
  | idle => cases moved
  | scheduling request => cases moved
  | commit stage => exact moveCommit_ledger moved
  | rollover stage => exact moveRollover_ledger permitted moved
  | compaction automatic stage => exact moveCompaction_ledger permitted moved
  | install sequence entryCount stage => exact moveInstall_ledger permitted moved

end Moves

/-- In a reachable system the ledger is sound unless an install is replacing the files, and every task
finds what it relies on. -/
structure Accounted (system : System) : Prop where
  guarded : Guarded Task.holds system
  fits : ∀ task, (system.stage task).Fits system.shared.ledger
  sound : (∀ task, (system.stage task).replacing = false) → system.shared.ledger.Sound

/-- A generation with records is sealed at a sequence that neither the snapshot nor a pending capture
covers. -/
def SealsFresh (system : System) (task : Nat) : Prop :=
  (system.stage task).seals = true → system.shared.disk.active ≠ [] →
    system.shared.snapshotWatermark < system.shared.sequence ∧
    ∀ other capture, (system.stage other).pendingCapture = some capture →
      capture.watermark < system.shared.sequence

/-- Moves with permitted choices that seal nothing which a snapshot covers. -/
def Allowed (system : System) : Action → Prop
  | .move task choice => choice.permitted = true ∧ SealsFresh system task
  | _ => True

section Others
variable {system : System} {task other : Nat}

theorem not_holds_of_ne (guarded : Guarded Task.holds system) (different : other ≠ task) {gate : Gate}
    (held : (system.stage task).holds gate = true) : (system.stage other).holds gate = false := by
  cases also : (system.stage other).holds gate with
  | false => rfl
  | true => exact absurd (guarded.exclusive also held) different

/-- Nobody replaces the files while a task that does not holds a gate. -/
theorem steady_of_holds (guarded : Guarded Task.holds system) {gate : Gate}
    (held : (system.stage task).holds gate = true) (steady : (system.stage task).replacing = false)
    (other : Nat) : (system.stage other).replacing = false := by
  cases replacing : (system.stage other).replacing with
  | false => rfl
  | true =>
      have same := guarded.exclusive (holds_of_replacing replacing gate) held
      rw [same, steady] at replacing
      cases replacing

theorem room_eq_none (guarded : Guarded Task.holds system) (different : other ≠ task)
    (held : (system.stage task).holds .rotation = true) : (system.stage other).room = none := by
  cases found : (system.stage other).room with
  | none => rfl
  | some bound =>
      have free := not_holds_of_ne guarded different held
      rw [holds_rotation_of_room found] at free
      cases free

theorem pendingCapture_eq_none (guarded : Guarded Task.holds system) (different : other ≠ task)
    (held : (system.stage task).holds .compaction = true) : (system.stage other).pendingCapture = none := by
  cases found : (system.stage other).pendingCapture with
  | none => rfl
  | some capture =>
      have free := not_holds_of_ne guarded different held
      rw [holds_compaction_of_pendingCapture found] at free
      cases free

/-- What a task that replaces nothing relies on is its room in the catalog and its capture. -/
theorem fits_of_steady {task : Task} {before after : Ledger} (fits : task.Fits before)
    (steady : task.replacing = false)
    (room : ∀ bound, task.room = some bound → before.physicalSegmentCount < bound →
      after.physicalSegmentCount < bound)
    (covers : ∀ capture, task.pendingCapture = some capture → before.Covers capture → after.Covers capture) :
    task.Fits after := by
  constructor
  · exact fun bound found => room bound found (fits.room bound found)
  · exact fun capture found => covers capture found (fits.covers capture found)
  · intro replacing
    rw [steady] at replacing
    cases replacing
  · intro sequence found
    rw [replacing_of_writtenBaseline found] at steady
    cases steady
  · exact fits.asserted

/-- Beside a task that holds every gate, the others rely on nothing. -/
theorem fits_of_gates (guarded : Guarded Task.holds system) (different : other ≠ task)
    (gates : ∀ gate, (system.stage task).holds gate = true) {ledger : Ledger}
    (fits : (system.stage other).Fits ledger) (after : Ledger) : (system.stage other).Fits after := by
  have steady : (system.stage other).replacing = false := by
    cases replacing : (system.stage other).replacing with
    | false => rfl
    | true =>
        have free := not_holds_of_ne guarded different (gates .boundary)
        rw [holds_of_replacing replacing] at free
        cases free
  apply fits_of_steady fits steady
  · intro bound found
    rw [room_eq_none guarded different (gates .rotation)] at found
    cases found
  · intro capture found
    rw [pendingCapture_eq_none guarded different (gates .compaction)] at found
    cases found

theorem covers_accepted {ledger : Ledger} {capture : Capture} (covers : ledger.Covers capture)
    {records : List LogRecord} (present : records ≠ [])
    (follows : CommitRuntime.consecutive (ledger.sequence + 1) records = true) :
    (ledger.accepted records).Covers capture := by
  obtain ⟨total, _, _, _⟩ := maxSequence_consecutive present follows
  have high := covers.high
  refine ⟨covers.low, ?_, covers.writes, covers.segments⟩
  simp only [Ledger.accepted]
  omega

theorem covers_cleaned {ledger : Ledger} {capture : Capture} (covers : ledger.Covers capture)
    (fails : Nat → Bool) : (ledger.cleaned fails).Covers capture := by
  refine ⟨covers.low, covers.high, covers.writes, ?_⟩
  simp only [Ledger.cleaned]
  rw [segmentsWithin_filter (Nat.le_refl _), covers.segments]

theorem covers_rotated {ledger : Ledger} {capture : Capture} (covers : ledger.Covers capture)
    (fresh : capture.watermark < ledger.sequence) : ledger.rotated.Covers capture := by
  refine ⟨covers.low, covers.high, covers.writes, ?_⟩
  have beyond : ¬ ledger.sequence ≤ capture.watermark := Nat.not_le.mpr fresh
  simp only [Ledger.rotated, segmentsWithin_append, List.length_append, covers.segments]
  simp [segmentsWithin, beyond]

/-- What the others rely on survives a move. -/
theorem fits_others (accounted : Accounted system) {after : Ledger} {next : Task}
    (fresh : SealsFresh system task)
    (effect : LedgerEffect system.shared.ledger (system.stage task) after next) (different : other ≠ task) :
    (system.stage other).Fits after := by
  have relied := accounted.fits other
  have quiet := accounted.guarded
  cases effect with
  | kept same _ _ =>
      rw [same]
      exact relied
  | settled boundary steady same _ _ =>
      rw [same (accounted.sound (steady_of_holds quiet boundary steady))]
      exact relied
  | accepted boundary steady records present follows entry _ =>
      have calm := steady_of_holds quiet boundary steady
      rw [entry (accounted.sound calm)]
      exact fits_of_steady relied (calm other) (fun _ _ below => below)
        (fun _ _ covers => covers_accepted covers present follows)
  | cleaned rotation steady fails entry _ =>
      have calm := steady_of_holds quiet rotation steady
      rw [entry (accounted.sound calm)]
      apply fits_of_steady relied (calm other)
      · intro bound found
        rw [room_eq_none quiet different rotation] at found
        cases found
      · exact fun _ _ covers => covers_cleaned covers fails
  | rotated rotation boundary steady seals active entry _ _ =>
      have calm := steady_of_holds quiet rotation steady
      rw [entry (accounted.fits task)]
      apply fits_of_steady relied (calm other)
      · intro bound found
        rw [room_eq_none quiet different rotation] at found
        cases found
      · exact fun capture found covers => covers_rotated covers ((fresh seals active).2 other capture found)
  | snapshotted compaction steady capture _ entry _ _ =>
      rw [entry]
      refine fits_of_steady relied (steady_of_holds quiet compaction steady other) (fun _ _ below => below) ?_
      intro pending found
      rw [pendingCapture_eq_none quiet different compaction] at found
      cases found
  | finalized compaction boundary steady capture _ entry _ =>
      rw [entry]
      refine fits_of_steady relied (steady_of_holds quiet compaction steady other) (fun _ _ below => below) ?_
      intro pending found
      rw [pendingCapture_eq_none quiet different compaction] at found
      cases found
  | truncated gates _ _ _ => exact fits_of_gates quiet different gates relied after
  | written replacing _ _ _ _ =>
      exact fits_of_gates quiet different (holds_of_replacing replacing) relied after
  | installed replacing _ _ _ _ =>
      exact fits_of_gates quiet different (holds_of_replacing replacing) relied after

end Others

section Steps
variable {system after : System}

theorem accounted_move (accounted : Accounted system) {task : Nat} {choice : Choice} {runtime : CommitRuntime}
    {next : Task} (permitted : choice.permitted = true) (fresh : SealsFresh system task)
    (moved : move system.shared (system.stage task) choice = some (runtime, next))
    (guarded : Guarded Task.holds after) (shared : after.shared = runtime)
    (stage : after.stage = Function.update system.stage task next) : Accounted after := by
  have effect := move_ledger permitted moved
  rw [← shared] at effect
  have here : after.stage task = next := by rw [stage, Function.update_self]
  have elsewhere : ∀ other, other ≠ task → after.stage other = system.stage other := by
    intro other different
    rw [stage, Function.update_of_ne different]
  have relied := accounted.fits task
  have others : ∀ other, other ≠ task → (after.stage other).Fits after.shared.ledger := by
    intro other different
    rw [elsewhere other different]
    exact fits_others accounted fresh effect different
  have together : next.Fits after.shared.ledger → ∀ other, (after.stage other).Fits after.shared.ledger := by
    intro fits other
    by_cases different : other = task
    · rw [different, here]
      exact fits
    · exact others other different
  have unchanged : next.replacing = (system.stage task).replacing →
      (∀ other, (after.stage other).replacing = false) → ∀ other, (system.stage other).replacing = false := by
    intro same calm other
    by_cases different : other = task
    · rw [different, ← same, ← here]
      exact calm task
    · rw [← elsewhere other different]
      exact calm other
  cases effect with
  | kept same fits replacing =>
      refine ⟨guarded, together (by rw [same]; exact fits relied), ?_⟩
      intro calm
      rw [same]
      exact accounted.sound (unchanged replacing calm)
  | settled boundary steady same fits replacing =>
      have sound := accounted.sound (steady_of_holds accounted.guarded boundary steady)
      refine ⟨guarded, together (by rw [same sound]; exact fits sound), ?_⟩
      intro _
      rw [same sound]
      exact sound
  | accepted boundary steady records present follows entry plain =>
      have sound := accounted.sound (steady_of_holds accounted.guarded boundary steady)
      refine ⟨guarded, together (fits_of_plain plain _), ?_⟩
      intro _
      rw [entry sound]
      exact sound.accepted present follows
  | cleaned rotation steady fails entry plain =>
      have sound := accounted.sound (steady_of_holds accounted.guarded rotation steady)
      refine ⟨guarded, together (fits_of_plain plain _), ?_⟩
      intro _
      rw [entry sound]
      exact sound.cleaned fails
  | rotated rotation boundary steady seals active entry fits replacing =>
      have sound := accounted.sound (steady_of_holds accounted.guarded rotation steady)
      have below : system.shared.ledger.physicalSegmentCount < maxBinlogSegments := by
        obtain ⟨bound, found, within⟩ := room_of_seals seals
        exact Nat.lt_of_lt_of_le (relied.room bound found) within
      have rotated : after.shared.ledger.Sound := by
        rw [entry relied]
        exact sound.rotated active (fresh seals active).1 below
      exact ⟨guarded, together (fits relied rotated), fun _ => rotated⟩
  | snapshotted compaction steady capture pending entry fits replacing =>
      have sound := accounted.sound (steady_of_holds accounted.guarded compaction steady)
      refine ⟨guarded, together (fits relied), ?_⟩
      intro _
      rw [entry]
      exact sound.snapshotted (relied.covers capture pending).high
  | finalized compaction boundary steady capture pending entry plain =>
      have sound := accounted.sound (steady_of_holds accounted.guarded compaction steady)
      refine ⟨guarded, together (fits_of_plain plain _), ?_⟩
      intro _
      rw [entry]
      exact sound.finalized (relied.covers capture pending)
  | truncated gates entry fits replacing =>
      refine ⟨guarded, together fits, ?_⟩
      intro calm
      have busy := calm task
      rw [here, replacing] at busy
      cases busy
  | written gates sequence entry fits replacing =>
      refine ⟨guarded, together (fits relied), ?_⟩
      intro calm
      have busy := calm task
      rw [here, replacing] at busy
      cases busy
  | installed gates sequence baseline entry plain =>
      refine ⟨guarded, together (fits_of_plain plain _), ?_⟩
      intro _
      rw [entry]
      have emptied := relied.emptied gates
      exact Ledger.Sound.baseline emptied.1 emptied.2 (relied.written sequence baseline)

/-- A system that has just started relies on a sound ledger alone. -/
theorem accounted_startup {disk : Disk} {recovery : Persistence.Recovery.RecoveryState} {totalKeys : Nat}
    (sound : (startup disk recovery totalKeys).shared.ledger.Sound) :
    Accounted (startup disk recovery totalKeys) := by
  refine ⟨guarded_startup disk recovery totalKeys, ?_, fun _ => sound⟩
  intro task
  apply fits_of_plain
  simp only [startup]
  split <;> rfl

/-- The files of a reachable system can be recovered in order, whether or not an install replaces them. -/
theorem Accounted.ordered (accounted : Accounted system) : system.shared.disk.Ordered := by
  intro present
  by_cases steady : ∀ task, (system.stage task).replacing = false
  · have sound := accounted.sound steady
    have last := sound.last present
    constructor
    · exact Nat.le_trans sound.installed (Nat.le_of_eq last.symm)
    · intro segment member
      exact Nat.le_trans (sound.named segment member).2 (Nat.le_of_eq last.symm)
  · obtain ⟨task, replacing⟩ := not_forall.mp steady
    have emptied := (accounted.fits task).emptied (by simpa using replacing)
    exact absurd emptied.2 present

theorem Accounted.replace {system after : System} {task : Nat} {next : Task} (accounted : Accounted system)
    (before : (system.stage task).resting = true) (rests : next.resting = true)
    (advanced : system.advance task system.shared next = some after) : Accounted after := by
  obtain ⟨_, shared, stage⟩ := advance_some advanced
  refine ⟨guarded_advance accounted.guarded advanced, ?_, ?_⟩
  · intro other
    rw [shared, stage]
    by_cases here : other = task
    · rw [here, Function.update_self]
      exact fits_of_plain (plain_of_resting rests) _
    · rw [Function.update_of_ne here]
      exact accounted.fits other
  · intro calm
    rw [shared]
    apply accounted.sound
    intro other
    by_cases here : other = task
    · rw [here]
      exact replacing_of_plain (plain_of_resting before)
    · have same := calm other
      rw [stage, Function.update_of_ne here] at same
      exact same

theorem accounted_step (accounted : Accounted system) {action : Action} (allowed : Allowed system action)
    (stepped : step system action = some after) : Accounted after := by
  have guarded := guarded_step accounted.guarded stepped
  rcases step_cases stepped with ⟨task, choice, runtime, next, rfl, moved, advanced⟩ |
    ⟨fails, totalKeys, disk, recovery, rfl, loaded, rfl⟩ | administered
  · obtain ⟨_, shared, stage⟩ := advance_some advanced
    exact accounted_move accounted allowed.1 allowed.2 moved guarded shared stage
  · exact accounted_startup (sound_startup accounted.ordered loaded totalKeys)
  · exact administered.keeps Accounted.replace accounted

theorem accounted_initial : Accounted initial := by
  apply accounted_startup
  simp only [startup, requestMaintenanceIfNeeded_ledger]
  constructor
  · exact ⟨⟨Nat.le_refl _, rfl⟩, rfl, rfl, rfl⟩
  · exact Nat.le_refl _
  · intro _ member
    cases member
  · rfl
  · exact fun present => absurd rfl present
  · exact Nat.zero_le _

/-- In every run of commits, rollovers, compactions, installs and restarts in which no generation is
sealed that a snapshot covers, the counters describe the disk whenever neither the commit boundary nor
the rotation gate is held, the catalog keeps its limit and the assertion on it never fails. -/
theorem run_counters_describe {actions : List Action} {system : System}
    (allowed : Along step Allowed initial actions) (ran : run step initial actions = some system) :
    (system.holder .boundary = none → system.holder .rotation = none → system.shared.ledger.Describes) ∧
    system.shared.disk.segments.length ≤ maxBinlogSegments ∧
    ∀ task, (system.stage task).catalogFailed = false := by
  have accounted := run_keeps Accounted (fun _ _ _ accounted allowed stepped =>
    accounted_step accounted allowed stepped) actions initial system accounted_initial allowed ran
  refine ⟨?_, ?_, fun task => (accounted.fits task).asserted⟩
  · intro boundary _
    apply Ledger.Sound.toDescribes
    apply accounted.sound
    intro task
    cases replacing : (system.stage task).replacing with
    | false => rfl
    | true =>
        have free := accounted.guarded.free boundary task
        rw [holds_of_replacing replacing] at free
        cases free
  · by_cases steady : ∀ task, (system.stage task).replacing = false
    · exact (accounted.sound steady).room
    · obtain ⟨task, replacing⟩ := not_forall.mp steady
      have emptied := (accounted.fits task).emptied (by simpa using replacing)
      have segments : system.shared.disk.segments = [] := emptied.1
      rw [segments]
      exact Nat.zero_le _

end Steps

end OnyxDB.Maintenance
