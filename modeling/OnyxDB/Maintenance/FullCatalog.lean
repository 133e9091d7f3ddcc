import OnyxDB.Maintenance.Counters

/-! Compactions on a catalog without room.

At the segment limit a compaction takes its snapshot without sealing the active generation. The records
of that generation are covered by the snapshot, and a seal before the next commit makes a segment of
them that the runtime counts as not covered. -/

namespace OnyxDB.Maintenance
open OnyxDB.Library.Tasks OnyxDB.Persistence

/-- One task runs alone. -/
def solo (runtime : CommitRuntime) (task : Task) : System where
  shared := runtime
  holder := fun gate => if task.holds gate then some 1 else none
  stage := Function.update (fun _ => .idle) 1 task

section Alone
variable {runtime after : CommitRuntime} {task next : Task} {choice : Choice} {rest : List Action}

theorem solo_stage : (solo runtime task).stage 1 = task := by simp [solo]

theorem solo_advance (opened : runtime.failStopVisibilityGuard = false) (after : CommitRuntime) (next : Task) :
    (solo runtime task).advance 1 after next = some (solo after next) := by
  unfold System.advance Pool.advance
  rw [solo_stage, if_pos]
  · congr 1
    simp only [solo, Function.update_idem, Pool.mk.injEq, true_and, and_true]
    funext gate
    cases next.holds gate with
    | true => rfl
    | false => cases held : task.holds gate <;> simp
  · intro gate _ free
    refine ⟨by simp [solo, free], ?_⟩
    cases gate
    · rfl
    · rfl
    · exact opened

/-- A task that runs alone goes the way of its moves. -/
theorem solo_move (opened : runtime.failStopVisibilityGuard = false)
    (moved : move runtime task choice = some (after, next)) :
    run step (solo runtime task) (.move 1 choice :: rest) = run step (solo after next) rest := by
  have stepped : step (solo runtime task) (.move 1 choice) = some (solo after next) := by
    simp only [step, solo_stage]
    rw [show (solo runtime task).shared = runtime from rfl, moved]
    exact solo_advance opened after next
  simp only [run, stepped, Option.bind_some]

theorem solo_arrive (opened : runtime.failStopVisibilityGuard = false) (arrival : Arrival) :
    run step (solo runtime .idle) (.arrive 1 arrival :: rest) = run step (solo runtime arrival.task) rest := by
  have stepped : step (solo runtime .idle) (.arrive 1 arrival) = some (solo runtime arrival.task) := by
    simp only [step, solo_stage, if_true]
    exact solo_advance opened runtime arrival.task
  simp only [run, stepped, Option.bind_some]

theorem solo_scheduled (opened : runtime.failStopVisibilityGuard = false) :
    run step (solo runtime (.scheduling ⟨false, false⟩)) (.schedule 1 1 :: rest) =
      run step (solo runtime .idle) rest := by
  have stepped : step (solo runtime (.scheduling ⟨false, false⟩)) (.schedule 1 1) = some (solo runtime .idle) := by
    simp only [step, System.schedule, solo_stage, nextScheduled]
    exact solo_advance opened runtime .idle
  simp only [run, stepped, Option.bind_some]

theorem progress_alone (opened : runtime.compactionWriteBudgetLimit = writeBudgetOpen)
    (pending : runtime.rolloverPending = false)
    (small : runtime.activeBinlogBytes < binlogGenerationAdmissionLimitBytes) :
    runtime.compactionWriteBudgetAllowsProgress = true := by
  have below : ¬ binlogGenerationAdmissionLimitBytes ≤ runtime.activeBinlogBytes := Nat.not_le.mpr small
  simp [CommitRuntime.compactionWriteBudgetAllowsProgress, CommitRuntime.rolloverBackpressureActive,
    CommitRuntime.segmentCatalogBackpressureActive, opened, pending, below]

/-- A commit alone, after which no maintenance is due. -/
theorem solo_commit {records : List LogRecord} (opened : runtime.failStopVisibilityGuard = false)
    (progress : runtime.compactionWriteBudgetAllowsProgress = true)
    (accepted : runtime.acceptNextBatches records = some after)
    (still : after.failStopVisibilityGuard = false)
    (requested : after.requestMaintenanceIfNeeded compactionThreshold = (after, ⟨false, false⟩)) :
    run step (solo runtime .idle) (.arrive 1 .commit :: .move 1 .go :: .move 1 .go :: .move 1 .go ::
      .move 1 (.records records) :: .move 1 .go :: .schedule 1 1 :: rest) =
    run step (solo after .idle) rest := by
  have waited : move runtime (.commit .waitingForBudget) .go = some (runtime, .commit .acquiring) := by
    simp [move, moveCommit, progress]
  have acquired : move runtime (.commit .acquiring) .go = some (runtime, .commit .atBoundary) := rfl
  have admitted : move runtime (.commit .atBoundary) .go = some (runtime, .commit .admitted) := by
    simp [move, moveCommit, progress]
  have persisted : move runtime (.commit .admitted) (.records records) = some (after, .commit .persisted) := by
    simp [move, moveCommit, accepted]
  have finished : move after (.commit .persisted) .go = some (after, .scheduling ⟨false, false⟩) := by
    simp [move, moveCommit, requested]
  calc
    _ = _ := solo_arrive opened .commit
    _ = _ := solo_move opened waited
    _ = _ := solo_move opened acquired
    _ = _ := solo_move opened admitted
    _ = _ := solo_move opened persisted
    _ = _ := solo_move still finished
    _ = _ := solo_scheduled still

/-- A save alone up to its capture, on a catalog with room. -/
theorem solo_save_sealing {fails : Nat → Bool} {activated counted : CommitRuntime}
    (opened : runtime.failStopVisibilityGuard = false)
    (refreshed : runtime.refreshSegmentCatalog fails false = (after, true))
    (still : after.failStopVisibilityGuard = false)
    (room : after.physicalSegmentCount < maxBinlogSegments)
    (activating : after.activateCompactionWriteBudget = some activated)
    (awake : activated.failStopVisibilityGuard = false)
    (done : sealGeneration activated = some (counted, true)) (kept : counted.failStopVisibilityGuard = false) :
    run step (solo runtime .idle) (.arrive 1 .save :: .move 1 .go :: .move 1 .go ::
      .move 1 (.catalog fails false) :: .move 1 .go :: .move 1 .go :: .move 1 .go :: .move 1 .go ::
      .move 1 .go :: .move 1 .go :: .move 1 .go :: rest) =
    run step (solo counted.releaseCompactionWriteBudget
      (.compaction false (.writing (capture counted true)))) rest := by
  have entered : move runtime (.compaction false .entered) (.catalog fails false) =
      some (after, .compaction false .refreshed) := by
    simp [move, moveCompaction, refreshed]
  have started : move after (.compaction false .refreshed) .go =
      some (activated, .compaction false .preflushing) := by
    simp [move, moveCompaction, room, activating]
  have captured : move activated (.compaction false (.atBoundary true)) .go =
      some (counted, .compaction false (.captured (capture counted true))) := by
    simp [move, moveCompaction, done]
  calc
    _ = _ := solo_arrive opened .save
    _ = _ := solo_move opened rfl
    _ = _ := solo_move opened rfl
    _ = _ := solo_move opened entered
    _ = _ := solo_move still started
    _ = _ := solo_move awake rfl
    _ = _ := solo_move awake rfl
    _ = _ := solo_move awake captured
    _ = _ := solo_move kept rfl
    _ = _ := solo_move kept rfl
    _ = _ := solo_move kept rfl

/-- A save alone up to its capture, on a catalog without room. -/
theorem solo_save_full {fails : Nat → Bool} (opened : runtime.failStopVisibilityGuard = false)
    (refreshed : runtime.refreshSegmentCatalog fails false = (after, true))
    (still : after.failStopVisibilityGuard = false)
    (full : ¬ after.physicalSegmentCount < maxBinlogSegments) :
    run step (solo runtime .idle) (.arrive 1 .save :: .move 1 .go :: .move 1 .go ::
      .move 1 (.catalog fails false) :: .move 1 .go :: .move 1 .go :: .move 1 .go :: .move 1 .go ::
      .move 1 .go :: .move 1 .go :: rest) =
    run step (solo after (.compaction false (.writing (capture after false)))) rest := by
  have entered : move runtime (.compaction false .entered) (.catalog fails false) =
      some (after, .compaction false .refreshed) := by
    simp [move, moveCompaction, refreshed]
  have started : move after (.compaction false .refreshed) .go =
      some (after, .compaction false (.acquiring false)) := by
    simp [move, moveCompaction, full]
  calc
    _ = _ := solo_arrive opened .save
    _ = _ := solo_move opened rfl
    _ = _ := solo_move opened rfl
    _ = _ := solo_move opened entered
    _ = _ := solo_move still started
    _ = _ := solo_move still rfl
    _ = _ := solo_move still rfl
    _ = _ := solo_move still rfl
    _ = _ := solo_move still rfl
    _ = _ := solo_move still rfl

/-- The rest of a save whose snapshot is written. -/
theorem solo_save_written {fails : Nat → Bool} {captured : Capture} {cleaned : CommitRuntime × Bool}
    (opened : runtime.failStopVisibilityGuard = false)
    (refreshed : (finalizeCompaction (installSnapshot runtime captured.watermark) captured 0).refreshSegmentCatalog
      fails false = cleaned) (still : cleaned.1.failStopVisibilityGuard = false) :
    run step (solo runtime (.compaction false (.writing captured))) (.move 1 (.snapshot 0) :: .move 1 .go ::
      .move 1 .go :: .move 1 .go :: .move 1 (.catalog fails false) :: .move 1 .go :: .move 1 .go :: rest) =
    run step (solo cleaned.1 .idle) rest := by
  have finished : move (finalizeCompaction (installSnapshot runtime captured.watermark) captured 0)
      (.compaction false .cleaning) (.catalog fails false) =
      some (cleaned.1, .compaction false (.exiting true)) := by
    simp [move, moveCompaction, refreshed]
  have installed : (installSnapshot runtime captured.watermark).failStopVisibilityGuard = false := opened
  have finalized : (finalizeCompaction (installSnapshot runtime captured.watermark) captured
    0).failStopVisibilityGuard = false := opened
  have exited : move cleaned.1 (.compaction false (.exiting true)) .go =
    some (cleaned.1, .compaction false (.finished true)) := rfl
  have ended : move cleaned.1 (.compaction false (.finished true)) .go = some (cleaned.1, .idle) := rfl
  calc
    _ = _ := solo_move opened rfl
    _ = _ := solo_move installed rfl
    _ = _ := solo_move installed rfl
    _ = _ := solo_move finalized rfl
    _ = _ := solo_move finalized finished
    _ = _ := solo_move still exited
    _ = _ := solo_move still ended

/-- The rest of a save whose snapshot is not written. -/
theorem solo_save_failed {captured : Capture} (opened : runtime.failStopVisibilityGuard = false) :
    run step (solo runtime (.compaction false (.writing captured)))
      (.move 1 (.snapshotFailed false) :: .move 1 .go :: .move 1 .go :: rest) =
    run step (solo runtime .idle) rest := by
  calc
    _ = _ := solo_move opened rfl
    _ = _ := solo_move opened rfl
    _ = _ := solo_move opened rfl

end Alone

section Filling

def smallSegments (count : Nat) : List Segment :=
  (List.range count).map (fun index => ⟨index + 1, [smallRecord (index + 1)]⟩)

/-- The runtime after `count` commits, each followed by a save whose segments could not be removed. -/
def loaded (count : Nat) : CommitRuntime where
  writeCount := 0
  acceptedBinlogBytes := 64 * count
  activeBinlogBytes := 0
  unsnapshottedSegmentCount := 0
  physicalSegmentCount := count
  snapshotWatermark := count
  segmentCleanupBlocked := decide (0 < count)
  segmentCatalogUnavailable := false
  compactionEntryFloor := 0
  compactionWriteBudgetLimit := writeBudgetOpen
  compactionPending := false
  rolloverPending := false
  replOffset := count
  failStopStarted := false
  failStopVisibilityGuard := false
  disk := ⟨count, smallSegments count, []⟩

/-- One more commit. -/
def committed (count : Nat) : CommitRuntime :=
  { loaded count with
    writeCount := 1
    acceptedBinlogBytes := 64 * (count + 1)
    activeBinlogBytes := 64
    replOffset := count + 1
    disk := ⟨count, smallSegments count, [smallRecord (count + 1)]⟩ }

theorem smallSegments_length (count : Nat) : (smallSegments count).length = count := by
  simp [smallSegments]

theorem smallSegments_named {count : Nat} : ∀ segment ∈ smallSegments count,
    segment.wellFormed = true ∧ segment.endSequence ≤ count := by
  intro segment member
  obtain ⟨index, below, rfl⟩ := List.mem_map.mp member
  have below := List.mem_range.mp below
  refine ⟨?_, below⟩
  simp [Segment.wellFormed, Segment.matchesIdentity, inspectBinlog, maxSequence, smallRecord]

theorem smallSegments_succ (count : Nat) :
    smallSegments (count + 1) = smallSegments count ++ [⟨count + 1, [smallRecord (count + 1)]⟩] := by
  simp [smallSegments, List.range_succ]

/-- A pass over covered segments none of which can be removed. -/
theorem refresh_failing {runtime : CommitRuntime} {count : Nat} (segments : runtime.disk.segments = smallSegments count)
    (covered : count ≤ runtime.snapshotWatermark) :
    runtime.refreshSegmentCatalog (fun _ => true) false =
      ({ runtime with
        physicalSegmentCount := count
        segmentCleanupBlocked := decide (0 < count)
        segmentCatalogUnavailable := false }, true) := by
  have named : ∀ segment ∈ smallSegments count, segment.wellFormed = true :=
    fun segment member => (smallSegments_named segment member).1
  have failing : (smallSegments count).filter
      (fun segment => decide (segment.endSequence ≤ runtime.snapshotWatermark)) = smallSegments count := by
    apply List.filter_eq_self.mpr
    intro segment member
    exact decide_eq_true (Nat.le_trans (smallSegments_named segment member).2 covered)
  simp only [CommitRuntime.refreshSegmentCatalog, cleanupBinlogSegmentsThrough, segments,
    removeCovered_wellFormed _ _ named, Bool.or_true, List.filter_true, Bool.false_eq_true, if_false, if_true,
    CommitRuntime.applySegmentCatalogCleanup, failing, smallSegments_length]
  rw [← segments]

theorem commit_loaded {count : Nat} (room : count ≤ maxBinlogSegments) :
    (loaded count).acceptNextBatches [smallRecord (count + 1)] = some (committed count) := by
  have bound : count + 1 ≤ u64Max := by
    simp only [maxBinlogSegments] at room
    simp only [u64Max]
    omega
  have bytes : min (64 * count + 64) u64Max = 64 * (count + 1) := by
    simp only [maxBinlogSegments] at room
    simp only [u64Max]
    omega
  have follows : CommitRuntime.consecutive (count + 1) [smallRecord (count + 1)] = true := by
    simp [CommitRuntime.consecutive, bound, smallRecord]
  have appended : appendRecords (loaded count).disk [smallRecord (count + 1)] =
      some ⟨count, smallSegments count, [smallRecord (count + 1)]⟩ := by
    simp [appendRecords, loaded, fileLength, smallRecord, u64Max]
  have length : fileLength [smallRecord (count + 1)] = 64 := rfl
  unfold CommitRuntime.acceptNextBatches
  rw [if_neg (by simp), show (loaded count).sequence + 1 = count + 1 from rfl, if_pos follows, appended, length]
  simp only [Option.map_some, CommitRuntime.recordAcceptedBinlogBytes, loaded, committed, bytes]
  rfl

/-- After a commit no maintenance is due: the last pass over the catalog could not remove anything. -/
theorem request_committed (count : Nat) :
    (committed count).requestMaintenanceIfNeeded compactionThreshold =
      (committed count, ⟨false, false⟩) := by
  have snapshot : (committed count).snapshotDue compactionThreshold = false := by
    cases count with
    | zero => decide
    | succ count => simp [CommitRuntime.snapshotDue, committed, loaded, CommitRuntime.compactionRecordThreshold,
        compactionThreshold, maxUnsnapshottedBinlogSegments]
  have rollover : (committed count).rolloverDue = false := by
    simp [CommitRuntime.rolloverDue, committed, binlogGenerationTargetBytes]
  simp [CommitRuntime.requestMaintenanceIfNeeded, CommitRuntime.requestSnapshotIfNeeded,
    CommitRuntime.requestRolloverIfNeeded, snapshot, rollover]

/-- The actions of a commit alone. -/
def commitAlone (sequence : Nat) : List Action :=
  [.arrive 1 .commit, .move 1 .go, .move 1 .go, .move 1 .go, .move 1 (.records [smallRecord sequence]),
    .move 1 .go, .schedule 1 1]

theorem run_commitAlone {count : Nat} (room : count ≤ maxBinlogSegments) (rest : List Action) :
    run step (solo (loaded count) .idle) (commitAlone (count + 1) ++ rest) =
      run step (solo (committed count) .idle) rest := by
  have progress := progress_alone (show (loaded count).compactionWriteBudgetLimit = writeBudgetOpen from rfl)
    (show (loaded count).rolloverPending = false from rfl)
    (show (loaded count).activeBinlogBytes < binlogGenerationAdmissionLimitBytes by
      simp [loaded, binlogGenerationAdmissionLimitBytes, binlogGenerationTargetBytes])
  exact solo_commit rfl progress (commit_loaded room) rfl (request_committed count)

theorem refresh_committed (count : Nat) :
    (committed count).refreshSegmentCatalog (fun _ => true) false = (committed count, true) := by
  rw [@refresh_failing (committed count) count rfl (Nat.le_refl _)]
  rfl

/-- The generation of a runtime is sealed where its only record is the one at the current sequence. -/
def rotatedAt (runtime : CommitRuntime) (segments : List Segment) (count : Nat) : CommitRuntime :=
  { runtime with
    disk := ⟨runtime.disk.snapshotWatermark, segments ++ [⟨count + 1, [smallRecord (count + 1)]⟩], []⟩
    activeBinlogBytes := 0
    physicalSegmentCount := runtime.physicalSegmentCount + 1
    unsnapshottedSegmentCount := runtime.unsnapshottedSegmentCount + 1
    segmentCleanupBlocked := false }

theorem seal_small {runtime : CommitRuntime} {segments : List Segment} {count : Nat}
    (disk : runtime.disk = ⟨runtime.disk.snapshotWatermark, segments, [smallRecord (count + 1)]⟩)
    (sequence : runtime.sequence = count + 1) (absent : ∀ segment ∈ segments, segment.endSequence ≤ count)
    (room : runtime.physicalSegmentCount < maxBinlogSegments) :
    sealGeneration runtime = some (rotatedAt runtime segments count, true) := by
  have length : fileLength [smallRecord (count + 1)] = 64 := rfl
  have fresh : segments.any (fun segment => decide (segment.endSequence = count + 1)) = false := by
    apply List.any_eq_false.mpr
    intro segment member
    have below := absent segment member
    simp only [decide_eq_true_eq]
    omega
  unfold sealGeneration
  rw [disk, sequence]
  simp [sealActive, length, fresh, CommitRuntime.recordSealedSegment, room, rotatedAt]

/-- The actions of a save alone that seals its generation and cannot remove any segment. -/
def saveAlone : List Action :=
  [.arrive 1 .save, .move 1 .go, .move 1 .go, .move 1 (.catalog (fun _ => true) false), .move 1 .go,
    .move 1 .go, .move 1 .go, .move 1 .go, .move 1 .go, .move 1 .go, .move 1 .go, .move 1 (.snapshot 0),
    .move 1 .go, .move 1 .go, .move 1 .go, .move 1 (.catalog (fun _ => true) false), .move 1 .go, .move 1 .go]

theorem run_saveAlone {count : Nat} (room : count < maxBinlogSegments) (rest : List Action) :
    run step (solo (committed count) .idle) (saveAlone ++ rest) = run step (solo (loaded (count + 1)) .idle) rest := by
  let activated : CommitRuntime :=
    { committed count with compactionWriteBudgetLimit := (committed count).writeBudgetLimit }
  have activating : (committed count).activateCompactionWriteBudget = some activated := if_pos rfl
  have done : sealGeneration activated = some (rotatedAt activated (smallSegments count) count, true) :=
    seal_small rfl rfl (fun segment member => (smallSegments_named segment member).2) room
  have cleaned : (finalizeCompaction (installSnapshot
      (rotatedAt activated (smallSegments count) count).releaseCompactionWriteBudget (count + 1))
      (capture (rotatedAt activated (smallSegments count) count) true) 0).refreshSegmentCatalog
      (fun _ => true) false = (loaded (count + 1), true) := by
    rw [@refresh_failing _ (count + 1) (smallSegments_succ count).symm (Nat.le_refl _)]
    simp only [loaded, smallSegments_succ]
    rfl
  calc
    _ = _ := solo_save_sealing rfl (refresh_committed count) rfl room activating rfl done rfl
    _ = _ := solo_save_written rfl cleaned rfl

/-- Commits and saves until the catalog holds `count` segments. -/
def filling : Nat → List Action
  | 0 => []
  | count + 1 => filling count ++ (commitAlone (count + 1) ++ saveAlone)

theorem run_filling : ∀ {count : Nat}, count ≤ maxBinlogSegments → ∀ rest : List Action,
    run step (solo (loaded 0) .idle) (filling count ++ rest) = run step (solo (loaded count) .idle) rest
  | 0, _, rest => rfl
  | count + 1, room, rest => by
      rw [filling, List.append_assoc, List.append_assoc, run_filling (Nat.le_of_succ_le room),
        run_commitAlone (Nat.le_of_succ_le room), run_saveAlone room]

/-- A pass over covered segments all of which are removed. -/
theorem refresh_removing {runtime : CommitRuntime} {count : Nat} (segments : runtime.disk.segments = smallSegments count)
    (covered : count ≤ runtime.snapshotWatermark) :
    runtime.refreshSegmentCatalog (fun _ => false) false =
      ({ runtime with
        physicalSegmentCount := 0
        segmentCleanupBlocked := false
        segmentCatalogUnavailable := false
        disk := { runtime.disk with segments := [] } }, true) := by
  have named : ∀ segment ∈ smallSegments count, segment.wellFormed = true :=
    fun segment member => (smallSegments_named segment member).1
  have removed : (smallSegments count).filter
      (fun segment => decide (runtime.snapshotWatermark < segment.endSequence)) = [] := by
    apply List.filter_eq_nil_iff.mpr
    intro segment member
    have below := (smallSegments_named segment member).2
    simp only [decide_eq_true_eq]
    omega
  simp only [CommitRuntime.refreshSegmentCatalog, cleanupBinlogSegmentsThrough, segments,
    removeCovered_wellFormed _ _ named, Bool.or_false, removed, Bool.false_eq_true, if_false, if_true,
    CommitRuntime.applySegmentCatalogCleanup]
  rfl

theorem initial_solo : step initial (.schedule 0 0) = some (solo (loaded 0) .idle) := by
  have stepped : ∃ after, step initial (.schedule 0 0) = some after ∧ after.shared = loaded 0 ∧
      (∀ gate, after.holder gate = none) ∧ after.stage = Function.update initial.stage 0 .idle := by
    refine ⟨_, rfl, ?_, ?_, rfl⟩
    · decide
    · intro gate
      cases gate <;> rfl
  obtain ⟨after, reached, shared, holder, stage⟩ := stepped
  rw [reached]
  congr 1
  cases after
  simp only at shared holder stage
  simp only [solo, Pool.mk.injEq]
  refine ⟨shared, funext holder, ?_⟩
  rw [stage]
  funext task
  by_cases first : task = 0
  · rw [first, Function.update_self, Function.update_of_ne (by decide)]
  · rw [Function.update_of_ne first]
    simp [initial, startup, first]

/-- A save on the full catalog, whose segments are then removed, and a save whose snapshot fails. -/
def saveOnFullCatalog : List Action :=
  [.arrive 1 .save, .move 1 .go, .move 1 .go, .move 1 (.catalog (fun _ => true) false), .move 1 .go,
    .move 1 .go, .move 1 .go, .move 1 .go, .move 1 .go, .move 1 .go, .move 1 (.snapshot 0),
    .move 1 .go, .move 1 .go, .move 1 .go, .move 1 (.catalog (fun _ => false) false), .move 1 .go, .move 1 .go,
    .arrive 1 .save, .move 1 .go, .move 1 .go, .move 1 (.catalog (fun _ => false) false), .move 1 .go,
    .move 1 .go, .move 1 .go, .move 1 .go, .move 1 .go, .move 1 .go, .move 1 .go,
    .move 1 (.snapshotFailed false), .move 1 .go, .move 1 .go]

/-- The runtime after a save took its snapshot without sealing, and the catalog was emptied. -/
def coveredActive (count : Nat) : CommitRuntime :=
  { committed count with
    writeCount := 0
    snapshotWatermark := count + 1
    physicalSegmentCount := 0
    segmentCleanupBlocked := false
    disk := ⟨count + 1, [], [smallRecord (count + 1)]⟩ }

theorem run_saveOnFullCatalog {count : Nat} (full : ¬ count < maxBinlogSegments) :
    run step (solo (committed count) .idle) saveOnFullCatalog =
      some (solo (rotatedAt (coveredActive count) [] count) .idle) := by
  have covered : (finalizeCompaction (installSnapshot (committed count) (count + 1))
      (capture (committed count) false) 0).refreshSegmentCatalog (fun _ => false) false =
      (coveredActive count, true) := by
    rw [@refresh_removing _ count rfl (Nat.le_succ _)]
    rfl
  have again : (coveredActive count).refreshSegmentCatalog (fun _ => false) false =
      (coveredActive count, true) := by
    rw [@refresh_removing _ 0 rfl (Nat.zero_le _)]
    rfl
  let activated : CommitRuntime :=
    { coveredActive count with compactionWriteBudgetLimit := (coveredActive count).writeBudgetLimit }
  have activating : (coveredActive count).activateCompactionWriteBudget = some activated := if_pos rfl
  have done : sealGeneration activated = some (rotatedAt activated [] count, true) :=
    seal_small rfl rfl nofun (Nat.zero_lt_succ _)
  calc
    _ = _ := solo_save_full rfl (refresh_committed count) rfl full
    _ = _ := solo_save_written rfl covered rfl
    _ = _ := solo_save_sealing rfl again rfl (Nat.zero_lt_succ _) activating rfl done rfl
    _ = _ := solo_save_failed rfl

/-- The run that fills the catalog, saves over it and seals what the snapshot covers. -/
def coveredSeal (count : Nat) : List Action :=
  .schedule 0 0 :: (filling count ++ (commitAlone (count + 1) ++ saveOnFullCatalog))

theorem run_coveredSeal {count : Nat} (room : count ≤ maxBinlogSegments) (full : ¬ count < maxBinlogSegments) :
    run step initial (coveredSeal count) = some (solo (rotatedAt (coveredActive count) [] count) .idle) := by
  rw [coveredSeal, run, initial_solo, Option.bind_some, run_filling room, run_commitAlone room,
    run_saveOnFullCatalog full]

theorem covered_segmentsAfter (count : Nat) :
    segmentsAfter (count + 1) [⟨count + 1, [smallRecord (count + 1)]⟩] = [] := by
  simp [segmentsAfter]

/-- A segment that the snapshot covers is counted as unsnapshotted while every gate is free. -/
theorem counters_miss_covered_seal :
    ¬ ∀ (actions : List Action) (system : System), run step initial actions = some system →
      system.holder .boundary = none → system.holder .rotation = none → system.shared.ledger.Describes := by
  intro describes
  have ran := run_coveredSeal (Nat.le_refl maxBinlogSegments) (Nat.lt_irrefl _)
  have counted := (describes _ _ ran rfl rfl).unsnapshotted
  generalize maxBinlogSegments = count at counted
  have none := covered_segmentsAfter count
  simp only [CommitRuntime.ledger, solo, rotatedAt, coveredActive, List.nil_append, none] at counted
  cases counted

end Filling

/-- One commit and one save, whose segment is not removed. -/
def savedCommit : List Action := .schedule 0 0 :: (commitAlone 1 ++ saveAlone)

/-- `Allowed`, decided over the tasks that are not idle. -/
def allowedBelow (bound : Nat) (system : System) (action : Action) : Bool :=
  action.below bound &&
  match action with
  | .move task choice => choice.permitted && (!(system.stage task).seals ||
      (decide (system.shared.snapshotWatermark < system.shared.sequence) &&
      (List.range bound).all (fun other => (system.stage other).pendingCapture.all
        (fun capture => decide (capture.watermark < system.shared.sequence)))))
  | _ => true

theorem allowed_of_below {bound : Nat} {system : System} {action : Action} (idle : Idle bound system)
    (checked : allowedBelow bound system action = true) :
    Allowed system action ∧ ∀ after, step system action = some after → Idle bound after := by
  simp only [allowedBelow, Bool.and_eq_true] at checked
  refine ⟨?_, fun after stepped => idle_step idle checked.1 stepped⟩
  cases action with
  | move task choice =>
      obtain ⟨permitted, fresh⟩ := Bool.and_eq_true_iff.mp checked.2
      refine ⟨permitted, ?_⟩
      intro seals _
      simp only [seals, Bool.not_true, Bool.false_or, Bool.and_eq_true, decide_eq_true_eq,
        List.all_eq_true] at fresh
      refine ⟨fresh.1, ?_⟩
      intro other capture found
      rcases Nat.lt_or_ge other bound with inside | beyond
      · have each := fresh.2 other (List.mem_range.mpr inside)
        rw [found] at each
        exact of_decide_eq_true each
      · rw [idle other beyond] at found
        cases found
  | _ => exact trivial

theorem savedCommit_allowed : Along step Allowed initial savedCommit := by
  apply along_of_check (Idle 2) _ savedCommit initial (idle_initial.mono (by decide))
    (show checkRun step (allowedBelow 2) initial savedCommit = true by decide)
  exact fun _ _ idle checked => allowed_of_below idle checked

theorem savedCommit_described :
    (∃ system, run step initial savedCommit = some system ∧ system.shared.ledger.Describes ∧
      system.shared.physicalSegmentCount = 1 ∧ system.shared.snapshotWatermark = 1) := by
  have ran : run step initial savedCommit = some (solo (loaded 1) .idle) := by
    have room : 0 < maxBinlogSegments := by decide
    rw [savedCommit, run, initial_solo, Option.bind_some, run_commitAlone (Nat.le_of_lt room)]
    rw [← List.append_nil saveAlone, run_saveAlone room]
    rfl
  exact ⟨_, ran, (run_counters_describe savedCommit_allowed ran).1 rfl rfl, rfl, rfl⟩

end OnyxDB.Maintenance
