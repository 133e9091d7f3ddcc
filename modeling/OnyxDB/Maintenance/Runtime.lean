import OnyxDB.Persistence.Recovery
import Mathlib.Data.List.Sort

/-! The maintenance state of the commit runtime and the files it accounts for.

The binlog is modelled by its generations: the records of a file with their sequences and framed
lengths. The snapshot is modelled by its watermark. -/

namespace OnyxDB.Maintenance
open OnyxDB.Persistence

def compactionPreflushWriteBudgetBytes : Nat := 8 * 1024 * 1024
def binlogGenerationTargetBytes : Nat := 16 * 1024 * 1024
def binlogGenerationAdmissionLimitBytes : Nat :=
  binlogGenerationTargetBytes + compactionPreflushWriteBudgetBytes
def maxUnsnapshottedBinlogSegments : Nat := 256
def binlogSegmentSnapshotPressure : Nat := maxBinlogSegments - maxUnsnapshottedBinlogSegments
def binlogSegmentRolloverLimit : Nat := maxBinlogSegments - 1
def u64Max : Nat := 2 ^ 64 - 1
def writeBudgetOpen : Nat := u64Max
def compactionThreshold : Nat := 100000

/-- A record of a binlog file. Framing alone takes bytes, so no record is empty. -/
structure LogRecord where
  sequence : Nat
  length : Nat
  framed : 0 < length
  deriving DecidableEq

theorem compactionPreflushWriteBudgetBytes_pos : 0 < compactionPreflushWriteBudgetBytes := by decide

theorem binlogGenerationTargetBytes_pos : 0 < binlogGenerationTargetBytes := by decide

def smallRecord (sequence : Nat) : LogRecord := ⟨sequence, 64, by decide⟩

structure Segment where
  endSequence : Nat
  records : List LogRecord
  deriving DecidableEq

/-- The length of a file in bytes. -/
def fileLength (records : List LogRecord) : Nat := (records.map (·.length)).sum

/-- The sequence of the last record, zero for a file without records. -/
def maxSequence (records : List LogRecord) : Nat := (records.getLast?.map (·.sequence)).getD 0

structure Disk where
  snapshotWatermark : Nat
  segments : List Segment
  active : List LogRecord
  deriving DecidableEq

/-- The records of a file follow each other without a gap. -/
def inspectBinlog : List LogRecord → Bool
  | first :: second :: rest =>
      decide (first.sequence + 1 = second.sequence) && inspectBinlog (second :: rest)
  | _ => true

def Segment.matchesIdentity (segment : Segment) : Bool :=
  decide (segment.records ≠ []) && decide (maxSequence segment.records = segment.endSequence)

/-- What a pass over the segment catalog reports. -/
structure BinlogSegmentCleanup where
  failedFiles : Nat
  remainingFiles : Nat
  deriving DecidableEq

/-- The segments that a pass of `cleanup_binlog_segments_through` leaves, up to the first covered
segment that is not what its name says; the second component tells whether the pass got through. -/
def removeCovered (watermark : Nat) (fails : Nat → Bool) : List Segment → List Segment × Bool
  | [] => ([], true)
  | segment :: rest =>
      if watermark < segment.endSequence then
        let (kept, through) := removeCovered watermark fails rest
        (segment :: kept, through)
      else if inspectBinlog segment.records && segment.matchesIdentity then
        let (kept, through) := removeCovered watermark fails rest
        (if fails segment.endSequence then segment :: kept else kept, through)
      else
        (segment :: rest, false)

/-- `cleanup_binlog_segments_through`: a removal that fails leaves its file. -/
def cleanupBinlogSegmentsThrough (disk : Disk) (watermark : Nat) (fails : Nat → Bool) :
    Disk × Option BinlogSegmentCleanup :=
  let (kept, through) := removeCovered watermark fails disk.segments
  let cleaned := { disk with segments := kept }
  if through then
    (cleaned, some {
      failedFiles := (kept.filter (fun segment => segment.endSequence ≤ watermark)).length
      remainingFiles := kept.length })
  else
    (cleaned, none)

inductive SealOutcome where
  | unchanged
  | done (disk : Disk) (bytes : Nat)
  deriving DecidableEq

/-- `seal_active`: an empty file needs no segment; a file that is sealed becomes a segment under its
end sequence and an empty file takes its place. -/
def sealActive (disk : Disk) (endSequence : Nat) : SealOutcome :=
  if fileLength disk.active = 0 then
    .done disk 0
  else if endSequence = 0 then
    .unchanged
  else if disk.segments.any (fun segment => segment.endSequence = endSequence) then
    .unchanged
  else
    .done { disk with
      segments := disk.segments ++ [⟨endSequence, disk.active⟩]
      active := [] } (fileLength disk.active)

/-- An append to the active file, whose length is a `u64`. -/
def appendRecords (disk : Disk) (records : List LogRecord) : Option Disk :=
  if fileLength (disk.active ++ records) ≤ u64Max then
    some { disk with active := disk.active ++ records }
  else
    none

/-- The file is emptied and every segment is removed. -/
def truncateBinlog (disk : Disk) : Disk := { disk with segments := [], active := [] }

structure MaintenanceRequest where
  snapshot : Bool
  rollover : Bool
  deriving DecidableEq

structure CommitRuntime where
  writeCount : Nat
  acceptedBinlogBytes : Nat
  activeBinlogBytes : Nat
  unsnapshottedSegmentCount : Nat
  physicalSegmentCount : Nat
  snapshotWatermark : Nat
  segmentCleanupBlocked : Bool
  segmentCatalogUnavailable : Bool
  compactionEntryFloor : Nat
  compactionWriteBudgetLimit : Nat
  compactionPending : Bool
  rolloverPending : Bool
  replOffset : Nat
  failStopStarted : Bool
  failStopVisibilityGuard : Bool
  disk : Disk
  deriving DecidableEq

/-- `CommitRuntime::new` at a recovered sequence. -/
def CommitRuntime.new (initialSequence : Nat) (disk : Disk) : CommitRuntime where
  writeCount := 0
  acceptedBinlogBytes := 0
  activeBinlogBytes := 0
  unsnapshottedSegmentCount := 0
  physicalSegmentCount := 0
  snapshotWatermark := 0
  segmentCleanupBlocked := false
  segmentCatalogUnavailable := false
  compactionEntryFloor := 0
  compactionWriteBudgetLimit := writeBudgetOpen
  compactionPending := false
  rolloverPending := false
  replOffset := initialSequence
  failStopStarted := false
  failStopVisibilityGuard := false
  disk := disk

namespace CommitRuntime

def sequence (runtime : CommitRuntime) : Nat := runtime.replOffset

def compactionRecordThreshold (runtime : CommitRuntime) (minimum : Nat) : Nat :=
  max minimum runtime.compactionEntryFloor

/-- Whether a snapshot is due, before ownership of the attempt is decided. -/
def snapshotDue (runtime : CommitRuntime) (threshold : Nat) : Bool :=
  let physicalPressure := decide (binlogSegmentSnapshotPressure ≤ runtime.physicalSegmentCount) &&
    !runtime.segmentCleanupBlocked
  decide (runtime.compactionRecordThreshold threshold ≤ runtime.writeCount) ||
    decide (maxUnsnapshottedBinlogSegments ≤ runtime.unsnapshottedSegmentCount) || physicalPressure

def requestSnapshotIfNeeded (runtime : CommitRuntime) (threshold : Nat) : CommitRuntime × Bool :=
  if runtime.snapshotDue threshold && !runtime.compactionPending then
    ({ runtime with compactionPending := true }, true)
  else
    (runtime, false)

def rolloverDue (runtime : CommitRuntime) : Bool :=
  let snapshotCatalogPressure :=
    decide (binlogSegmentSnapshotPressure ≤ runtime.physicalSegmentCount) && !runtime.segmentCleanupBlocked
  decide (binlogGenerationTargetBytes ≤ runtime.activeBinlogBytes) &&
    decide (runtime.physicalSegmentCount < binlogSegmentRolloverLimit) && !snapshotCatalogPressure

def requestRolloverIfNeeded (runtime : CommitRuntime) : CommitRuntime × Bool :=
  if runtime.rolloverDue && !runtime.rolloverPending then
    ({ runtime with rolloverPending := true }, true)
  else
    (runtime, false)

def requestMaintenanceIfNeeded (runtime : CommitRuntime) (threshold : Nat) :
    CommitRuntime × MaintenanceRequest :=
  let (runtime, snapshot) := runtime.requestSnapshotIfNeeded threshold
  let (runtime, rollover) := runtime.requestRolloverIfNeeded
  (runtime, ⟨snapshot, rollover⟩)

def finishCompactionScheduleAndRearm (runtime : CommitRuntime) (threshold : Nat)
    (retryImmediately : Bool) : CommitRuntime × MaintenanceRequest :=
  let runtime := { runtime with compactionPending := false }
  if retryImmediately then
    runtime.requestMaintenanceIfNeeded threshold
  else
    let (runtime, rollover) := runtime.requestRolloverIfNeeded
    (runtime, ⟨false, rollover⟩)

def finishRolloverScheduleAndRearm (runtime : CommitRuntime) (threshold : Nat)
    (retryImmediately : Bool) : CommitRuntime × MaintenanceRequest :=
  let runtime := { runtime with rolloverPending := false }
  if retryImmediately then
    runtime.requestMaintenanceIfNeeded threshold
  else
    let (runtime, snapshot) := runtime.requestSnapshotIfNeeded threshold
    (runtime, ⟨snapshot, false⟩)

def rolloverBackpressureActive (runtime : CommitRuntime) : Bool :=
  runtime.rolloverPending && decide (binlogGenerationAdmissionLimitBytes ≤ runtime.activeBinlogBytes)

def segmentCatalogBackpressureActive (runtime : CommitRuntime) : Bool :=
  (decide (binlogSegmentRolloverLimit ≤ runtime.physicalSegmentCount) ||
    runtime.segmentCatalogUnavailable) &&
  decide (binlogGenerationAdmissionLimitBytes ≤ runtime.activeBinlogBytes)

def compactionWriteBudgetAllowsProgress (runtime : CommitRuntime) : Bool :=
  (decide (runtime.compactionWriteBudgetLimit = writeBudgetOpen) ||
    decide (runtime.acceptedBinlogBytes < runtime.compactionWriteBudgetLimit)) &&
  !runtime.rolloverBackpressureActive && !runtime.segmentCatalogBackpressureActive

/-- A new physical generation is counted; the answer tells whether the assertion on the catalog limit
holds. -/
def recordSealedSegment (runtime : CommitRuntime) (sealedBytes : Nat) : CommitRuntime × Bool :=
  if sealedBytes = 0 then
    (runtime, true)
  else if runtime.physicalSegmentCount < maxBinlogSegments then
    ({ runtime with
      physicalSegmentCount := runtime.physicalSegmentCount + 1
      unsnapshottedSegmentCount := runtime.unsnapshottedSegmentCount + 1
      segmentCleanupBlocked := false }, true)
  else
    ({ runtime with physicalSegmentCount := runtime.physicalSegmentCount + 1 }, false)

def applySegmentCatalogCleanup (runtime : CommitRuntime) (cleanup : BinlogSegmentCleanup) :
    CommitRuntime :=
  { runtime with
    physicalSegmentCount := cleanup.remainingFiles
    segmentCleanupBlocked := decide (0 < cleanup.failedFiles)
    segmentCatalogUnavailable := false }

/-- The catalog operation and what its outcome does to the flags. `lost` says that the operation
fails on its own (enumeration, synchronization or the blocking task itself). -/
def refreshSegmentCatalog (runtime : CommitRuntime) (fails : Nat → Bool) (lost : Bool) :
    CommitRuntime × Bool :=
  let (disk, cleanup) := cleanupBinlogSegmentsThrough runtime.disk runtime.snapshotWatermark fails
  let runtime := { runtime with disk }
  match (if lost then none else cleanup) with
  | some cleanup => (runtime.applySegmentCatalogCleanup cleanup, true)
  | none => ({ runtime with segmentCleanupBlocked := true, segmentCatalogUnavailable := true }, false)

def recordAcceptedBinlogBytes (runtime : CommitRuntime) (acceptedBytes : Nat) : CommitRuntime :=
  { runtime with
    acceptedBinlogBytes := min (runtime.acceptedBinlogBytes + acceptedBytes) u64Max
    activeBinlogBytes := min (runtime.activeBinlogBytes + acceptedBytes) u64Max }

/-- The limit of a budget that is activated now: `checked_add`, or one less than open. -/
def writeBudgetLimit (runtime : CommitRuntime) : Nat :=
  if runtime.acceptedBinlogBytes + compactionPreflushWriteBudgetBytes ≤ u64Max then
    runtime.acceptedBinlogBytes + compactionPreflushWriteBudgetBytes
  else
    writeBudgetOpen - 1

/-- `activate_compaction_write_budget`: nothing is returned where the assertion on exclusive
ownership fails. -/
def activateCompactionWriteBudget (runtime : CommitRuntime) : Option CommitRuntime :=
  if runtime.compactionWriteBudgetLimit = writeBudgetOpen then
    some { runtime with compactionWriteBudgetLimit := runtime.writeBudgetLimit }
  else
    none

def releaseCompactionWriteBudget (runtime : CommitRuntime) : CommitRuntime :=
  { runtime with compactionWriteBudgetLimit := writeBudgetOpen }

/-- The sequences of a group are those that come next; the last may be the last there is. -/
def consecutive : Nat → List LogRecord → Bool
  | _, [] => true
  | expected, record :: rest =>
      decide (expected ≤ u64Max) && decide (record.sequence = expected) && consecutive (expected + 1) rest

/-- `accept_next_batches` up to the durable offset and the count of persisted writes. Nothing is
returned where the group is refused before any byte is written. -/
def acceptNextBatches (runtime : CommitRuntime) (records : List LogRecord) : Option CommitRuntime :=
  if records = [] then
    none
  else if consecutive (runtime.sequence + 1) records then
    (appendRecords runtime.disk records).map (fun disk =>
      let runtime := ({ runtime with disk }).recordAcceptedBinlogBytes (fileLength records)
      { runtime with
        replOffset := maxSequence records
        writeCount := (runtime.writeCount + records.length) % 2 ^ 64 })
  else
    none

def installBaseline (runtime : CommitRuntime) (sequence entryCount : Nat) : CommitRuntime :=
  { runtime with
    replOffset := sequence
    writeCount := 0
    acceptedBinlogBytes := 0
    activeBinlogBytes := 0
    unsnapshottedSegmentCount := 0
    physicalSegmentCount := 0
    snapshotWatermark := sequence
    segmentCleanupBlocked := false
    segmentCatalogUnavailable := false
    compactionEntryFloor := entryCount }

def restoreMaintenanceState (runtime : CommitRuntime) (recovery : Recovery.RecoveryState) :
    CommitRuntime :=
  { runtime with
    writeCount := recovery.replayedRecords
    activeBinlogBytes := recovery.activeBinlogBytes
    unsnapshottedSegmentCount := recovery.unsnapshottedSegmentCount
    physicalSegmentCount := recovery.physicalSegmentCount
    snapshotWatermark := recovery.snapshotWatermark
    segmentCleanupBlocked := false
    segmentCatalogUnavailable := false }

section Flags
variable (runtime : CommitRuntime) (threshold : Nat) (retryImmediately : Bool)

/-- A request for maintenance touches the two flags of ownership and nothing else. -/
def withPending (compaction rollover : Bool) : CommitRuntime :=
  { runtime with compactionPending := compaction, rolloverPending := rollover }

theorem requestSnapshotIfNeeded_flags :
    ∃ compaction, (runtime.requestSnapshotIfNeeded threshold).1 =
      runtime.withPending compaction runtime.rolloverPending := by
  unfold requestSnapshotIfNeeded
  split
  · exact ⟨true, rfl⟩
  · exact ⟨runtime.compactionPending, rfl⟩

theorem requestRolloverIfNeeded_flags :
    ∃ rollover, (runtime.requestRolloverIfNeeded).1 =
      runtime.withPending runtime.compactionPending rollover := by
  unfold requestRolloverIfNeeded
  split
  · exact ⟨true, rfl⟩
  · exact ⟨runtime.rolloverPending, rfl⟩

theorem requestMaintenanceIfNeeded_flags :
    ∃ compaction rollover, (runtime.requestMaintenanceIfNeeded threshold).1 =
      runtime.withPending compaction rollover := by
  obtain ⟨compaction, first⟩ := runtime.requestSnapshotIfNeeded_flags threshold
  obtain ⟨rollover, second⟩ := (runtime.requestSnapshotIfNeeded threshold).1.requestRolloverIfNeeded_flags
  refine ⟨compaction, rollover, ?_⟩
  simp only [requestMaintenanceIfNeeded]
  rw [second, first]
  rfl

theorem finishCompactionScheduleAndRearm_flags :
    ∃ compaction rollover, (runtime.finishCompactionScheduleAndRearm threshold retryImmediately).1 =
      runtime.withPending compaction rollover := by
  simp only [finishCompactionScheduleAndRearm]
  split
  · exact (runtime.withPending false runtime.rolloverPending).requestMaintenanceIfNeeded_flags threshold
  · obtain ⟨rollover, flags⟩ :=
      (runtime.withPending false runtime.rolloverPending).requestRolloverIfNeeded_flags
    exact ⟨false, rollover, flags⟩

theorem finishRolloverScheduleAndRearm_flags :
    ∃ compaction rollover, (runtime.finishRolloverScheduleAndRearm threshold retryImmediately).1 =
      runtime.withPending compaction rollover := by
  simp only [finishRolloverScheduleAndRearm]
  split
  · exact (runtime.withPending runtime.compactionPending false).requestMaintenanceIfNeeded_flags threshold
  · obtain ⟨compaction, flags⟩ :=
      (runtime.withPending runtime.compactionPending false).requestSnapshotIfNeeded_flags threshold
    exact ⟨compaction, false, flags⟩

end Flags

/-- The visibility guard of a boundary is kept for good. -/
def enterFailStopWithBoundary (runtime : CommitRuntime) : CommitRuntime :=
  { runtime with failStopStarted := true, failStopVisibilityGuard := true }

end CommitRuntime

/-- A file with records begins right after the file with records before it. -/
def followsOn : Option Nat → List (List LogRecord) → Bool
  | _, [] => true
  | previous, [] :: rest => followsOn previous rest
  | previous, (first :: records) :: rest =>
      previous.all (fun last => decide (last + 1 = first.sequence)) &&
        followsOn (some (maxSequence (first :: records))) rest

/-- The number of records replayed over a snapshot, which must come one after the other. -/
def replayRecords (watermark : Nat) : Nat → Nat → List LogRecord → Option Nat
  | _, replayed, [] => some replayed
  | expected, replayed, record :: rest =>
      if record.sequence ≤ watermark then
        replayRecords watermark expected replayed rest
      else if expected ≤ u64Max ∧ record.sequence = expected then
        replayRecords watermark (expected + 1) (replayed + 1) rest
      else
        none

/-- The accounting of `load_data_from_paths`, with the removals that fail. -/
def loadDataFromPaths (disk : Disk) (fails : Nat → Bool) :
    Option (Disk × Recovery.RecoveryState) :=
  let watermark := disk.snapshotWatermark
  let segments := disk.segments.insertionSort (fun first second => first.endSequence ≤ second.endSequence)
  let files := segments.map (·.records) ++ [disk.active]
  if disk.segments.length ≤ maxBinlogSegments ∧ files.all inspectBinlog ∧
      segments.all Segment.matchesIdentity ∧ followsOn none files ∧
      files.flatten.head?.all (fun first => decide (first.sequence ≤ min (watermark + 1) u64Max)) then
    (replayRecords watermark (watermark + 1) 0 files.flatten).map (fun replayed =>
      let removed := segments.filter (fun segment =>
        decide (maxSequence segment.records ≤ watermark) && !fails segment.endSequence)
      ({ disk with
          segments := segments.filter (fun segment =>
            !(decide (maxSequence segment.records ≤ watermark) && !fails segment.endSequence)) },
        { lastSequence := max watermark ((files.map maxSequence).foldl max 0)
          snapshotWatermark := watermark
          replayedRecords := replayed
          activeBinlogBytes := fileLength disk.active
          unsnapshottedSegmentCount :=
            (segments.filter (fun segment => decide (watermark < segment.endSequence))).length
          physicalSegmentCount := segments.length - removed.length }))
  else
    none

end OnyxDB.Maintenance
