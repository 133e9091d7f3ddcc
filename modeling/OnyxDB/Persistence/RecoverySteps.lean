import OnyxDB.Library.Interrupted
import OnyxDB.Persistence.Layout

/-! Recovery call by call: every call on the file system may fail, and what a failed recovery leaves
behind is the directory as far as it had come. Without failures it is `load_data_from_paths` as
modelled before. -/

namespace OnyxDB.Persistence.RecoverySteps
open OnyxDB.Library OnyxDB.Library.Interrupted OnyxDB.Engine OnyxDB.Engine.Value OnyxDB.Store
  OnyxDB.Persistence
  OnyxDB.Persistence.Codec OnyxDB.Persistence.Commit OnyxDB.Persistence.Model
  OnyxDB.Persistence.Record OnyxDB.Persistence.Recovery OnyxDB.Persistence.Snapshot

/-- A recovery under way. `faults` are the outcomes of the calls to come, with the reason if one fails;
once they run out every call succeeds. -/
structure Attempt where
  directory : Directory
  store : ShardedStore
  faults : List (Option String)

abbrev Steps := EStateM PersistenceError Attempt

/-- A call that either takes its whole effect or fails without any. -/
def call (effect : Directory → Directory) : Steps Unit := fun attempt =>
  match attempt.faults with
  | some reason :: rest => .error (.new reason) { attempt with faults := rest }
  | none :: rest => .ok () { attempt with directory := effect attempt.directory, faults := rest }
  | [] => .ok () { attempt with directory := effect attempt.directory }

/-- A call whose failure is only logged; tells whether it succeeded. -/
def tolerate (effect : Directory → Directory) : Steps Bool := fun attempt =>
  match call effect attempt with
  | .ok _ attempt => .ok true attempt
  | .error _ attempt => .ok false attempt

/-- A computation on what has been read. -/
def compute {α : Type} : Except PersistenceError α → Steps α
  | .ok value => pure value
  | .error failure => throw failure

def recoverInterruptedBinlogRotation : Steps Unit := do
  let directory := (← get).directory
  match directory.binlog, directory.binlogBackup, directory.binlogTemp with
  | some _, _, _ => pure ()
  | none, some backup, _ => do
      call fun directory => { directory with binlog := some backup, binlogBackup := none }
      call id
  | none, none, some _ =>
      throw (.new "Binlog rotation temporary file exists without an active or backup binlog")
  | none, none, none => pure ()

def setSegment (endSequence : Nat) (contents : Bytes) (directory : Directory) : Directory :=
  { directory with segments := directory.segments.insert endSequence contents }

def removeSegment (endSequence : Nat) (directory : Directory) : Directory :=
  { directory with segments := directory.segments.erase endSequence }

/-- What is left of a segment is moved to the name of its last record, which must be free. -/
def renameRepaired (endSequence corrected : Nat) (contents : Bytes) : Steps Unit :=
  if corrected = endSequence then pure ()
  else do
    let attempt ← get
    if attempt.directory.segments.contains corrected then
      throw (.new s!"Cannot repair binlog segment because corrected path already exists: {binlogSegment corrected}")
    else do
      call fun directory => setSegment corrected contents (removeSegment endSequence directory)
      call id

/-- The tail is cut off before the name of what is left is looked at. -/
def repairLastIncompleteSegment (endSequence : Nat) (segment : InspectedBinlogFile) :
    Steps (Option InspectedBinlogFile) := do
  let contents := segment.contents.take segment.inspection.validLen
  call id
  call (setSegment endSequence contents)
  call id
  if segment.inspection.minSequence.isNone then do
    call (removeSegment endSequence)
    call id
    return none
  else do
    let corrected := segment.inspection.maxSequence
    renameRepaired endSequence corrected contents
    return some ⟨contents, some corrected, { segment.inspection with truncatedTail := false }⟩

/-- Removes the covered segments that can be removed, and counts them. -/
def removeCovered : List InspectedBinlogFile → Steps Nat
  | [] => pure 0
  | file :: rest => do
      let removed ← tolerate (removeSegment (file.declaredEndSequence.getD 0))
      let others ← removeCovered rest
      return others + (if removed then 1 else 0)

/-- Returns the number of segments that are taken to be left. -/
def cleanupSnapshotCoveredSegments (history : List InspectedBinlogFile) (watermark : Nat) : Steps Nat := do
  let sealedSegmentCount := history.countP (fun file => file.declaredEndSequence.isSome)
  let removedFiles ← removeCovered (history.filter (fun file => file.declaredEndSequence.isSome &&
    decide (file.inspection.maxSequence ≤ watermark)))
  if removedFiles > 0 then
    if ← tolerate id then return sealedSegmentCount - removedFiles
    else return sealedSegmentCount
  else return sealedSegmentCount

def cleanupRedundantBinlogRotationFiles : Steps Unit := do
  let directory := (← get).directory
  let temporary ← tolerate fun directory => { directory with binlogTemp := none }
  let backup ← tolerate fun directory => { directory with binlogBackup := none }
  if (temporary && directory.binlogTemp.isSome) || (backup && directory.binlogBackup.isSome) then
    let _ ← tolerate id
  return ()

section Inspection
variable [Platform]

def inspectSegments : List (Nat × Bytes) → Steps (List InspectedBinlogFile)
  | [] => pure []
  | (endSequence, contents) :: rest => do
      call id
      let inspection ← compute (inspectBinlog contents)
      let files ← inspectSegments rest
      return ⟨contents, some endSequence, inspection⟩ :: files

def repairSegments (segments : List InspectedBinlogFile) (active : BinlogInspection) :
    Steps (List InspectedBinlogFile) :=
  match segments.findIdx? (fun segment => segment.inspection.truncatedTail) with
  | none => pure segments
  | some index =>
      let segment := segments[index]?.getD ⟨[], none, {}⟩
      if index + 1 ≠ segments.length ∨ active.minSequence.isSome then
        throw (.new s!"Sealed binlog segment has an incomplete tail before later history: {binlogSegment (segment.declaredEndSequence.getD 0)}")
      else do
        let repaired ← repairLastIncompleteSegment (segment.declaredEndSequence.getD 0) segment
        return segments.take index ++ repaired.toList

/-- The names that `read_dir` lists. -/
def checkListing (directory : Directory) : Except PersistenceError Unit :=
  match directory.malformedSegments with
  | name :: _ => .error (.new s!"Malformed binlog segment name: {name}")
  | [] =>
      if directory.segments.entries.length > maxBinlogSegments then
        .error (.new s!"Binlog segment count exceeds the {maxBinlogSegments} segment limit")
      else .ok ()

def inspectBinlogHistory : Steps (List InspectedBinlogFile) := do
  call id
  let attempt ← get
  compute (checkListing attempt.directory)
  let segments ← inspectSegments attempt.directory.segments.entries
  call id
  let active ← compute (inspectBinlog (attempt.directory.binlog.getD []))
  let segments ← repairSegments segments active
  compute (segments.forM checkSealedSegment)
  let files := segments ++ [⟨attempt.directory.binlog.getD [], none, active⟩]
  compute (checkContiguous none files)
  return files

def replayHistory (watermark : Nat) : List InspectedBinlogFile → Replay → Steps Replay
  | [], replay => pure replay
  | file :: rest, replay => do
      call id
      let (replay, _) ← compute (forEachBinlogRecord file.contents (replayRecord watermark) replay)
      replayHistory watermark rest replay

def truncateActive (active : BinlogInspection) : Steps Unit :=
  if active.truncatedTail then do
    call id
    call fun directory => { directory with
      binlog := directory.binlog.map (fun contents => contents.take active.validLen) }
    call id
  else pure ()

def checkVersioned (format : SnapshotFormat) : Except PersistenceError Unit :=
  if format = .legacy then
    .error (.new "Unsupported unsafe legacy snapshot format; create a verified versioned snapshot before upgrading")
  else .ok ()

def checkBoundary (history : List InspectedBinlogFile) (watermark : Nat) : Except PersistenceError Unit :=
  let firstSequence := history.findSome? (fun file => file.inspection.minSequence)
  if firstSequence.any (fun first => decide (first > min (watermark + 1) (2 ^ 64 - 1))) then
    .error (.new "Binlog begins after the snapshot recovery boundary")
  else .ok ()

/-- `replace_all` with the entries of the staging store. -/
def install (staging : ShardedStore) (attempt : Attempt) : Attempt :=
  let (entries, staging) := staging.rawEntries
  let store := { attempt.store with engine := { attempt.store.engine with clock := staging.engine.clock } }
  { attempt with store := store.replaceAll entries }

/-- The staging store is dropped when the recovery fails; only the last part installs anything. -/
def loadDataFromPaths : Steps RecoveryState := do
  recoverInterruptedBinlogRotation
  let attempt ← get
  let snapshot := attempt.directory.snapshot.or attempt.directory.snapshotBackup
  call id
  let format ← compute (inspectSnapshot snapshot)
  compute (checkVersioned format)
  let history ← inspectBinlogHistory
  let watermark := snapshotWatermark format
  compute (checkBoundary history watermark)
  call id
  let staging ← compute (loadSnapshotEntries (.new attempt.store.engine.clock) snapshot format)
  let replay ← replayHistory watermark history ⟨staging, checkedSucc watermark, 0⟩
  truncateActive (activeInspection history)
  modify (install replay.staging)
  let physicalSegmentCount ← cleanupSnapshotCoveredSegments history watermark
  cleanupRedundantBinlogRotationFiles
  return { recoveryState history watermark replay.replayed with physicalSegmentCount }

end Inspection

section Calls

theorem call_without_faults (effect : Directory → Directory) (directory : Directory)
    (store : ShardedStore) :
    call effect ⟨directory, store, []⟩ = .ok () ⟨effect directory, store, []⟩ := rfl

/-- The directory and the store are as they were. -/
structure Same (before after : Attempt) : Prop where
  directory : after.directory = before.directory
  store : after.store = before.store

theorem Same.refl (attempt : Attempt) : Same attempt attempt := ⟨rfl, rfl⟩

theorem Same.trans {first second third : Attempt} (before : Same first second)
    (after : Same second third) : Same first third :=
  ⟨after.directory.trans before.directory, after.store.trans before.store⟩

end Calls

section Cleanup

/-- The program returns from every state. -/
def Returns {α : Type} (program : Steps α) : Prop :=
  ∀ attempt, ∃ value after, program attempt = .ok value after

end Cleanup

section Records
variable [Platform]

/-- A record among the complete, consecutive records at the beginning of a file. -/
def Recoverable (bytes : Bytes) (log : LogRecord) : Prop :=
  ∃ front logs rest, bytes = front ++ rest ∧ Reads front logs [] ∧ Consecutive logs ∧ log ∈ logs

/-- A record that can be decoded from a segment or from the active binlog. -/
def Holds (directory : Directory) (log : LogRecord) : Prop :=
  ∃ bytes, (bytes ∈ directory.binlog ∨ ∃ endSequence, (endSequence, bytes) ∈ directory.segments.entries) ∧
    Recoverable bytes log

/-- The store is as it was, and no record has been lost. -/
structure Preserves (before after : Attempt) : Prop where
  store : after.store = before.store
  records : ∀ log, Holds before.directory log → Holds after.directory log

theorem Preserves.trans {first second third : Attempt} (before : Preserves first second)
    (after : Preserves second third) : Preserves first third :=
  ⟨after.store.trans before.store, fun log held => after.records log (before.records log held)⟩

theorem Same.preserves {before after : Attempt} (same : Same before after) : Preserves before after :=
  ⟨same.store, fun log held => by rw [same.directory]; exact held⟩

/-- Cutting a file back to its complete records loses none of them. -/
theorem Recoverable.cut {bytes : Bytes} {log : LogRecord} (recoverable : Recoverable bytes log)
    {inspection : BinlogInspection} (inspected : inspectBinlog bytes = .ok inspection) :
    Recoverable (bytes.take inspection.validLen) log ∧ inspection.minSequence ≠ none := by
  obtain ⟨front, early, rest, rfl, readsFront, _, member⟩ := recoverable
  obtain ⟨logs, tail, reads, consecutive, rfl⟩ := inspectBinlog_ok.mp inspected
  obtain ⟨later, rfl, _⟩ := reads_append_inv readsFront reads
  have found : log ∈ early ++ later := List.mem_append_left later member
  refine ⟨⟨_, early ++ later, [], by rw [List.append_nil]; rfl, reads.take, consecutive, found⟩, ?_⟩
  cases shape : early ++ later with
  | nil =>
      rw [shape] at found
      cases found
  | cons first logs => simp [summary]

theorem Recoverable.extend {bytes : Bytes} {count : Nat} {log : LogRecord}
    (recoverable : Recoverable (bytes.take count) log) : Recoverable bytes log := by
  obtain ⟨front, logs, rest, split, reads, consecutive, member⟩ := recoverable
  refine ⟨front, logs, rest ++ bytes.drop count, ?_, reads, consecutive, member⟩
  rw [← List.append_assoc, ← split, List.take_append_drop]

end Records

section Repairs

end Repairs

section Outcomes
variable [Platform]

end Outcomes

end OnyxDB.Persistence.RecoverySteps
