import OnyxDB.Persistence.Commit
import OnyxDB.Persistence.Directory
import OnyxDB.Persistence.Snapshot

/-! Startup recovery: the binlog history is inspected and repaired, then the snapshot and the records
above its watermark are replayed into a staging store. Input and output calls succeed here; a file is
its contents. -/

namespace OnyxDB.Persistence.Recovery
open OnyxDB.Library OnyxDB.Library.BigEndian OnyxDB.Engine OnyxDB.Engine.Value OnyxDB.Store
  OnyxDB.Persistence OnyxDB.Persistence.Codec OnyxDB.Persistence.Commit OnyxDB.Persistence.Model
  OnyxDB.Persistence.Record OnyxDB.Persistence.Snapshot

/-- `u64::checked_add(1)`. -/
def checkedSucc (sequence : Nat) : Option Nat :=
  if sequence + 1 < 2 ^ 64 then some (sequence + 1) else none

structure BinlogInspection where
  minSequence : Option Nat := none
  maxSequence : Nat := 0
  validLen : Nat := 0
  truncatedTail : Bool := false
  containsChecksumlessRecords : Bool := false
  deriving DecidableEq, Repr

structure RecoveryState where
  lastSequence : Nat
  snapshotWatermark : Nat
  replayedRecords : Nat
  activeBinlogBytes : Nat
  unsnapshottedSegmentCount : Nat
  physicalSegmentCount : Nat
  deriving DecidableEq, Repr

/-- A file of the history: a segment under its declared end sequence, or the active binlog. -/
structure InspectedBinlogFile where
  contents : Bytes
  declaredEndSequence : Option Nat
  inspection : BinlogInspection
  deriving DecidableEq, Repr

def checksumlessTail : PersistenceError :=
  .new "Cannot safely truncate an incomplete checksumless ONX3 binlog record"

def unknownTail : PersistenceError :=
  .new "Cannot safely truncate an incomplete binlog record with unknown framing"

/-- The first record of `rest` and the bytes after it. There is none when `rest` ends within a
record that can be truncated. -/
def nextBinlogRecord (rest : Bytes) : Except PersistenceError (Option (Bytes × Bytes)) :=
  if rest.length < 4 then .ok none
  else
    let recordLen := ofBigEndian (rest.take 4)
    let available := rest.drop 4
    if recordLen = 0 ∨ recordLen > maxBinlogRecordSize then
      .error (.new s!"Invalid binlog record length: {recordLen}")
    else
      let headerProbeLength := min recordLen (binlogRecordMagic.length + binlogRecordLengthSize)
      let visibleHeader := available.take headerProbeLength
      if visibleHeader.length < headerProbeLength then
        if checksumlessBinlogRecordMagic.isPrefixOf visibleHeader then .error checksumlessTail
        else if binlogRecordMagic.length ≤ visibleHeader.length ∧
            ¬ binlogRecordMagic.isPrefixOf visibleHeader then .error unknownTail
        else .ok none
      else if binlogRecordMagic.isPrefixOf visibleHeader ∧
          binlogRecordMagic.length + binlogRecordLengthSize ≤ recordLen ∧
          ofBigEndian (visibleHeader.drop binlogRecordMagic.length) ≠ recordLen then
        .error (.new s!"Binlog record length mismatch: outer length {recordLen}, embedded length {ofBigEndian (visibleHeader.drop binlogRecordMagic.length)}")
      else if available.length < recordLen then
        if checksumlessBinlogRecordMagic.isPrefixOf visibleHeader then .error checksumlessTail
        else if ¬ binlogRecordMagic.isPrefixOf visibleHeader then .error unknownTail
        else .ok none
      else .ok (some (available.take recordLen, available.drop recordLen))

/-- Visits the records of `rest` and returns the bytes after the last complete one. -/
def scanBinlogRecords {σ : Type} (visitor : σ → Bytes → Except PersistenceError σ) :
    Nat → Bytes → σ → Except PersistenceError (σ × Bytes)
  | 0, rest, state => .ok (state, rest)
  | fuel + 1, rest, state => do
      match ← nextBinlogRecord rest with
      | none => return (state, rest)
      | some (record, rest) =>
          let state ← visitor state record
          scanBinlogRecords visitor fuel rest state

/-- Every record takes more than four bytes, so the fuel is never exhausted. -/
def forEachBinlogRecord {σ : Type} (file : Bytes) (visitor : σ → Bytes → Except PersistenceError σ)
    (state : σ) : Except PersistenceError (σ × Bytes) :=
  scanBinlogRecords visitor (file.length + 1) file state

/-- Undoes an interrupted rotation of the active binlog. -/
def recoverInterruptedBinlogRotation (directory : Directory) : Except PersistenceError Directory :=
  match directory.binlog, directory.binlogBackup, directory.binlogTemp with
  | some _, _, _ => .ok directory
  | none, some backup, _ => .ok { directory with binlog := some backup, binlogBackup := none }
  | none, none, some _ =>
      .error (.new "Binlog rotation temporary file exists without an active or backup binlog")
  | none, none, none => .ok directory

def cleanupRedundantBinlogRotationFiles (directory : Directory) : Directory :=
  { directory with binlogTemp := none, binlogBackup := none }

/-- Truncates the incomplete tail of the last segment; a segment without a complete record is
removed, one that ends before its declared end is renamed. -/
def repairLastIncompleteSegment (directory : Directory) (endSequence : Nat)
    (segment : InspectedBinlogFile) :
    Except PersistenceError (Option InspectedBinlogFile × Directory) :=
  let contents := segment.contents.take segment.inspection.validLen
  if segment.inspection.minSequence.isNone then
    .ok (none, { directory with segments := directory.segments.erase endSequence })
  else
    let corrected := segment.inspection.maxSequence
    if corrected ≠ endSequence ∧ directory.segments.contains corrected then
      .error (.new s!"Cannot repair binlog segment because corrected path already exists: {binlogSegment corrected}")
    else
      .ok (some ⟨contents, some corrected, { segment.inspection with truncatedTail := false }⟩,
        { directory with segments :=
            (directory.segments.erase endSequence).insert corrected contents })

/-- The checks on one sealed segment once the last one has been repaired. -/
def checkSealedSegment (segment : InspectedBinlogFile) : Except PersistenceError Unit :=
  let endSequence := segment.declaredEndSequence.getD 0
  if segment.inspection.minSequence.isNone then
    .error (.new s!"Sealed binlog segment is empty: {binlogSegment endSequence}")
  else if segment.inspection.maxSequence ≠ endSequence then
    .error (.new s!"Binlog segment {binlogSegment endSequence} does not match its final record sequence {segment.inspection.maxSequence}")
  else .ok ()

/-- Every file with records must begin right after the one before it. -/
def checkContiguous : Option Nat → List InspectedBinlogFile → Except PersistenceError Unit
  | _, [] => .ok ()
  | previousEnd, file :: rest =>
      match file.inspection.minSequence with
      | none => checkContiguous previousEnd rest
      | some firstSequence =>
          match previousEnd with
          | some previous =>
              if checkedSucc previous ≠ some firstSequence then
                .error (.new s!"Non-contiguous binlog history: sequence {firstSequence} follows {previous}")
              else checkContiguous (some file.inspection.maxSequence) rest
          | none => checkContiguous (some file.inspection.maxSequence) rest

def cleanupSnapshotCoveredSegments (history : List InspectedBinlogFile) (watermark : Nat)
    (directory : Directory) : Directory :=
  (history.filter (fun file => file.declaredEndSequence.isSome &&
      decide (file.inspection.maxSequence ≤ watermark))).foldl
    (fun directory file =>
      { directory with segments := directory.segments.erase (file.declaredEndSequence.getD 0) })
    directory

variable [Platform]

/-- What the visitor of `inspect_binlog` updates. -/
def inspectRecord (inspection : BinlogInspection) (record : Bytes) :
    Except PersistenceError BinlogInspection := do
  let decoded ← decodeBinlogRecord record
  if inspection.minSequence.isSome ∧ checkedSucc inspection.maxSequence ≠ some decoded.sequence then
    throw (.new s!"Non-contiguous binlog sequence: {decoded.sequence} after {inspection.maxSequence}")
  match decodeCommittedBatch decoded.effects with
  | .error error =>
      throw (.new s!"Invalid committed-effect payload at binlog sequence {decoded.sequence}: {error.message}")
  | .ok _ =>
      return { inspection with
        minSequence := some (inspection.minSequence.getD decoded.sequence)
        maxSequence := decoded.sequence
        containsChecksumlessRecords := inspection.containsChecksumlessRecords ||
          decide (decoded.integrity = .checksumlessLegacy) }

/-- A missing file has no records. -/
def inspectBinlog (file : Bytes) : Except PersistenceError BinlogInspection := do
  let (inspection, tail) ← forEachBinlogRecord file inspectRecord {}
  return { inspection with
    validLen := file.length - tail.length
    truncatedTail := !tail.isEmpty }

def inspectSegments : List (Nat × Bytes) → Except PersistenceError (List InspectedBinlogFile)
  | [] => .ok []
  | (endSequence, contents) :: rest => do
      let inspection ← inspectBinlog contents
      let files ← inspectSegments rest
      return ⟨contents, some endSequence, inspection⟩ :: files

/-- The sealed segments after the repair of the last one; an incomplete tail may only be the end of
the history. -/
def repairSegments (directory : Directory) (segments : List InspectedBinlogFile)
    (active : BinlogInspection) : Except PersistenceError (List InspectedBinlogFile × Directory) :=
  match segments.findIdx? (fun segment => segment.inspection.truncatedTail) with
  | none => .ok (segments, directory)
  | some index =>
      let segment := segments[index]?.getD ⟨[], none, {}⟩
      if index + 1 ≠ segments.length ∨ active.minSequence.isSome then
        .error (.new s!"Sealed binlog segment has an incomplete tail before later history: {binlogSegment (segment.declaredEndSequence.getD 0)}")
      else do
        let (repaired, directory) ←
          repairLastIncompleteSegment directory (segment.declaredEndSequence.getD 0) segment
        return (segments.take index ++ repaired.toList, directory)

/-- The order in which `read_dir` lists the directory decides which of several errors is reported. -/
def inspectBinlogHistory (directory : Directory) :
    Except PersistenceError (List InspectedBinlogFile × Directory) := do
  match directory.malformedSegments with
  | name :: _ => throw (.new s!"Malformed binlog segment name: {name}")
  | [] => pure ()
  if directory.segments.entries.length > maxBinlogSegments then
    throw (.new s!"Binlog segment count exceeds the {maxBinlogSegments} segment limit")
  let segments ← inspectSegments directory.segments.entries
  let activeContents := directory.binlog.getD []
  let active ← inspectBinlog activeContents
  let (segments, directory) ← repairSegments directory segments active
  segments.forM checkSealedSegment
  let files := segments ++ [⟨activeContents, none, active⟩]
  checkContiguous none files
  return (files, directory)

/-- Where the replay stands: the staging store, the sequence it expects and the records replayed. -/
structure Replay where
  staging : ShardedStore
  expectedSequence : Option Nat
  replayed : Nat

def replayRecord (watermark : Nat) (replay : Replay) (record : Bytes) :
    Except PersistenceError Replay := do
  let decoded ← decodeBinlogRecord record
  if decoded.sequence ≤ watermark then return replay
  if replay.expectedSequence ≠ some decoded.sequence then
    let expected := match replay.expectedSequence with
      | some expected => toString expected
      | none => "no further sequence"
    throw (.new s!"Non-contiguous binlog replay sequence: expected {expected}, found {decoded.sequence}")
  let batch ← decodeCommittedBatch decoded.effects
  return ⟨applyCommittedBatch replay.staging batch, checkedSucc decoded.sequence, replay.replayed + 1⟩

def replayHistory (watermark : Nat) : List InspectedBinlogFile → Replay → Except PersistenceError Replay
  | [], replay => .ok replay
  | file :: rest, replay => do
      let (replay, _) ← forEachBinlogRecord file.contents (replayRecord watermark) replay
      replayHistory watermark rest replay

/-- Truncates the incomplete tail of the active binlog. -/
def truncateActive (directory : Directory) (active : BinlogInspection) : Directory :=
  if active.truncatedTail then
    { directory with binlog := directory.binlog.map (fun contents => contents.take active.validLen) }
  else directory

def snapshotWatermark : SnapshotFormat → Nat
  | .versioned watermark => watermark
  | _ => 0

/-- What recovery reports, given the history it found. -/
def recoveryState (history : List InspectedBinlogFile) (watermark replayed : Nat) : RecoveryState where
  lastSequence := max watermark ((history.map (fun file => file.inspection.maxSequence)).foldl max 0)
  snapshotWatermark := watermark
  replayedRecords := replayed
  activeBinlogBytes := ((history.find? (fun file => file.declaredEndSequence.isNone)).map
    (fun file => file.inspection.validLen)).getD 0
  unsnapshottedSegmentCount := history.countP (fun file =>
    file.declaredEndSequence.any (fun endSequence => decide (endSequence > watermark)))
  physicalSegmentCount := history.countP (fun file => file.declaredEndSequence.isSome) -
    history.countP (fun file => file.declaredEndSequence.isSome &&
      decide (file.inspection.maxSequence ≤ watermark))

/-- The active file of a history. -/
def activeInspection (history : List InspectedBinlogFile) : BinlogInspection :=
  ((history.find? (fun file => file.declaredEndSequence.isNone)).map
    InspectedBinlogFile.inspection).getD {}

structure Recovered where
  state : RecoveryState
  directory : Directory
  store : ShardedStore

def loadDataFromPaths (store : ShardedStore) (directory : Directory) :
    Except PersistenceError Recovered := do
  let directory ← recoverInterruptedBinlogRotation directory
  let snapshot := directory.snapshot.or directory.snapshotBackup
  let format ← inspectSnapshot snapshot
  if format = .legacy then
    throw (.new "Unsupported unsafe legacy snapshot format; create a verified versioned snapshot before upgrading")
  let (history, directory) ← inspectBinlogHistory directory
  let watermark := snapshotWatermark format
  let firstSequence := history.findSome? (fun file => file.inspection.minSequence)
  if firstSequence.any (fun first => decide (first > min (watermark + 1) (2 ^ 64 - 1))) then
    throw (.new "Binlog begins after the snapshot recovery boundary")
  let staging ← loadSnapshotEntries (.new store.engine.clock) snapshot format
  let replay ← replayHistory watermark history ⟨staging, checkedSucc watermark, 0⟩
  let directory := truncateActive directory (activeInspection history)
  let (entries, staging) := replay.staging.rawEntries
  let store := { store with engine := { store.engine with clock := staging.engine.clock } }
  let directory := cleanupRedundantBinlogRotationFiles
    (cleanupSnapshotCoveredSegments history watermark directory)
  return ⟨recoveryState history watermark replay.replayed, directory, store.replaceAll entries⟩

end OnyxDB.Persistence.Recovery
