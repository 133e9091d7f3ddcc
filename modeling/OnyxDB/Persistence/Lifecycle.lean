import OnyxDB.Engine.Reference
import OnyxDB.Engine.SnapshotEpoch
import OnyxDB.Persistence.Writing

/-! The life of a data directory: batches are appended, generations sealed, snapshots captured, written
and installed, covered segments removed, and the process may die between any two of these steps and
recover. Whatever has happened, the directory recovers to a prefix of the batches that were handed to
the log, and to no less than those that were acknowledged. -/

namespace OnyxDB.Persistence.Lifecycle
open OnyxDB.Library OnyxDB.Engine OnyxDB.Engine.Value OnyxDB.Store OnyxDB.Persistence
  OnyxDB.Persistence.Codec OnyxDB.Persistence.Commit OnyxDB.Persistence.Model
  OnyxDB.Persistence.Record OnyxDB.Persistence.Recovery OnyxDB.Persistence.Snapshot
  OnyxDB.Persistence.Writing

section Model

def appendBytes (directory : Directory) (bytes : Bytes) : Directory :=
  { directory with binlog := some (directory.binlog.getD [] ++ bytes) }

theorem appendBytes_append (directory : Directory) (first second : Bytes) :
    appendBytes (appendBytes directory first) second = appendBytes directory (first ++ second) := by
  simp only [appendBytes, Option.getD_some, List.append_assoc]

variable [Platform]

/-- A batch of the log, with the round trips that are assumed of the codecs. -/
structure LoggedBatch extends EncodedBatch where
  decodes : decodeCommittedBatch payload = .ok batch
  entries : ∀ key entry, .put key entry ∈ batch.effects → EntryRoundTrips key entry

/-- The bytes `append_binlog_records` writes for a group, numbered from `sequence + 1` on. -/
def groupBytes : Nat → List LoggedBatch → Bytes
  | _, [] => []
  | sequence, batch :: group => framedRecord (sequence + 1) batch.payload ++ groupBytes (sequence + 1) group

/-- How far a compaction has come. Commits and rollovers go on during all of it. -/
inductive Compaction where
  | captured (watermark : Nat) (snapshot : EngineSnapshot)
  | materialized (watermark : Nat) (entries : List (Bytes × DataEntry))
  | written (watermark : Nat)
  | displaced (watermark : Nat)
  | installed (watermark : Nat)

/-- The memory of a running server. `snapshotWatermark` is what catalog maintenance goes by; `active`
tells whether the active binlog is open. -/
structure Server where
  store : ShardedStore
  sequence : Nat
  snapshotWatermark : Nat
  active : Bool
  compaction : Option Compaction

/-- The disk, the process if there is one, and the batches handed to the log since the beginning.
`clock` is the wall clock while no process runs. -/
structure System where
  directory : Directory
  clock : Clock
  process : Option Server
  batches : List LoggedBatch
  acknowledged : Nat

def applyGroup (store : ShardedStore) (group : List LoggedBatch) : ShardedStore :=
  group.foldl (fun store logged => applyCommittedBatch store logged.batch) store

/-- The file system step of `seal_active` that moves the active binlog away. -/
def moveActive (directory : Directory) (endSequence : Nat) : Directory :=
  { directory with
    binlog := none
    segments := directory.segments.insert endSequence (directory.binlog.getD []) }

/-- `write_snapshot_file` moves the installed snapshot aside if there is one. -/
def displaceSnapshot (directory : Directory) : Directory :=
  match directory.snapshot with
  | some file => { directory with snapshot := none, snapshotBackup := some file }
  | none => directory

/-- What a process does to itself and to the disk. -/
inductive Runs : Directory × Server → Directory × Server → Prop where
  /-- Reads advance the clock and drop what has expired. -/
  | observe {directory : Directory} {server : Server} {store : ShardedStore}
      (ages : server.store.engine.Ages store.engine) :
      Runs (directory, server) (directory, { server with store })
  | openActive {directory : Directory} {server : Server} :
      Runs (directory, server) (appendBytes directory [], { server with active := true })
  | moveActive {directory : Directory} {server : Server} (opened : server.active = true)
      (recorded : directory.binlog.getD [] ≠ []) (numbered : server.sequence ≠ 0)
      (vacant : directory.segments.contains server.sequence = false)
      (room : directory.segments.entries.length < maxBinlogSegments) :
      Runs (directory, server)
        (Lifecycle.moveActive directory server.sequence, { server with active := false })
  | capture {directory : Directory} {server : Server} (idle : server.compaction = none)
      (flat : server.store.engine.isFlat = true) :
      Runs (directory, server) (directory, { server with
        store := { server.store with engine := server.store.engine.beginSnapshot.2 }
        compaction := some (.captured server.sequence server.store.engine.beginSnapshot.1) })
  | materialize {directory : Directory} {server : Server} {watermark : Nat} {snapshot : EngineSnapshot}
      (phase : server.compaction = some (.captured watermark snapshot)) :
      Runs (directory, server) (directory, { server with
        store := { server.store with engine := server.store.engine.finishSnapshot }
        compaction := some (.materialized watermark snapshot.entries) })
  | writeTemporary {directory : Directory} {server : Server} {watermark : Nat}
      {entries : List (Bytes × DataEntry)} (bytes : Bytes)
      (phase : server.compaction = some (.materialized watermark entries)) :
      Runs (directory, server) ({ directory with snapshotTemp := some bytes }, server)
  | finishTemporary {directory : Directory} {server : Server} {watermark : Nat}
      {entries : List (Bytes × DataEntry)} {file : Bytes}
      (phase : server.compaction = some (.materialized watermark entries))
      (encoded : snapshotFile entries watermark = .ok file) :
      Runs (directory, server) ({ directory with snapshotTemp := some file },
        { server with compaction := some (.written watermark) })
  | abandon {directory : Directory} {server : Server} {watermark : Nat}
      {entries : List (Bytes × DataEntry)} {failure : PersistenceError}
      (phase : server.compaction = some (.materialized watermark entries))
      (refused : snapshotFile entries watermark = .error failure) :
      Runs (directory, server) (directory, { server with compaction := none })
  | displace {directory : Directory} {server : Server} {watermark : Nat}
      (phase : server.compaction = some (.written watermark)) :
      Runs (directory, server) (displaceSnapshot directory,
        { server with compaction := some (.displaced watermark) })
  | install {directory : Directory} {server : Server} {watermark : Nat}
      (phase : server.compaction = some (.displaced watermark)) :
      Runs (directory, server)
        ({ directory with snapshot := directory.snapshotTemp, snapshotTemp := none },
          { server with compaction := some (.installed watermark) })
  | finish {directory : Directory} {server : Server} {watermark : Nat}
      (phase : server.compaction = some (.installed watermark)) :
      Runs (directory, server) (directory,
        { server with snapshotWatermark := watermark, compaction := none })
  /-- Catalog maintenance removes the oldest segment when the snapshot covers it. -/
  | removeCovered {directory : Directory} {server : Server} {segment : Nat × Bytes}
      {segments : Catalog Bytes} (oldest : directory.segments.entries = segment :: segments.entries)
      (covered : segment.1 ≤ server.snapshotWatermark) :
      Runs (directory, server) ({ directory with segments }, server)

inductive Step : System → System → Prop where
  | run {system : System} {server after : Server} {directory : Directory}
      (up : system.process = some server) (runs : Runs (system.directory, server) (directory, after)) :
      Step system { system with directory, process := some after }
  /-- A group is acknowledged once all of it has been appended. -/
  | append {system : System} {server : Server} (group : List LoggedBatch)
      (up : system.process = some server) (opened : server.active = true)
      (room : server.sequence + group.length < 2 ^ 64) :
      Step system { system with
        directory := appendBytes system.directory (groupBytes server.sequence group)
        process := some { server with
          store := applyGroup server.store group
          sequence := server.sequence + group.length }
        batches := system.batches ++ group
        acknowledged := system.batches.length + group.length }
  /-- The process dies while it appends: any part of the group's bytes may be on disk. -/
  | crashInAppend {system : System} {server : Server} (group : List LoggedBatch) {written rest : Bytes}
      (up : system.process = some server) (opened : server.active = true)
      (room : server.sequence + group.length < 2 ^ 64)
      (cut : groupBytes server.sequence group = written ++ rest) :
      Step system { system with
        directory := appendBytes system.directory written
        clock := server.store.engine.clock
        process := none
        batches := system.batches ++ group }
  | crash {system : System} {server : Server} (up : system.process = some server) :
      Step system { system with clock := server.store.engine.clock, process := none }
  | wait {system : System} {clock : Clock} (down : system.process = none)
      (later : system.clock.Leads clock) : Step system { system with clock }
  /-- The process dies during recovery, after the active binlog has been cut back and some of the
  covered segments have been removed. -/
  | crashInRecovery {system : System} {store : ShardedStore} {result : Recovered}
      {removed : List (Nat × Bytes)} {segments : Catalog Bytes} (down : system.process = none)
      (same : store.engine.clock = system.clock)
      (accepted : loadDataFromPaths store system.directory = .ok result)
      (split : system.directory.segments.entries = removed ++ segments.entries)
      (covered : ∀ segment ∈ removed, segment.1 ≤ result.state.snapshotWatermark) :
      Step system { system with
        directory := { system.directory with
          binlog := system.directory.binlog.map validPart
          segments } }
  /-- The batches that did not survive are no longer part of the history. -/
  | recover {system : System} {store : ShardedStore} {result : Recovered}
      (down : system.process = none) (same : store.engine.clock = system.clock)
      (accepted : loadDataFromPaths store system.directory = .ok result) :
      Step system { system with
        directory := result.directory
        process := some ⟨result.store, result.state.lastSequence, result.state.snapshotWatermark, false,
          none⟩
        batches := system.batches.take result.state.lastSequence
        acknowledged := result.state.lastSequence }

inductive Reachable (clock : Clock) : System → Prop where
  | start : Reachable clock ⟨{}, clock, none, [], 0⟩
  | step {system after : System} (before : Reachable clock system) (next : Step system after) :
      Reachable clock after

/-- The content after the first `count` batches. -/
def content (batches : List LoggedBatch) (count : Nat) : Bytes → Option PersistentEntry :=
  Expiring.replay (fun _ => none) ((batches.take count).flatMap (fun logged => batchWrites logged.batch))

end Model

section Groups
variable [Platform]

/-- The records of a group. -/
def groupLogs : Nat → List LoggedBatch → List LogRecord
  | _, [] => []
  | sequence, batch :: group =>
      ⟨sequence + 1, batch.batch, .checksummed⟩ :: groupLogs (sequence + 1) group

theorem usable_appendBytes_nil {directory : Directory} {watermark last : Nat} {tail : Bytes}
    (usable : Usable directory watermark last tail) :
    Usable (appendBytes directory []) watermark last tail ∧
      directoryLogs (appendBytes directory []) = directoryLogs directory := by
  have active : (appendBytes directory []).binlog.getD [] = directory.binlog.getD [] := by
    simp only [appendBytes, Option.getD_some, List.append_nil]
  exact usable_of_same usable rfl rfl active

/-- Bytes that hold no complete record are left behind the records as an incomplete tail. -/
theorem usable_torn {directory : Directory} {watermark last : Nat} {part : Bytes}
    (usable : Usable directory watermark last []) (torn : nextBinlogRecord part = .ok none) :
    Usable (appendBytes directory part) watermark last part ∧
      directoryLogs (appendBytes directory part) = directoryLogs directory := by
  have reads := usable.active.append (Reads.finish torn)
  rw [List.append_nil] at reads
  have logs : directoryLogs (appendBytes directory part) = directoryLogs directory := by
    simp only [directoryLogs, appendBytes, Option.getD_some, reads.logs]
  refine ⟨⟨⟨usable.names, usable.count, usable.segments, ?_, ?_, ?_⟩, ?_, ?_⟩, logs⟩
  · simp only [appendBytes, Option.getD_some, reads.logs]
    exact reads
  · rw [logs]
    exact usable.consecutive
  · rw [logs]
    exact usable.begins
  · rw [logs]
    exact usable.reaches
  · rw [logs]
    exact usable.joined

/-- Any part of a group that reaches the disk is a number of complete records and a torn one. -/
theorem usable_cutGroup {directory : Directory} {watermark last : Nat} {group : List LoggedBatch}
    {written rest : Bytes} (usable : Usable directory watermark last [])
    (room : last + group.length < 2 ^ 64) (cut : groupBytes last group = written ++ rest) :
    ∃ count tail, count ≤ group.length ∧ (rest = [] → count = group.length ∧ tail = []) ∧
      Usable (appendBytes directory written) watermark (last + count) tail ∧
      directoryLogs (appendBytes directory written) =
        directoryLogs directory ++ groupLogs last (group.take count) := by
  induction group generalizing directory last written with
  | nil =>
      obtain ⟨rfl, rfl⟩ := List.append_eq_nil_iff.mp cut.symm
      obtain ⟨still, logs⟩ := usable_appendBytes_nil usable
      refine ⟨0, [], Nat.le_refl 0, by simp, still, ?_⟩
      rw [logs, List.take_nil, groupLogs, List.append_nil]
  | cons batch group later =>
      rw [List.length_cons] at room
      have whole (front : Bytes) (same : written = framedRecord (last + 1) batch.payload ++ front)
          (others : groupBytes (last + 1) group = front ++ rest) :
          ∃ count tail, count ≤ (batch :: group).length ∧
            (rest = [] → count = (batch :: group).length ∧ tail = []) ∧
            Usable (appendBytes directory written) watermark (last + count) tail ∧
            directoryLogs (appendBytes directory written) =
              directoryLogs directory ++ groupLogs last ((batch :: group).take count) := by
        obtain ⟨next, logs⟩ := usable.appendRecord batch.fits (by omega) batch.decodes
        obtain ⟨count, tail, bound, complete, final, added⟩ := later next (by omega) others
        rw [show appendBytes (appendRecord directory (last + 1) batch.payload) front =
          appendBytes directory written by rw [same]; exact appendBytes_append _ _ _] at final added
        refine ⟨count + 1, tail, by simpa using bound, ?_, ?_, ?_⟩
        · intro nothing
          obtain ⟨all, none_left⟩ := complete nothing
          exact ⟨by simp [all], none_left⟩
        · rw [show last + (count + 1) = last + 1 + count by omega]
          exact final
        · rw [added, logs, List.take_succ_cons, groupLogs, List.append_assoc, List.singleton_append]
      rw [groupBytes] at cut
      rcases List.append_eq_append_iff.mp cut with ⟨front, same, others⟩ | ⟨front, same, others⟩
      · exact whole front same others
      · by_cases finished : front = []
        · subst finished
          rw [List.append_nil] at same
          exact whole [] (by rw [same, List.append_nil]) (by simpa using others.symm)
        · have encodable : Encodable (last + 1) batch.payload := ⟨Nat.succ_ne_zero last, batch.fits⟩
          obtain ⟨torn, logs⟩ := usable_torn usable (nextBinlogRecord_torn encodable same finished)
          refine ⟨0, written, Nat.zero_le _, ?_, torn, ?_⟩
          · intro nothing
            rw [nothing] at others
            exact absurd (List.append_eq_nil_iff.mp others.symm).1 finished
          · rw [logs, List.take_zero, groupLogs, List.append_nil]

end Groups

end OnyxDB.Persistence.Lifecycle
