import OnyxDB.Persistence.CoveredSegments
import OnyxDB.Persistence.CrashSafety
import OnyxDB.Persistence.RepeatedRecovery
import OnyxDB.Replication.ReplicaState

/-! Full synchronization: the entries a master sends are collected in a staging store, which then takes
the place of the directory's whole history. Installing it is a sequence of file system steps between
any two of which the process may die. -/

namespace OnyxDB.Replication
open OnyxDB.Library OnyxDB.Engine OnyxDB.Engine.Value OnyxDB.Store OnyxDB.Persistence
  OnyxDB.Persistence.Codec OnyxDB.Persistence.Commit OnyxDB.Persistence.Model
  OnyxDB.Persistence.Record OnyxDB.Persistence.Recovery OnyxDB.Persistence.Snapshot
  OnyxDB.Persistence.Writing
open OnyxDB.Persistence.Lifecycle (displaceSnapshot displaceSnapshot_files)

section Model

/-- A data directory with the two files of the replica state. -/
structure ReplicaDirectory extends Directory where
  replicaState : Option Bytes := none
  replicaStateTemp : Option Bytes := none

variable [Platform]

/-- The loop that receives the entries of a full synchronization; `seenKeys` are those received. -/
def receiveEntries : List Bytes → List Bytes → ShardedStore → Except PersistenceError ShardedStore
  | [], _, staging => .ok staging
  | payload :: payloads, seenKeys, staging =>
      match decodeSnapshotEntry payload with
      | .error error =>
          .error (.new s!"Master sent an invalid full synchronization entry: {error.message}")
      | .ok (key, entry) =>
          if key ∈ seenKeys then
            .error (.new "Master sent a duplicate key in the full synchronization snapshot")
          else
            receiveEntries payloads (key :: seenKeys) (applyCommittedEffect staging (.put key entry))

/-- The store a replica builds from the entries it is sent. -/
def receiveFullSync (clock : Clock) (payloads : List Bytes) : Except PersistenceError ShardedStore :=
  receiveEntries payloads [] (.new clock)

/-- What `install_full_sync` is given. -/
structure Baseline where
  identity : ReplicaIdentity
  staging : ShardedStore

def Baseline.entries (baseline : Baseline) : List (Bytes × DataEntry) := baseline.staging.rawEntries.1

/-- How far `install_full_sync` has come with the files. -/
inductive InstallPhase where
  | begun
  | invalidated
  | truncated
  | cleared
  | written
  | displaced
  | installed
  | ready
  deriving DecidableEq, Repr

/-- The file system steps of `install_full_sync`. A file that is being written may hold anything; the
segments are removed one by one, oldest first. -/
inductive InstallStep (baseline : Baseline) :
    InstallPhase × ReplicaDirectory → InstallPhase × ReplicaDirectory → Prop where
  | writeInstalling {directory : ReplicaDirectory} (bytes : Bytes) :
      InstallStep baseline (.begun, directory)
        (.begun, { directory with replicaStateTemp := some bytes })
  | renameInstalling {directory : ReplicaDirectory} :
      InstallStep baseline (.begun, directory)
        (.invalidated, { directory with
          replicaState := some (durableReplicaState .installing)
          replicaStateTemp := none })
  | truncateActive {directory : ReplicaDirectory} :
      InstallStep baseline (.invalidated, directory) (.truncated, { directory with binlog := some [] })
  | removeSegment {directory : ReplicaDirectory} {segment : Nat × Bytes} {segments : Catalog Bytes}
      (oldest : directory.segments.entries = segment :: segments.entries) :
      InstallStep baseline (.truncated, directory) (.truncated, { directory with segments })
  | finishRemoval {directory : ReplicaDirectory} (none_left : directory.segments.entries = []) :
      InstallStep baseline (.truncated, directory) (.cleared, directory)
  | writeTemporary {directory : ReplicaDirectory} (bytes : Bytes) :
      InstallStep baseline (.cleared, directory) (.cleared, { directory with snapshotTemp := some bytes })
  | finishTemporary {directory : ReplicaDirectory} {file : Bytes}
      (encoded : snapshotFile baseline.entries baseline.identity.baselineSequence = .ok file) :
      InstallStep baseline (.cleared, directory) (.written, { directory with snapshotTemp := some file })
  | displace {directory : ReplicaDirectory} :
      InstallStep baseline (.written, directory)
        (.displaced, { directory with toDirectory := displaceSnapshot directory.toDirectory })
  | install {directory : ReplicaDirectory} :
      InstallStep baseline (.displaced, directory)
        (.installed, { directory with snapshot := directory.snapshotTemp, snapshotTemp := none })
  | writeIdentity {directory : ReplicaDirectory} (bytes : Bytes) :
      InstallStep baseline (.installed, directory)
        (.installed, { directory with replicaStateTemp := some bytes })
  | renameIdentity {directory : ReplicaDirectory} :
      InstallStep baseline (.installed, directory)
        (.ready, { directory with
          replicaState := some (durableReplicaState (.ready baseline.identity))
          replicaStateTemp := none })

/-- The crash points of an installation. -/
abbrev InstallRun (baseline : Baseline) : InstallPhase × ReplicaDirectory → InstallPhase × ReplicaDirectory →
    Prop :=
  Relation.ReflTransGen (InstallStep baseline)

/-- A replica that starts on the directory resumes nothing before the identity is in place, and the
baseline from then on. -/
def RestartsAt (baseline : Baseline) (phase : InstallPhase) (directory : ReplicaDirectory) : Prop :=
  ∀ store : ShardedStore, ∃ result, loadDataFromPaths store directory.toDirectory = .ok result ∧
    ∃ identity marker, prepareReplicationStartup directory.replicaState result.state.snapshotWatermark true =
      .ok (identity, marker) ∧
    (phase ≠ .ready → identity = none) ∧
    (phase = .ready → identity = some baseline.identity ∧
      result.state.lastSequence = baseline.identity.baselineSequence ∧
      ∀ time, baseline.staging.engine.clock.Upto baseline.staging.rawEntries.2.engine.clock time →
        store.engine.clock.Upto result.store.engine.clock time →
        result.store.view time = baseline.staging.view time)

/-- Whatever the step at which an installation is interrupted, the replica can be started again. -/
def Restartable (baseline : Baseline) (directory : ReplicaDirectory) : Prop :=
  ∀ phase after, InstallRun baseline (.begun, directory) (phase, after) → RestartsAt baseline phase after

/-- A snapshot can be loaded whatever the clock says. -/
def Loadable (directory : Directory) (watermark : Nat) : Prop :=
  ∀ clock, ∃ staging, Snapshotted clock directory watermark staging

/-- The directory of a running replica that has begun to receive a full synchronization:
`begin_full_sync_reception` has marked it, recovery would accept it, and nothing in it is torn. -/
structure Receiving (directory : ReplicaDirectory) (watermark : Nat) : Prop where
  sound : Sound directory.toDirectory watermark []
  settled : Settled directory.toDirectory
  snapshot : Loadable directory.toDirectory watermark
  marked : directory.replicaState = some (durableReplicaState .installing)

end Model

section Reception
variable [Platform]

omit [Platform] in
theorem readU64Be_bounded {bytes rest : Bytes} {value : Nat} (read : readU64Be bytes = some (value, rest)) :
    value < 2 ^ 64 := by
  unfold readU64Be readBe at read
  split at read
  · cases read
  next long =>
    cases read
    have width : (bytes.take 8).length = 8 := by
      rw [List.length_take]
      omega
    have bound := BigEndian.ofBigEndian_lt (bytes.take 8)
    rw [width] at bound
    exact bound.trans_le (by decide)

/-- The expiry of a decoded entry came out of its field. -/
theorem decodeSnapshotEntry_storable {payload key : Bytes} {entry : PersistentEntry}
    (decoded : decodeSnapshotEntry payload = .ok (key, entry)) : Storable entry := by
  obtain ⟨⟨_, afterKey⟩, _, decoded⟩ := bind_ok decoded
  obtain ⟨⟨expiry, _⟩, read, decoded⟩ := bind_ok decoded
  obtain ⟨⟨_, _⟩, _, decoded⟩ := bind_ok decoded
  obtain ⟨⟨value, rest⟩, _, decoded⟩ := bind_ok decoded
  have bound : expiry < 2 ^ 64 := by
    cases field : readU64Be afterKey with
    | none => simp [field, orError] at read
    | some pair =>
        rw [field] at read
        cases read
        exact readU64Be_bounded field
  by_cases trailing : rest ≠ []
  · simp [trailing, bind, Except.bind, throw, throwThe, MonadExceptOf.throw] at decoded
  · simp only [trailing, if_false, bind, Except.bind, pure, Except.pure] at decoded
    cases decoded
    intro moment present
    by_cases zero : expiry = 0
    · simp [zero] at present
    · simp only [zero, if_false, Option.mem_some_iff] at present
      omega

/-- Every slot of a store satisfies a condition on its key and its persistent part. -/
def Holding (condition : Bytes → PersistentEntry → Prop) (store : ShardedStore) : Prop :=
  ∀ key entry, store.engine.lookup key = some entry → condition key (.ofDataEntry entry)

theorem Holding.put {condition : Bytes → PersistentEntry → Prop} {store : ShardedStore}
    (holding : Holding condition store) {key : Bytes} {entry : PersistentEntry} (here : condition key entry) :
    Holding condition (applyCommittedEffect store (.put key entry)) := by
  obtain ⟨reading, _, sets⟩ := store.unixSeconds.2.engine.applyEntry_sets key
    (entry.intoDataEntry store.unixSeconds.1)
  intro other found present
  change (store.unixSeconds.2.engine.applyEntry key (entry.intoDataEntry store.unixSeconds.1)).2.lookup
    other = some found at present
  by_cases same : other = key
  · subst same
    rw [sets.slot, fresh_some] at present
    split at present
    · cases present
    · cases present
      exact here
  · rw [sets.other same] at present
    exact holding other found present

theorem Holding.rawEntries {condition : Bytes → PersistentEntry → Prop} {store : ShardedStore}
    (holding : Holding condition store) :
    ∀ entry ∈ store.rawEntries.1, condition entry.1 (.ofDataEntry entry.2) := by
  rintro ⟨key, entry⟩ member
  have found : store.engine.snapshotAll.2.lookup key = some entry :=
    (store.engine.mem_snapshotAll key entry).mp member
  rcases store.engine.snapshotAll_ages.aged key List.not_mem_nil with same | ⟨reading, _, purged⟩
  · rw [same] at found
    exact holding key entry found
  · rw [purged] at found
    cases slot : store.engine.lookup key with
    | none =>
        rw [slot] at found
        cases found
    | some kept =>
        rw [slot, fresh_some] at found
        split at found
        · cases found
        · cases found
          exact holding key entry slot

theorem receiveEntries_holding {condition : Bytes → PersistentEntry → Prop} {payloads seenKeys : List Bytes}
    {staging result : ShardedStore} (received : receiveEntries payloads seenKeys staging = .ok result)
    (before : Holding condition staging)
    (decodes : ∀ payload ∈ payloads, ∀ key entry, decodeSnapshotEntry payload = .ok (key, entry) →
      condition key entry) : Holding condition result := by
  induction payloads generalizing seenKeys staging with
  | nil =>
      cases received
      exact before
  | cons payload payloads rest =>
      unfold receiveEntries at received
      cases decoded : decodeSnapshotEntry payload with
      | error failure => simp [decoded] at received
      | ok pair =>
          simp only [decoded] at received
          split at received
          · cases received
          · exact rest received (before.put (decodes payload List.mem_cons_self pair.1 pair.2 decoded))
              (fun payload member => decodes payload (List.mem_cons_of_mem _ member))

/-- The documents among some received entries are read back from what `serde_json` writes for them. -/
def DocumentsReadBack (payloads : List Bytes) : Prop :=
  ∀ payload ∈ payloads, ∀ key document expiresAt,
    decodeSnapshotEntry payload = .ok (key, ⟨.json document, expiresAt⟩) →
      Platform.jsonFromSlice (utf8Bytes (Platform.jsonToString document)) = .ok document

/-- What was decoded can be written and decoded again. -/
theorem received_roundTrips {clock : Clock} {payloads : List Bytes} {staging : ShardedStore}
    (received : receiveFullSync clock payloads = .ok staging) (documents : DocumentsReadBack payloads) :
    ∀ entry ∈ staging.rawEntries.1, EntryRoundTrips entry.1 (.ofDataEntry entry.2) := by
  apply @Holding.rawEntries _ EntryRoundTrips
  refine @receiveEntries_holding _ EntryRoundTrips payloads [] (.new clock) staging received ?_ ?_
  · intro key entry present
    cases present
  · intro payload member key entry decoded record encoded
    have readBack : readBackEntry entry = .ok entry := by
      obtain ⟨value, expiresAt⟩ := entry
      cases value with
      | json document =>
          simp only [readBackEntry, readBackValue, documents payload member key document expiresAt decoded]
          rfl
      | _ => rfl
    rw [decodeSnapshotEntry_written (decodeSnapshotEntry_storable decoded) encoded, readBack]
    rfl

end Reception

section Files
variable [Platform]

/-- A directory without records. -/
structure Cleared (directory : Directory) : Prop where
  names : directory.malformedSegments = []
  segments : directory.segments.entries = []
  active : directory.binlog.getD [] = []

theorem Cleared.logs {directory : Directory} (cleared : Cleared directory) : directoryLogs directory = [] := by
  rw [directoryLogs, cleared.segments, cleared.active]
  exact Reads.nil.logs

theorem Cleared.sound {directory : Directory} (cleared : Cleared directory) (watermark : Nat) :
    Sound directory watermark [] := by
  refine ⟨cleared.names, ?_, ?_, ?_, ?_, ?_⟩
  · rw [cleared.segments]
    exact Nat.zero_le _
  · rw [cleared.segments]
    simp
  · rw [cleared.active, Reads.nil.logs]
    exact Reads.nil
  · rw [cleared.logs]
    exact List.isChain_nil
  · rw [cleared.logs]
    simp

theorem Loadable.of_same {directory other : Directory} {watermark : Nat} (loadable : Loadable directory watermark)
    (same : other.snapshot.or other.snapshotBackup = directory.snapshot.or directory.snapshotBackup) :
    Loadable other watermark := by
  intro clock
  obtain ⟨staging, format⟩ := loadable clock
  obtain ⟨format⟩ := format
  rw [← same] at format
  exact ⟨staging, ⟨format⟩⟩

/-- A sound directory restarts as long as the installation is under way. -/
theorem restartsAt_installing {baseline : Baseline} {phase : InstallPhase} {directory : ReplicaDirectory}
    {watermark : Nat} (sound : Sound directory.toDirectory watermark [])
    (settled : Settled directory.toDirectory) (loadable : Loadable directory.toDirectory watermark)
    (marked : directory.replicaState = some (durableReplicaState .installing)) (early : phase ≠ .ready) :
    RestartsAt baseline phase directory := by
  intro store
  obtain ⟨staging, snapshot⟩ := loadable store.engine.clock
  refine ⟨_, sound.loads settled store snapshot, none, some (durableReplicaState .installing), ?_,
    fun _ => rfl, fun late => absurd late early⟩
  rw [marked]
  exact startup_installing _

theorem installSnapshotEntries_nodup_view {entries : List (Bytes × DataEntry)}
    (distinct : (entries.map Prod.fst).Nodup) (clock : Clock) {time : Nat}
    (upto : clock.Upto (installSnapshotEntries (.new clock)
      (entries.map (fun entry => (entry.1, .ofDataEntry entry.2)))).engine.clock time) :
    (installSnapshotEntries (.new clock) (entries.map (fun entry => (entry.1, .ofDataEntry entry.2)))).view
        time =
      visible time (Expiring.replay (fun _ => none)
        (entries.map (fun entry => (entry.1, some (.ofDataEntry entry.2))))) := by
  have names : ((entries.map (fun entry => (entry.1, PersistentEntry.ofDataEntry entry.2))).map
      Prod.fst).Nodup := by
    rw [List.map_map]
    exact distinct
  rw [installSnapshotEntries_view _ (.new clock) (outlasted_of_nodup names) (fun _ _ _ => rfl) upto, new_view,
    List.map_map]
  rfl

/-- The entries of a store, written to an empty one, are its content. -/
theorem rawEntries_content (store : ShardedStore) {time : Nat}
    (upto : store.engine.clock.Upto store.rawEntries.2.engine.clock time) :
    visible time (Expiring.replay (fun _ => none)
      (store.rawEntries.1.map (fun entry => (entry.1, some (.ofDataEntry entry.2))))) = store.view time := by
  have slots := Expiring.replay_listing store.engine.nodup_snapshotAll store.engine.mem_snapshotAll
    PersistentEntry.ofDataEntry
  have swept := store.engine.snapshotAll_ages.same_view upto
  calc
    visible time (Expiring.replay (fun _ => none)
        (store.rawEntries.1.map (fun entry => (entry.1, some (.ofDataEntry entry.2)))))
      = visible time (fun key => (store.engine.snapshotAll.2.lookup key).map PersistentEntry.ofDataEntry) :=
        congrArg (visible time) slots
    _ = store.engine.snapshotAll.2.view time := by
        funext key
        rw [visible, OnyxEngine.view, shown_eq_live]
    _ = store.view time := swept

/-- A directory that holds the snapshot of a baseline and nothing else. -/
structure Replaced (baseline : Baseline) (directory : Directory) : Prop where
  cleared : Cleared directory
  settled : Settled directory
  snapshot : ∃ file, directory.snapshot = some file ∧
    snapshotFile baseline.entries baseline.identity.baselineSequence = .ok file

/-- What the files of a baseline rest on: the codecs give back what they were given. -/
structure Baseline.Sound (baseline : Baseline) : Prop where
  valid : DurableReplicaState.Valid (.ready baseline.identity)
  gzip : GzipRoundTrips
  roundTrips : ∀ entry ∈ baseline.entries, EntryRoundTrips entry.1 (.ofDataEntry entry.2)

theorem Replaced.snapshotted {baseline : Baseline} {directory : Directory} (replaced : Replaced baseline directory)
    (sound : baseline.Sound) (clock : Clock) :
    Snapshotted clock directory baseline.identity.baselineSequence (installSnapshotEntries (.new clock)
      (baseline.entries.map (fun entry => (entry.1, .ofDataEntry entry.2)))) := by
  obtain ⟨file, found, written⟩ := replaced.snapshot
  have bounded := sound.valid.2.2
  refine ⟨.versioned baseline.identity.baselineSequence, ?_, by simp, rfl, ?_⟩
  · rw [found, Option.some_or]
    exact (snapshotFile_reads sound.gzip written bounded sound.roundTrips).1
  · rw [found, Option.some_or]
    exact loadSnapshotEntries_file (.new clock) sound.gzip written bounded sound.roundTrips

/-- The recovered store and sequence are those of the baseline. -/
theorem Replaced.restartsAt {baseline : Baseline} {directory : ReplicaDirectory}
    (replaced : Replaced baseline directory.toDirectory) (sound : baseline.Sound)
    (marked : directory.replicaState = some (durableReplicaState (.ready baseline.identity))) :
    RestartsAt baseline .ready directory := by
  intro store
  have files := replaced.cleared.sound baseline.identity.baselineSequence
  have snapshot := replaced.snapshotted sound store.engine.clock
  refine ⟨_, files.loads replaced.settled store snapshot, some baseline.identity,
    some (durableReplicaState (.ready baseline.identity)), ?_, fun late => absurd rfl late, fun _ => ⟨rfl, ?_, ?_⟩⟩
  · rw [marked]
    exact startup_ready sound.valid
  · rw [files.recovered_lastSequence, replaced.cleared.logs, lastOf_nil, Nat.max_zero]
  · intro time received restarted
    have writes := recovered_writes store directory.toDirectory
      (layoutHistory directory.toDirectory directory.segments.entries none [])
      baseline.identity.baselineSequence (installSnapshotEntries (.new store.engine.clock)
        (baseline.entries.map (fun entry => (entry.1, .ofDataEntry entry.2))))
    have unchanged := writes.view time (restarted.rest snapshot.leads)
    rw [layoutHistory_logs files.layout, replaced.cleared.logs] at unchanged
    calc
      _ = _ := unchanged
      _ = (installSnapshotEntries (.new store.engine.clock)
          (baseline.entries.map (fun entry => (entry.1, .ofDataEntry entry.2)))).view time :=
        visible_view _ time
      _ = visible time (Expiring.replay (fun _ => none)
          (baseline.entries.map (fun entry => (entry.1, some (.ofDataEntry entry.2))))) :=
        installSnapshotEntries_nodup_view baseline.staging.engine.nodup_snapshotAll _
          (restarted.start writes.leads)
      _ = baseline.staging.view time := rawEntries_content baseline.staging received

end Files

section Installation
variable [Platform]

/-- The files at each phase of an installation that began in `start`. -/
def Stage (baseline : Baseline) (start : ReplicaDirectory) :
    InstallPhase → ReplicaDirectory → Prop
  | .begun, directory | .invalidated, directory =>
      directory.toDirectory = start.toDirectory ∧
        directory.replicaState = some (durableReplicaState .installing)
  | .truncated, directory =>
      directory.toDirectory =
          { start.toDirectory with binlog := some [], segments := directory.segments } ∧
        directory.replicaState = some (durableReplicaState .installing) ∧
        ∃ removed, start.segments.entries = removed ++ directory.segments.entries
  | .cleared, directory =>
      Cleared directory.toDirectory ∧ Settled directory.toDirectory ∧
        directory.replicaState = some (durableReplicaState .installing) ∧
        directory.snapshot.or directory.snapshotBackup = start.snapshot.or start.snapshotBackup
  | .written, directory | .displaced, directory =>
      Cleared directory.toDirectory ∧ Settled directory.toDirectory ∧
        directory.replicaState = some (durableReplicaState .installing) ∧
        directory.snapshot.or directory.snapshotBackup = start.snapshot.or start.snapshotBackup ∧
        ∃ file, directory.snapshotTemp = some file ∧
          snapshotFile baseline.entries baseline.identity.baselineSequence = .ok file
  | .installed, directory =>
      Replaced baseline directory.toDirectory ∧
        directory.replicaState = some (durableReplicaState .installing)
  | .ready, directory =>
      Replaced baseline directory.toDirectory ∧
        directory.replicaState = some (durableReplicaState (.ready baseline.identity))

theorem stage_step {baseline : Baseline} {start : ReplicaDirectory} {watermark : Nat}
    (receiving : Receiving start watermark) {before after : InstallPhase × ReplicaDirectory}
    (step : InstallStep baseline before after) (stage : Stage baseline start before.1 before.2) :
    Stage baseline start after.1 after.2 := by
  cases step with
  | writeInstalling bytes => exact stage
  | renameInstalling => exact ⟨stage.1, rfl⟩
  | truncateActive =>
      rename_i directory
      have files : directory.toDirectory = start.toDirectory := stage.1
      refine ⟨?_, stage.2, [], ?_⟩
      · change { directory.toDirectory with binlog := some [] } =
          { start.toDirectory with binlog := some [], segments := directory.toDirectory.segments }
        rw [files]
      · change start.segments.entries = directory.toDirectory.segments.entries
        rw [files]
  | removeSegment oldest =>
      obtain ⟨files, marked, removed, split⟩ := stage
      rename_i directory segment segments
      refine ⟨?_, marked, removed ++ [segment], ?_⟩
      · exact congrArg (fun files : Directory => { files with segments }) files
      · rw [split, oldest, List.append_assoc, List.singleton_append]
  | finishRemoval none_left =>
      obtain ⟨files, marked, _⟩ := stage
      refine ⟨⟨?_, none_left, ?_⟩, ?_, marked, ?_⟩
      · rw [files]
        exact receiving.sound.names
      · rw [files, Option.getD_some]
      · rw [files]
        exact receiving.settled
      · rw [files]
  | writeTemporary bytes =>
      obtain ⟨⟨names, segments, active⟩, settled, marked, same⟩ := stage
      exact ⟨⟨names, segments, active⟩, settled, marked, same⟩
  | finishTemporary encoded =>
      obtain ⟨⟨names, segments, active⟩, settled, marked, same⟩ := stage
      exact ⟨⟨names, segments, active⟩, settled, marked, same, _, rfl, encoded⟩
  | displace =>
      rename_i directory
      obtain ⟨⟨names, segments, active⟩, ⟨backup, temporary⟩, marked, same, file, found, written⟩ := stage
      obtain ⟨keptNames, keptSegments, keptActive, keptBackup, keptTemporary, keptSnapshot⟩ :=
        displaceSnapshot_files directory.toDirectory
      refine ⟨⟨?_, ?_, ?_⟩, ⟨?_, ?_⟩, marked, ?_, file, ?_, written⟩
      · exact keptNames.trans names
      · exact (congrArg Catalog.entries keptSegments).trans segments
      · exact (congrArg (fun binlog => Option.getD binlog []) keptActive).trans active
      · exact keptBackup.trans backup
      · exact keptTemporary.trans temporary
      · exact (OnyxDB.Persistence.Lifecycle.displaceSnapshot_based _).trans same
      · exact keptSnapshot.trans found
  | install =>
      obtain ⟨⟨names, segments, active⟩, settled, marked, same, file, found, written⟩ := stage
      exact ⟨⟨⟨names, segments, active⟩, settled, file, found, written⟩, marked⟩
  | writeIdentity bytes => exact stage
  | renameIdentity => exact ⟨stage.1, rfl⟩

theorem stage_run {baseline : Baseline} {start : ReplicaDirectory} {watermark : Nat}
    (receiving : Receiving start watermark) {phase : InstallPhase} {after : ReplicaDirectory}
    (run : InstallRun baseline (.begun, start) (phase, after)) : Stage baseline start phase after := by
  have holds : ∀ state, InstallRun baseline (.begun, start) state → Stage baseline start state.1 state.2 := by
    intro state reached
    induction reached with
    | refl => exact ⟨rfl, receiving.marked⟩
    | tail _ step earlier => exact stage_step receiving step earlier
  exact holds (phase, after) run

/-- Removing the oldest segments one after the other. -/
theorem removal_run {baseline : Baseline} {directory : ReplicaDirectory} {removed : List (Nat × Bytes)}
    {segments : Catalog Bytes} (split : directory.segments.entries = removed ++ segments.entries) :
    InstallRun baseline (.truncated, directory) (.truncated, { directory with segments }) := by
  induction removed generalizing directory with
  | nil =>
      have same : directory.segments = segments := by
        cases entries : directory.segments with
        | mk list ordered =>
            cases segments
            rw [entries, List.nil_append] at split
            simp only at split
            subst split
            rfl
      subst same
      exact Relation.ReflTransGen.refl
  | cons segment removed rest =>
      have ordered := directory.segments.ordered
      rw [split, List.cons_append, List.pairwise_cons] at ordered
      have step : InstallStep baseline (.truncated, directory) (.truncated,
          { directory with segments := ⟨removed ++ segments.entries, ordered.2⟩ }) :=
        .removeSegment split
      exact Relation.ReflTransGen.head step (@rest { directory with
        segments := ⟨removed ++ segments.entries, ordered.2⟩ } rfl)

/-- All but the newest segment are covered by the snapshot. -/
def CoveredButNewest (directory : Directory) (watermark : Nat) : Prop :=
  ∀ segment ∈ directory.segments.entries.dropLast, segment.1 ≤ watermark

/-- While the segments are removed, what is left still joins the old snapshot. -/
theorem removal_sound {start : Directory} {watermark : Nat} (sound : Sound start watermark [])
    (covered : CoveredButNewest start watermark) {removed : List (Nat × Bytes)} {segments : Catalog Bytes}
    (split : start.segments.entries = removed ++ segments.entries) :
    Sound { start with binlog := some [], segments } watermark [] := by
  by_cases none_left : segments.entries = []
  · have empty : Cleared { start with binlog := some [], segments } := ⟨sound.names, none_left, rfl⟩
    exact empty.sound watermark
  · have early : ∀ segment ∈ removed, segment.1 ≤ watermark := by
      intro segment member
      apply covered
      rw [split, List.dropLast_append_of_ne_nil none_left]
      exact List.mem_append_left _ member
    exact (@Sound.remove _ { start with binlog := some [] } watermark [] sound.emptyActive removed segments
      split early).1

theorem restartable_of_covered {baseline : Baseline} {directory : ReplicaDirectory} {watermark : Nat}
    (receiving : Receiving directory watermark) (trusted : baseline.Sound)
    (covered : CoveredButNewest directory.toDirectory watermark) : Restartable baseline directory := by
  intro phase after run
  have stage := stage_run receiving run
  have cleared {phase : InstallPhase} (early : phase ≠ .ready) (empty : Cleared after.toDirectory)
      (settled : Settled after.toDirectory)
      (marked : after.replicaState = some (durableReplicaState .installing))
      (same : after.snapshot.or after.snapshotBackup = directory.snapshot.or directory.snapshotBackup) :
      RestartsAt baseline phase after :=
    restartsAt_installing (empty.sound watermark) settled (receiving.snapshot.of_same same) marked early
  have unchanged {phase : InstallPhase} (early : phase ≠ .ready)
      (files : after.toDirectory = directory.toDirectory)
      (marked : after.replicaState = some (durableReplicaState .installing)) :
      RestartsAt baseline phase after := by
    have sound := receiving.sound
    have settled := receiving.settled
    have snapshot := receiving.snapshot
    rw [← files] at sound settled snapshot
    exact restartsAt_installing sound settled snapshot marked early
  cases phase with
  | begun => exact unchanged (by decide) stage.1 stage.2
  | invalidated => exact unchanged (by decide) stage.1 stage.2
  | truncated =>
      obtain ⟨files, marked, removed, split⟩ := stage
      have sound := removal_sound receiving.sound covered split
      rw [← files] at sound
      refine restartsAt_installing sound ?_ (receiving.snapshot.of_same ?_) marked (by decide)
      · rw [files]
        exact receiving.settled
      · rw [files]
  | cleared =>
      obtain ⟨empty, settled, marked, same⟩ := stage
      exact cleared (by decide) empty settled marked same
  | written =>
      obtain ⟨empty, settled, marked, same, _⟩ := stage
      exact cleared (by decide) empty settled marked same
  | displaced =>
      obtain ⟨empty, settled, marked, same, _⟩ := stage
      exact cleared (by decide) empty settled marked same
  | installed =>
      obtain ⟨replaced, marked⟩ := stage
      exact restartsAt_installing (replaced.cleared.sound _) replaced.settled
        (fun clock => ⟨_, replaced.snapshotted trusted clock⟩) marked (by decide)
  | ready =>
      obtain ⟨replaced, marked⟩ := stage
      exact replaced.restartsAt trusted marked

/-- Recovery refuses a history that begins beyond the snapshot. -/
theorem begins_of_accepted {store : ShardedStore} {directory : Directory} {result : Recovered}
    (accepted : loadDataFromPaths store directory = .ok result) (settled : Settled directory)
    {watermark : Nat} (loadable : Loadable directory watermark) :
    ∀ log ∈ (directoryLogs directory).head?, log.sequence ≤ watermark + 1 := by
  obtain ⟨rotated, format, history, repaired, staging, rotation, header, _, inspected, begins, _, _⟩ :=
    loadDataFromPaths_ok.mp accepted
  rw [settled.rotation] at rotation
  cases rotation
  obtain ⟨_, ⟨other, otherHeader, _, same, _⟩⟩ := loadable store.engine.clock
  rw [header] at otherHeader
  cases otherHeader
  obtain ⟨complete, torn, tail, layout, _, _, rfl, _⟩ := layout_of_inspectBinlogHistory inspected
  rw [layoutHistory_logs layout, ← same] at begins
  exact begins

theorem covered_of_restartable {baseline : Baseline} {directory : ReplicaDirectory} {watermark : Nat}
    (receiving : Receiving directory watermark) (restartable : Restartable baseline directory) :
    CoveredButNewest directory.toDirectory watermark := by
  intro segment member
  obtain ⟨front, back, cut⟩ := List.append_of_mem member
  have nonempty : directory.segments.entries ≠ [] := by
    intro empty
    rw [empty] at member
    cases member
  have whole := List.dropLast_append_getLast nonempty
  rw [cut, List.append_assoc, List.cons_append] at whole
  generalize directory.segments.entries.getLast nonempty = newest at whole
  have split : directory.segments.entries = (front ++ [segment]) ++ (back ++ [newest]) := by
    rw [← whole, List.append_assoc, List.singleton_append]
  have ordered := directory.segments.ordered
  rw [split, List.pairwise_append] at ordered
  let segments : Catalog Bytes := ⟨back ++ [newest], ordered.2.1⟩
  let after : ReplicaDirectory := { directory with
    replicaState := some (durableReplicaState .installing)
    replicaStateTemp := none
    binlog := some []
    segments }
  have run : InstallRun baseline (.begun, directory) (.truncated, after) :=
    Relation.ReflTransGen.head .renameInstalling (Relation.ReflTransGen.head .truncateActive
      (removal_run split))
  obtain ⟨result, accepted, _⟩ := restartable _ _ run (.new (.constant 0))
  have begins := begins_of_accepted accepted receiving.settled (receiving.snapshot.of_same rfl)
  have complete := receiving.sound.segments segment (by rw [split]; simp)
  have left : directoryLogs after.toDirectory =
      (back ++ [newest]).flatMap (fun segment => binlogLogs segment.2) := by
    change (back ++ [newest]).flatMap (fun segment => binlogLogs segment.2) ++ binlogLogs [] = _
    rw [Reads.nil.logs, List.append_nil]
  have remaining : (back ++ [newest]).flatMap (fun segment => binlogLogs segment.2) ≠ [] := by
    have last := receiving.sound.segments newest (by rw [split]; simp)
    rw [List.flatMap_append, List.flatMap_singleton]
    exact List.append_ne_nil_of_right_ne_nil _ last.nonempty
  have chain := receiving.sound.consecutive
  rw [directoryLogs, split, List.flatMap_append] at chain
  have joint := (consecutive_append.mp (consecutive_append.mp chain).1).2.2
  have ending : (binlogLogs segment.2).getLast complete.nonempty ∈
      ((front ++ [segment]).flatMap (fun segment => binlogLogs segment.2)).getLast? := by
    rw [List.flatMap_append, List.flatMap_singleton, List.getLast?_append,
      List.getLast?_eq_some_getLast complete.nonempty, Option.some_or]
    rfl
  have opening := List.head?_eq_some_head remaining
  have follows := joint _ ending _ opening
  have limit := begins _ (by rw [left]; exact opening)
  have ends := complete.ends
  rw [lastOf, List.getLast?_eq_some_getLast complete.nonempty, Option.map_some, Option.getD_some] at ends
  omega

/-- An installation can be interrupted anywhere exactly when all segments but the newest are covered by
the old snapshot. -/
theorem restartable_iff (directory : ReplicaDirectory) (watermark : Nat) (clock : Clock)
    (payloads : List Bytes) (staging : ShardedStore) (identity : ReplicaIdentity)
    (receiving : Receiving directory watermark) (received : receiveFullSync clock payloads = .ok staging)
    (valid : DurableReplicaState.Valid (.ready identity)) (gzip : GzipRoundTrips)
    (documents : DocumentsReadBack payloads) :
    Restartable ⟨identity, staging⟩ directory ↔ CoveredButNewest directory.toDirectory watermark := by
  have trusted : Baseline.Sound ⟨identity, staging⟩ :=
    ⟨valid, gzip, received_roundTrips received documents⟩
  exact ⟨covered_of_restartable receiving, restartable_of_covered receiving trusted⟩

end Installation

section Interrupted
variable [Platform]
open OnyxDB.Persistence.CoveredSegments

theorem coveredHistory_sound (watermark : Nat) : Sound coveredHistory watermark [] := by
  have layout := coveredHistory_layout
  refine ⟨layout.names, layout.count, ?_, Reads.nil, ?_, ?_⟩
  · intro segment member
    exact layout.complete segment member
  · rw [directoryLogs_coveredHistory]
    simp [Consecutive]
  · rw [directoryLogs_coveredHistory]
    simp

/-- The three sealed records with the marker of a full synchronization. -/
def markedHistory : ReplicaDirectory :=
  { coveredHistory with replicaState := some (durableReplicaState .installing) }

theorem markedHistory_receiving (gzip : GzipRoundTrips) : Receiving markedHistory 3 := by
  have written : snapshotFile [] 3 =
      .ok (Platform.gzip ((snapshotHeader 3).flatMap String.utf8EncodeChar)) := rfl
  have snapshot := snapshotFile_reads gzip written (by decide) (by simp)
  refine ⟨coveredHistory_sound 3, ⟨rfl, rfl⟩, ?_, rfl⟩
  intro clock
  exact ⟨_, ⟨.versioned 3, snapshot.1, by simp, rfl,
    loadSnapshotEntries_file (.new clock) gzip written (by decide) (by simp)⟩⟩

/-- The same records, and no snapshot yet. -/
def unsnapshottedHistory : ReplicaDirectory := { markedHistory with snapshot := none }

/-- The unsnapshotted records without the first segment. -/
def beheadedHistory : ReplicaDirectory := { unsnapshottedHistory with
  segments := ⟨[(2, framedRecord 2 deletePayload), (3, framedRecord 3 deletePayload)], by simp⟩ }

theorem beheadedHistory_refused (store : ShardedStore) :
    loadDataFromPaths store beheadedHistory.toDirectory =
      .error (.new "Binlog begins after the snapshot recovery boundary") := by
  have second := (reads_deletion (Nat.succ_ne_zero 1) (by decide)).logs
  have third := (reads_deletion (Nat.succ_ne_zero 2) (by decide)).logs
  have last : binlogLogs [] = [] := Reads.nil.logs
  have logs : directoryLogs beheadedHistory.toDirectory =
      [⟨2, ⟨[.delete [107]]⟩, .checksummed⟩, ⟨3, ⟨[.delete [107]]⟩, .checksummed⟩] := by
    simp [directoryLogs, beheadedHistory, unsnapshottedHistory, markedHistory, coveredHistory, second, third,
      last]
  have layout : Layout beheadedHistory.toDirectory beheadedHistory.segments.entries none := by
    refine ⟨rfl, by simp [beheadedHistory, maxBinlogSegments], by simp, ?_, by simp, ⟨[], Reads.nil⟩⟩
    intro segment member
    simp only [beheadedHistory, List.mem_cons, List.not_mem_nil, or_false] at member
    rcases member with rfl | rfl <;> exact complete_deletion (by decide) (by decide)
  have chain : Consecutive (directoryLogs beheadedHistory.toDirectory) := by
    rw [logs]
    simp [Consecutive]
  have inspected := inspectBinlogHistory_of_layout layout chain Reads.nil
  have described := (inspectBinlogHistory_described inspected).1
  have rotation : recoverInterruptedBinlogRotation beheadedHistory.toDirectory =
    .ok beheadedHistory.toDirectory := rfl
  have header : inspectSnapshot (beheadedHistory.snapshot.or beheadedHistory.snapshotBackup) =
    .ok .missing := rfl
  have watermark : snapshotWatermark .missing = 0 := rfl
  unfold loadDataFromPaths
  simp only [rotation, header, bind, Except.bind, inspected, findSome_minSequence described,
    layoutHistory_logs layout, logs, watermark]
  rfl

theorem unsnapshottedHistory_receiving : Receiving unsnapshottedHistory 0 := by
  have sound := coveredHistory_sound 0
  refine ⟨⟨sound.names, sound.count, sound.segments, sound.active, sound.consecutive, sound.begins⟩,
    ⟨rfl, rfl⟩, ?_, rfl⟩
  intro clock
  exact ⟨.new clock, ⟨.missing, rfl, by simp, rfl, rfl⟩⟩

end Interrupted

/-- A snapshot covers the segments, and an empty baseline of sequence five takes their place. -/
theorem markedHistory_restartable :
    letI := Reference.platform (fun _ => .error "unsupported")
    Restartable ⟨⟨7, 5⟩, .new (.constant 0)⟩ markedHistory := by
  let _ := Reference.platform (fun _ => .error "unsupported")
  apply (restartable_iff markedHistory 3 (.constant 0) [] (.new (.constant 0)) ⟨7, 5⟩
    (markedHistory_receiving Reference.gunzip_gzip) rfl ⟨by decide, by decide, by decide⟩
    Reference.gunzip_gzip (by simp [DocumentsReadBack])).mpr
  intro segment member
  have known : segment.1 = 1 ∨ segment.1 = 2 := by
    simp only [markedHistory, CoveredSegments.coveredHistory, List.dropLast_cons_cons, List.dropLast_singleton,
      List.mem_cons, List.not_mem_nil, or_false] at member
    rcases member with rfl | rfl <;> simp
  omega

/-- Without a snapshot, the removal of the first segment leaves a history that recovery refuses. -/
theorem unsnapshottedHistory_stuck :
    letI := Reference.platform (fun _ => .error "unsupported")
    Receiving unsnapshottedHistory 0 ∧ receiveFullSync (.constant 0) [] = .ok (.new (.constant 0)) ∧
      ∃ after, InstallRun ⟨⟨7, 5⟩, .new (.constant 0)⟩ (.begun, unsnapshottedHistory) (.truncated, after) ∧
        loadDataFromPaths (.new (.constant 0)) after.toDirectory =
          .error (.new "Binlog begins after the snapshot recovery boundary") ∧
        ¬ Restartable ⟨⟨7, 5⟩, .new (.constant 0)⟩ unsnapshottedHistory := by
  let _ := Reference.platform (fun _ => .error "unsupported")
  have run : InstallRun ⟨⟨7, 5⟩, .new (.constant 0)⟩ (.begun, unsnapshottedHistory)
      (.truncated, beheadedHistory) :=
    Relation.ReflTransGen.head .renameInstalling (Relation.ReflTransGen.head .truncateActive
      (Relation.ReflTransGen.single (.removeSegment rfl)))
  have refused := beheadedHistory_refused (.new (.constant 0))
  refine ⟨unsnapshottedHistory_receiving, rfl, _, run, refused, ?_⟩
  intro restartable
  obtain ⟨result, accepted, _⟩ := restartable _ _ run (.new (.constant 0))
  rw [refused] at accepted
  cases accepted

end OnyxDB.Replication
