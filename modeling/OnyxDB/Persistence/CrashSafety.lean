import OnyxDB.Persistence.Lifecycle

/-! What every reachable state of a data directory keeps: the files carry a usable history of the
batches, the snapshot describes the content at its watermark, and a running server holds the content
of all batches. -/

namespace OnyxDB.Persistence.Lifecycle
open OnyxDB.Library OnyxDB.Engine OnyxDB.Engine.Value OnyxDB.Store OnyxDB.Persistence
  OnyxDB.Persistence.Codec OnyxDB.Persistence.Commit OnyxDB.Persistence.Model
  OnyxDB.Persistence.Record OnyxDB.Persistence.Recovery OnyxDB.Persistence.Snapshot
  OnyxDB.Persistence.Writing

section Histories
variable [Platform]

/-- The records on disk are batches of the history under their numbers. -/
def Matches (logs : List LogRecord) (batches : List LoggedBatch) : Prop :=
  ∀ log ∈ logs, ∃ logged, batches[log.sequence - 1]? = some logged ∧ logged.batch = log.batch

theorem Matches.append {logs : List LogRecord} {batches : List LoggedBatch} (matched : Matches logs batches)
    (group : List LoggedBatch) : Matches logs (batches ++ group) := by
  intro log member
  obtain ⟨logged, found, same⟩ := matched log member
  have inside : log.sequence - 1 < batches.length := by
    by_contra outside
    rw [List.getElem?_eq_none (Nat.le_of_not_lt outside)] at found
    cases found
  exact ⟨logged, by rw [List.getElem?_append_left inside]; exact found, same⟩

theorem Matches.take {logs : List LogRecord} {batches : List LoggedBatch} {count : Nat}
    (matched : Matches logs batches)
    (low : ∀ log ∈ logs, 0 < log.sequence ∧ log.sequence ≤ count) :
    Matches logs (batches.take count) := by
  intro log member
  obtain ⟨logged, found, same⟩ := matched log member
  have bounds := low log member
  refine ⟨logged, ?_, same⟩
  rw [List.getElem?_take_of_lt (by omega)]
  exact found

/-- The records of a group are its batches under the numbers that follow `sequence`. -/
theorem mem_groupLogs {sequence : Nat} {group : List LoggedBatch} {log : LogRecord}
    (member : log ∈ groupLogs sequence group) :
    ∃ logged, sequence < log.sequence ∧ group[log.sequence - 1 - sequence]? = some logged ∧
      logged.batch = log.batch := by
  induction group generalizing sequence with
  | nil => cases member
  | cons first group rest =>
      rcases List.mem_cons.mp member with rfl | later
      · refine ⟨first, Nat.lt_succ_self sequence, ?_, rfl⟩
        simp
      · obtain ⟨logged, above, found, same⟩ := rest later
        refine ⟨logged, by omega, ?_, same⟩
        rw [show log.sequence - 1 - sequence = log.sequence - 1 - (sequence + 1) + 1 by omega,
          List.getElem?_cons_succ]
        exact found

theorem matches_groupLogs (batches group : List LoggedBatch) (count : Nat) :
    Matches (groupLogs batches.length (group.take count)) (batches ++ group) := by
  intro log member
  obtain ⟨logged, above, found, same⟩ := mem_groupLogs member
  refine ⟨logged, ?_, same⟩
  rw [List.getElem?_append_right (by omega)]
  rw [List.getElem?_take] at found
  split at found
  · exact found
  · cases found

/-- Consecutive records that begin right after `watermark`. -/
theorem batches_of_consecutive {logs : List LogRecord} {batches : List LoggedBatch} {watermark : Nat}
    (consecutive : Consecutive logs) (first : ∀ log ∈ logs.head?, log.sequence = watermark + 1)
    (matched : Matches logs batches) :
    logs.map LogRecord.batch = ((batches.drop watermark).take logs.length).map (fun logged => logged.batch) ∧
      max watermark (lastOf logs) = watermark + logs.length := by
  induction logs generalizing watermark with
  | nil =>
      rw [lastOf_nil]
      simp
  | cons log logs rest =>
      have start := first log rfl
      obtain ⟨logged, found, same⟩ := matched log List.mem_cons_self
      rw [show log.sequence - 1 = watermark by omega] at found
      have next : ∀ later ∈ logs.head?, later.sequence = watermark + 1 + 1 := by
        intro later head
        have joint := (List.isChain_cons.mp consecutive).1 later head
        omega
      obtain ⟨others, final⟩ := rest consecutive.tail next
        (fun later member => matched later (List.mem_cons_of_mem _ member))
      obtain ⟨inside, value⟩ := List.getElem?_eq_some_iff.mp found
      constructor
      · rw [List.drop_eq_getElem_cons inside, value, List.length_cons, List.take_succ_cons, List.map_cons,
          List.map_cons, others, same]
      · rw [List.length_cons]
        by_cases empty : logs = []
        · subst empty
          rw [lastOf_singleton, List.length_nil]
          omega
        · have long := List.length_pos_iff.mpr empty
          rw [lastOf_cons empty]
          omega

/-- The records above the watermark are the batches that follow it. -/
theorem batches_of_above {logs : List LogRecord} {batches : List LoggedBatch} {watermark : Nat}
    (consecutive : Consecutive logs) (begins : ∀ log ∈ logs.head?, log.sequence ≤ watermark + 1)
    (matched : Matches logs batches) :
    ∃ count, (above watermark logs).map LogRecord.batch =
        ((batches.drop watermark).take count).map (fun logged => logged.batch) ∧
      max watermark (lastOf logs) = watermark + count := by
  induction logs with
  | nil => exact ⟨0, by simp [above], by rw [lastOf_nil]; omega⟩
  | cons log logs rest =>
      have start := begins log rfl
      by_cases covered : log.sequence ≤ watermark
      · have next : ∀ later ∈ logs.head?, later.sequence ≤ watermark + 1 := by
          intro later head
          have joint := (List.isChain_cons.mp consecutive).1 later head
          omega
        obtain ⟨count, others, final⟩ := rest consecutive.tail next
          (fun later member => matched later (List.mem_cons_of_mem _ member))
        have skipped : above watermark (log :: logs) = above watermark logs :=
          List.filter_cons_of_neg (by simpa using covered)
        refine ⟨count, by rw [skipped]; exact others, ?_⟩
        by_cases empty : logs = []
        · subst empty
          rw [lastOf_nil] at final
          rw [lastOf_singleton]
          omega
        · rw [lastOf_cons empty]
          exact final
      · have whole : above watermark (log :: logs) = log :: logs := by
          have later := lt_of_consecutive_append
            (show Consecutive ([log] ++ logs) from consecutive) log (List.mem_singleton_self log)
          rw [above, List.filter_eq_self]
          intro other member
          rcases List.mem_cons.mp member with rfl | after
          · simpa using covered
          · have order := later other after
            simp only [decide_eq_true_eq]
            omega
        rw [whole]
        have first : ∀ other ∈ (log :: logs).head?, other.sequence = watermark + 1 := by
          intro other head
          cases head
          omega
        exact ⟨_, batches_of_consecutive consecutive first matched⟩

/-- Replaying the records above the watermark continues the content at the watermark. -/
theorem replay_above {logs : List LogRecord} {batches : List LoggedBatch} {watermark : Nat}
    (consecutive : Consecutive logs) (begins : ∀ log ∈ logs.head?, log.sequence ≤ watermark + 1)
    (matched : Matches logs batches) :
    Expiring.replay (content batches watermark) (logsWrites (above watermark logs)) =
      content batches (max watermark (lastOf logs)) := by
  obtain ⟨count, same, final⟩ := batches_of_above consecutive begins matched
  have writes : logsWrites (above watermark logs) =
      ((batches.drop watermark).take count).flatMap (fun logged => batchWrites logged.batch) := by
    calc
      logsWrites (above watermark logs)
        = ((above watermark logs).map LogRecord.batch).flatMap batchWrites := by
          rw [logsWrites, List.flatMap_map]
      _ = (((batches.drop watermark).take count).map (fun logged => logged.batch)).flatMap batchWrites := by
          rw [same]
      _ = _ := by rw [List.flatMap_map]
  rw [final, content, content, List.take_add, List.flatMap_append, Expiring.replay_append, writes]

theorem content_append {batches : List LoggedBatch} {count : Nat} (within : count ≤ batches.length)
    (group : List LoggedBatch) : content (batches ++ group) count = content batches count := by
  rw [content, content, List.take_append_of_le_length within]

theorem content_take {batches : List LoggedBatch} {count bound : Nat} (within : count ≤ bound) :
    content (batches.take bound) count = content batches count := by
  rw [content, content, List.take_take, Nat.min_eq_left within]

end Histories

section Snapshots
variable [Platform]

/-- The entries show the given content at every time from `now` on. -/
structure Describes (entries : List (Bytes × DataEntry)) (target : Bytes → Option PersistentEntry)
    (now : Nat) : Prop where
  distinct : (entries.map Prod.fst).Nodup
  roundTrips : ∀ entry ∈ entries, EntryRoundTrips entry.1 (.ofDataEntry entry.2)
  view : ∀ time, now ≤ time → visible time (Expiring.replay (fun _ => none)
    (entries.map (fun entry => (entry.1, some (.ofDataEntry entry.2))))) = visible time target

theorem Describes.later {entries : List (Bytes × DataEntry)} {target : Bytes → Option PersistentEntry}
    {now later : Nat} (describes : Describes entries target now) (order : now ≤ later) :
    Describes entries target later :=
  ⟨describes.distinct, describes.roundTrips, fun time after => describes.view time (order.trans after)⟩

/-- A snapshot file of the content after the first `watermark` batches. -/
def Stored (file : Option Bytes) (batches : List LoggedBatch) (watermark now : Nat) : Prop :=
  ∃ contents entries, file = some contents ∧ snapshotFile entries watermark = .ok contents ∧
    Describes entries (content batches watermark) now

/-- What recovery starts from: a snapshot file, or nothing. -/
def Based (file : Option Bytes) (batches : List LoggedBatch) (watermark now : Nat) : Prop :=
  (file = none ∧ watermark = 0) ∨ Stored file batches watermark now

theorem Stored.carry {file : Option Bytes} {batches others : List LoggedBatch} {watermark now later : Nat}
    (stored : Stored file batches watermark now) (order : now ≤ later)
    (same : content others watermark = content batches watermark) :
    Stored file others watermark later := by
  obtain ⟨contents, entries, found, written, describes⟩ := stored
  refine ⟨contents, entries, found, written, ?_⟩
  rw [same]
  exact describes.later order

theorem Based.carry {file : Option Bytes} {batches others : List LoggedBatch} {watermark now later : Nat}
    (based : Based file batches watermark now) (order : now ≤ later)
    (same : content others watermark = content batches watermark) :
    Based file others watermark later :=
  based.imp id (fun stored => stored.carry order same)

/-- Loading the snapshot gives the content at its watermark. -/
theorem Based.loads {directory : Directory} {batches : List LoggedBatch} {watermark now : Nat}
    (gzip : GzipRoundTrips)
    (based : Based (directory.snapshot.or directory.snapshotBackup) batches watermark now)
    (bounded : watermark < 2 ^ 64) {clock : Clock} (steady : clock.Nondecreasing)
    (reached : now ≤ clock.now) :
    ∃ staging, Snapshotted clock directory watermark staging ∧
      ∀ time, staging.engine.clock.now ≤ time →
        staging.view time = visible time (content batches watermark) := by
  rcases based with ⟨missing, rfl⟩ | ⟨contents, entries, found, written, describes⟩
  · refine ⟨.new clock, ⟨.missing, ?_, by simp, rfl, ?_⟩, ?_⟩
    · rw [missing]
      rfl
    · rw [missing]
      rfl
    · intro time _
      rw [new_view]
      rfl
  · obtain ⟨header, _⟩ := snapshotFile_reads gzip written bounded describes.roundTrips
    have loaded := loadSnapshotEntries_file (.new clock) gzip written bounded describes.roundTrips
    refine ⟨_, ⟨.versioned watermark, by rw [found]; exact header, by simp, rfl,
      by rw [found]; exact loaded⟩, ?_⟩
    intro time after
    have leads := installSnapshotEntries_leads
      (entries.map (fun entry => (entry.1, PersistentEntry.ofDataEntry entry.2))) (.new clock)
    have begun : now ≤ time := reached.trans ((leads.now_le steady).trans after)
    have outlasted : Outlasted (entries.map
        (fun entry => (entry.1, PersistentEntry.ofDataEntry entry.2))) := by
      apply outlasted_of_nodup
      rw [List.map_map]
      exact describes.distinct
    rw [installSnapshotEntries_view _ (.new clock) outlasted (fun _ _ _ => rfl) (steady.upto after),
      new_view, List.map_map]
    exact describes.view time begun

/-- Every entry of the content was put by one of the batches. -/
theorem content_mem {batches : List LoggedBatch} {count : Nat} {key : Bytes} {entry : PersistentEntry}
    (found : content batches count key = some entry) :
    ∃ logged ∈ batches, .put key entry ∈ logged.batch.effects := by
  have source := Expiring.replay_mem (fun _ : Bytes => (none : Option PersistentEntry)) _ key found
  rcases source with start | member
  · cases start
  · obtain ⟨logged, early, written⟩ := List.mem_flatMap.mp member
    obtain ⟨effect, listed, same⟩ := List.mem_map.mp written
    refine ⟨logged, List.mem_of_mem_take early, ?_⟩
    cases effect with
    | put other held =>
        cases same
        exact listed
    | delete other => cases same

/-- A captured epoch describes the content that the store shows. -/
theorem describes_capture {store : ShardedStore} {batches : List LoggedBatch} {count : Nat}
    (flat : store.engine.isFlat = true)
    (view : store.view store.engine.clock.now = visible store.engine.clock.now (content batches count)) :
    Describes store.engine.beginSnapshot.1.entries (content batches count) store.engine.clock.now := by
  have member := fun key entry => OnyxEngine.mem_beginSnapshot_entries flat key entry
  have distinct := OnyxEngine.nodup_entries store.engine.beginSnapshot.1
  generalize store.engine.beginSnapshot.1.entries = entries at member distinct
  have shows_ (key : Bytes) : store.view store.engine.clock.now key =
      (fresh store.engine.clock.now (store.engine.lookup key)).map PersistentEntry.ofDataEntry := rfl
  have slots : Expiring.replay (fun _ => none)
      (entries.map (fun entry => (entry.1, some (PersistentEntry.ofDataEntry entry.2)))) =
        visible store.engine.clock.now (content batches count) := by
    rw [← view]
    exact Expiring.replay_listing distinct member PersistentEntry.ofDataEntry
  refine ⟨distinct, ?_, ?_⟩
  · intro entry listed
    have found : store.view store.engine.clock.now entry.1 = some (.ofDataEntry entry.2) := by
      rw [shows_, (member entry.1 entry.2).mp listed]
      rfl
    rw [view] at found
    obtain ⟨logged, _, written⟩ := content_mem (Expiring.live_eq_some found).1
    exact logged.entries _ _ written
  · intro time after
    rw [slots, visible_visible after]

end Snapshots

section Invariant

theorem displaceSnapshot_based (directory : Directory) :
    (displaceSnapshot directory).snapshot.or (displaceSnapshot directory).snapshotBackup =
      directory.snapshot.or directory.snapshotBackup := by
  unfold displaceSnapshot
  cases found : directory.snapshot with
  | none => simp [found]
  | some file => simp

theorem displaceSnapshot_files (directory : Directory) :
    (displaceSnapshot directory).malformedSegments = directory.malformedSegments ∧
      (displaceSnapshot directory).segments = directory.segments ∧
      (displaceSnapshot directory).binlog = directory.binlog ∧
      (displaceSnapshot directory).binlogBackup = directory.binlogBackup ∧
      (displaceSnapshot directory).binlogTemp = directory.binlogTemp ∧
      (displaceSnapshot directory).snapshotTemp = directory.snapshotTemp := by
  unfold displaceSnapshot
  cases directory.snapshot <;> exact ⟨rfl, rfl, rfl, rfl, rfl, rfl⟩

variable [Platform]

/-- A directory that recovers to the first `last` batches. -/
structure Disk (directory : Directory) (batches : List LoggedBatch) (watermark last : Nat) (tail : Bytes)
    (now : Nat) : Prop where
  settled : Settled directory
  usable : Usable directory watermark last tail
  matched : Matches (directoryLogs directory) batches
  based : Based (directory.snapshot.or directory.snapshotBackup) batches watermark now
  handed : last ≤ batches.length
  bounded : batches.length < 2 ^ 64

/-- What a compaction has so far: the entries of its watermark, in memory or in the temporary file. -/
def Phase (temporary : Option Bytes) (batches : List LoggedBatch) (watermark sequence now : Nat) :
    Option Compaction → Prop
  | none => True
  | some (.captured boundary snapshot) => watermark ≤ boundary ∧ boundary ≤ sequence ∧
      Describes snapshot.entries (content batches boundary) now
  | some (.materialized boundary entries) => watermark ≤ boundary ∧ boundary ≤ sequence ∧
      Describes entries (content batches boundary) now
  | some (.written boundary) => watermark ≤ boundary ∧ boundary ≤ sequence ∧
      Stored temporary batches boundary now
  | some (.displaced boundary) => watermark ≤ boundary ∧ boundary ≤ sequence ∧
      Stored temporary batches boundary now
  | some (.installed boundary) => boundary ≤ watermark

/-- A running server and its directory. -/
structure Up (directory : Directory) (server : Server) (batches : List LoggedBatch) (watermark : Nat) :
    Prop where
  disk : Disk directory batches watermark server.sequence [] server.store.engine.clock.now
  whole : server.sequence = batches.length
  steady : server.store.engine.clock.Nondecreasing
  covered : server.snapshotWatermark ≤ watermark
  view : ∀ time, server.store.engine.clock.now ≤ time →
    server.store.view time = visible time (content batches server.sequence)
  phase : Phase directory.snapshotTemp batches watermark server.sequence server.store.engine.clock.now
    server.compaction

/-- The state of a system between two of its steps. -/
def Invariant (system : System) : Prop :=
  match system.process with
  | some server => ∃ watermark, Up system.directory server system.batches watermark ∧
      system.acknowledged ≤ server.sequence
  | none => ∃ watermark last tail, Disk system.directory system.batches watermark last tail
      system.clock.now ∧ system.clock.Nondecreasing ∧ system.acknowledged ≤ last

theorem Disk.later {directory : Directory} {batches : List LoggedBatch} {watermark last : Nat}
    {tail : Bytes} {now later : Nat} (disk : Disk directory batches watermark last tail now)
    (order : now ≤ later) : Disk directory batches watermark last tail later :=
  ⟨disk.settled, disk.usable, disk.matched, disk.based.carry order rfl, disk.handed, disk.bounded⟩

theorem Phase.carry {temporary : Option Bytes} {batches others : List LoggedBatch}
    {watermark sequence next now later : Nat} {compaction : Option Compaction}
    (phase : Phase temporary batches watermark sequence now compaction) (order : now ≤ later)
    (more : sequence ≤ next)
    (same : ∀ boundary, boundary ≤ sequence → content others boundary = content batches boundary) :
    Phase temporary others watermark next later compaction := by
  match compaction, phase with
  | none, _ => trivial
  | some (.captured boundary snapshot), ⟨low, high, describes⟩ =>
      refine ⟨low, high.trans more, ?_⟩
      rw [same boundary high]
      exact describes.later order
  | some (.materialized boundary entries), ⟨low, high, describes⟩ =>
      refine ⟨low, high.trans more, ?_⟩
      rw [same boundary high]
      exact describes.later order
  | some (.written boundary), ⟨low, high, stored⟩ =>
      exact ⟨low, high.trans more, stored.carry order (same boundary high)⟩
  | some (.displaced boundary), ⟨low, high, stored⟩ =>
      exact ⟨low, high.trans more, stored.carry order (same boundary high)⟩
  | some (.installed boundary), low => exact low

/-- What the files and a compaction under way come to, whatever the store shows by now. -/
structure Kept (directory : Directory) (server : Server) (batches : List LoggedBatch)
    (watermark last : Nat) (tail : Bytes) : Prop where
  disk : Disk directory batches watermark last tail server.store.engine.clock.now
  steady : server.store.engine.clock.Nondecreasing
  covered : ∀ segment ∈ directory.segments.entries, segment.1 ≤ server.snapshotWatermark →
    segment.1 ≤ watermark
  phase : Phase directory.snapshotTemp batches watermark last server.store.engine.clock.now
    server.compaction

/-- A server whose store shows the batches up to its sequence, as its directory does. -/
structure Shown (directory : Directory) (server : Server) (batches : List LoggedBatch)
    (watermark : Nat) : Prop extends Kept directory server batches watermark server.sequence [] where
  behind : server.snapshotWatermark ≤ watermark
  view : ∀ time, server.store.engine.clock.now ≤ time →
    server.store.view time = visible time (content batches server.sequence)

theorem Up.shown {directory : Directory} {server : Server} {batches : List LoggedBatch} {watermark : Nat}
    (up : Up directory server batches watermark) : Shown directory server batches watermark :=
  ⟨⟨up.disk, up.steady, fun _ _ below => below.trans up.covered, up.phase⟩, up.covered, up.view⟩

theorem Shown.up {directory : Directory} {server : Server} {batches : List LoggedBatch} {watermark : Nat}
    (shown : Shown directory server batches watermark) (whole : server.sequence = batches.length) :
    Up directory server batches watermark :=
  ⟨shown.disk, whole, shown.steady, shown.behind, shown.view, shown.phase⟩

/-- A store whose clock has gone on. -/
theorem Kept.withStore {directory : Directory} {server : Server} {batches : List LoggedBatch}
    {watermark last : Nat} {tail : Bytes} (kept : Kept directory server batches watermark last tail)
    {store : ShardedStore} {compaction : Option Compaction}
    (leads : server.store.engine.clock.Leads store.engine.clock)
    (phase : Phase directory.snapshotTemp batches watermark last store.engine.clock.now compaction) :
    Kept directory { server with store, compaction } batches watermark last tail :=
  ⟨kept.disk.later (leads.now_le kept.steady), leads.nondecreasing kept.steady, kept.covered, phase⟩

/-- A change of the directory that keeps its history and its snapshot. -/
theorem Kept.withDirectory {directory other : Directory} {server after : Server}
    {batches : List LoggedBatch} {watermark higher last : Nat} {tail : Bytes}
    (kept : Kept directory server batches watermark last tail) (store : after.store = server.store)
    (disk : Disk other batches higher last tail server.store.engine.clock.now)
    (covered : ∀ segment ∈ other.segments.entries, segment.1 ≤ after.snapshotWatermark →
      segment.1 ≤ higher)
    (phase : Phase other.snapshotTemp batches higher last server.store.engine.clock.now
      after.compaction) : Kept other after batches higher last tail := by
  refine ⟨?_, ?_, covered, ?_⟩
  · rw [store]
    exact disk
  · rw [store]
    exact kept.steady
  · rw [store]
    exact phase

/-- Moving the active binlog away under the sequence it reaches. -/
theorem Disk.moveActive {directory : Directory} {batches : List LoggedBatch} {watermark last now : Nat}
    (disk : Disk directory batches watermark last [] now) (recorded : directory.binlog.getD [] ≠ [])
    (room : directory.segments.entries.length < maxBinlogSegments) :
    Disk (Lifecycle.moveActive directory last) batches watermark last [] now := by
  obtain ⟨_, usable, logs⟩ := disk.usable.sealActive recorded room
  obtain ⟨moved, same⟩ := @usable_of_same _ _ (Lifecycle.moveActive directory last) _ _ _ usable rfl rfl rfl
  refine ⟨disk.settled, moved, ?_, disk.based, disk.handed, disk.bounded⟩
  rw [same, logs]
  exact disk.matched

/-- Removing the oldest segments as far as the snapshot covers them. -/
theorem Disk.remove {directory : Directory} {batches : List LoggedBatch} {watermark last now : Nat}
    {tail : Bytes} (disk : Disk directory batches watermark last tail now)
    {removed : List (Nat × Bytes)} {segments : Catalog Bytes}
    (split : directory.segments.entries = removed ++ segments.entries)
    (covered : ∀ segment ∈ removed, segment.1 ≤ watermark) :
    Disk { directory with segments } batches watermark last tail now := by
  obtain ⟨_, logs, _⟩ := disk.usable.toSound.remove split covered
  refine ⟨disk.settled, disk.usable.remove split covered, ?_, disk.based, disk.handed, disk.bounded⟩
  intro log member
  apply disk.matched
  rw [logs]
  exact List.mem_append_right _ member

theorem Disk.truncate {directory : Directory} {batches : List LoggedBatch} {watermark last now : Nat}
    {tail : Bytes} (disk : Disk directory batches watermark last tail now) :
    Disk { directory with binlog := directory.binlog.map validPart } batches watermark last [] now := by
  obtain ⟨_, logs⟩ := disk.usable.toSound.truncate
  refine ⟨disk.settled, disk.usable.truncate, ?_, disk.based, disk.handed, disk.bounded⟩
  rw [logs]
  exact disk.matched

/-- Files beside the history and the snapshot make no difference. -/
theorem Disk.same_files {directory other : Directory} {batches : List LoggedBatch}
    {watermark last now : Nat} {tail : Bytes} (disk : Disk directory batches watermark last tail now)
    (settled : Settled other) (names : other.malformedSegments = directory.malformedSegments)
    (segments : other.segments = directory.segments)
    (active : other.binlog.getD [] = directory.binlog.getD [])
    (snapshot : other.snapshot.or other.snapshotBackup =
      directory.snapshot.or directory.snapshotBackup) :
    Disk other batches watermark last tail now := by
  obtain ⟨usable, logs⟩ := usable_of_same disk.usable names segments active
  refine ⟨settled, usable, ?_, ?_, disk.handed, disk.bounded⟩
  · rw [logs]
    exact disk.matched
  · rw [snapshot]
    exact disk.based

/-- A process writes nothing to its store by itself. -/
theorem runs_writes_nothing {directory other : Directory} {server after : Server}
    (runs : Runs (directory, server) (other, after)) :
    Writes server.store after.store [] ∧ after.sequence = server.sequence := by
  have unchanged {store : ShardedStore} (leads : server.store.engine.clock.Leads store.engine.clock)
      (same : ∀ time, server.store.engine.clock.Upto store.engine.clock time →
        store.view time = server.store.view time) : Writes server.store store [] := by
    refine ⟨leads, ?_⟩
    intro time upto
    rw [same time upto]
    exact (visible_view server.store.engine time).symm
  cases runs with
  | observe ages => exact ⟨unchanged ages.leads (fun time upto => ages.same_view upto), rfl⟩
  | capture idle flat =>
      refine ⟨unchanged server.store.engine.clock.leads_tick ?_, rfl⟩
      intro time _
      funext key
      exact congrArg (shown time) (congrFun server.store.engine.lookup_beginSnapshot key)
  | materialize current =>
      refine ⟨unchanged (Clock.Leads.refl _) ?_, rfl⟩
      intro time _
      funext key
      exact congrArg (shown time) (congrFun server.store.engine.lookup_finishSnapshot key)
  | openActive => exact ⟨Writes.refl _, rfl⟩
  | moveActive => exact ⟨Writes.refl _, rfl⟩
  | writeTemporary => exact ⟨Writes.refl _, rfl⟩
  | finishTemporary => exact ⟨Writes.refl _, rfl⟩
  | abandon => exact ⟨Writes.refl _, rfl⟩
  | displace => exact ⟨Writes.refl _, rfl⟩
  | install => exact ⟨Writes.refl _, rfl⟩
  | finish => exact ⟨Writes.refl _, rfl⟩
  | removeCovered => exact ⟨Writes.refl _, rfl⟩

/-- What a process does outside the commit boundary keeps the files, torn or not. -/
theorem Kept.runs {directory other : Directory} {server after : Server} {batches : List LoggedBatch}
    {watermark last : Nat} {tail : Bytes} (kept : Kept directory server batches watermark last tail)
    (runs : Runs (directory, server) (other, after)) (stays : after.active = server.active)
    (uncaptured : server.compaction = none → after.compaction = none) :
    ∃ higher, Kept other after batches higher last tail ∧
      (server.snapshotWatermark ≤ watermark → after.snapshotWatermark ≤ higher) := by
  have phase := kept.phase
  cases runs with
  | observe ages =>
      have order := ages.leads.now_le kept.steady
      exact ⟨watermark, kept.withStore ages.leads (phase.carry order le_rfl (fun _ _ => rfl)), id⟩
  | openActive =>
      have active : (appendBytes directory []).binlog.getD [] = directory.binlog.getD [] := by
        simp only [appendBytes, Option.getD_some, List.append_nil]
      exact ⟨watermark, kept.withDirectory rfl (kept.disk.same_files kept.disk.settled rfl rfl active rfl)
        kept.covered phase, id⟩
  | moveActive opened recorded numbered vacant room =>
      rw [opened] at stays
      cases stays
  | capture idle flat => cases uncaptured idle
  | @materialize _ _ boundary snapshot current =>
      rw [current] at phase
      exact ⟨watermark, kept.withStore (Clock.Leads.refl _) phase, id⟩
  | writeTemporary bytes current =>
      rw [current] at phase
      refine ⟨watermark, kept.withDirectory rfl (kept.disk.same_files kept.disk.settled rfl rfl rfl rfl)
        kept.covered ?_, id⟩
      rw [current]
      exact phase
  | finishTemporary current encoded =>
      rw [current] at phase
      obtain ⟨low, high, describes⟩ := phase
      exact ⟨watermark, kept.withDirectory rfl (kept.disk.same_files kept.disk.settled rfl rfl rfl rfl)
        kept.covered ⟨low, high, _, _, rfl, encoded, describes⟩, id⟩
  | abandon current refused => exact ⟨watermark, kept.withDirectory rfl kept.disk kept.covered trivial, id⟩
  | displace current =>
      rw [current] at phase
      obtain ⟨names, segments, binlog, backup, temporary, snapshot⟩ := displaceSnapshot_files directory
      have settled : Settled (displaceSnapshot directory) :=
        ⟨backup.trans kept.disk.settled.1, temporary.trans kept.disk.settled.2⟩
      refine ⟨watermark, kept.withDirectory rfl (kept.disk.same_files settled names segments
        (by rw [binlog]) (displaceSnapshot_based directory)) ?_ ?_, id⟩
      · rw [segments]
        exact kept.covered
      · rw [snapshot]
        exact phase
  | @install _ _ boundary current =>
      rw [current] at phase
      obtain ⟨low, high, stored⟩ := phase
      have based : (directory.snapshotTemp.or directory.snapshotBackup) = directory.snapshotTemp := by
        obtain ⟨contents, _, found, _⟩ := stored
        rw [found]
        rfl
      have raised := kept.disk.usable.raise low high
      obtain ⟨usable, logs⟩ := @usable_of_same _ _
        { directory with snapshot := directory.snapshotTemp, snapshotTemp := none } _ _ _ raised rfl rfl rfl
      refine ⟨boundary, kept.withDirectory rfl ⟨kept.disk.settled, usable, ?_, ?_, kept.disk.handed,
        kept.disk.bounded⟩ ?_ le_rfl, fun behind => behind.trans low⟩
      · rw [logs]
        exact kept.disk.matched
      · exact Or.inr (based.symm ▸ stored)
      · intro segment member below
        exact (kept.covered segment member below).trans low
  | finish current =>
      rw [current] at phase
      exact ⟨watermark, kept.withDirectory rfl kept.disk (fun _ _ below => below.trans phase) trivial,
        fun _ => phase⟩
  | @removeCovered _ _ segment segments oldest covered =>
      have below : ∀ other ∈ [segment], other.1 ≤ watermark := by
        intro other member
        rw [List.mem_singleton.mp member]
        exact kept.covered segment (by rw [oldest]; exact List.mem_cons_self) covered
      refine ⟨watermark, kept.withDirectory rfl (kept.disk.remove oldest below) ?_ phase, id⟩
      intro other member
      apply kept.covered
      rw [oldest]
      exact List.mem_cons_of_mem _ member

/-- Every step of a running server keeps its files and its store in agreement. -/
theorem Shown.runs {directory other : Directory} {server after : Server} {batches : List LoggedBatch}
    {watermark : Nat} (before : Shown directory server batches watermark)
    (runs : Runs (directory, server) (other, after)) :
    (∃ higher, Shown other after batches higher) ∧ after.sequence = server.sequence := by
  obtain ⟨written, sequence⟩ := runs_writes_nothing runs
  have kept := before.toKept
  have view : ∀ time, after.store.engine.clock.now ≤ time →
      after.store.view time = visible time (content batches after.sequence) := by
    intro time later
    have order := written.leads.now_le before.steady
    rw [written.view time (before.steady.upto later), Expiring.replay_nil, sequence,
      before.view time (order.trans later), visible_visible le_rfl]
  have shared (stays : after.active = server.active)
      (uncaptured : server.compaction = none → after.compaction = none) :
      ∃ higher, Shown other after batches higher := by
    obtain ⟨higher, still, behind⟩ := kept.runs runs stays uncaptured
    rw [← sequence] at still
    exact ⟨higher, still, behind before.behind, view⟩
  have underWay {compaction : Compaction} (current : server.compaction = some compaction)
      (idle : server.compaction = none) : after.compaction = none := by
    rw [current] at idle
    cases idle
  refine ⟨?_, sequence⟩
  cases runs with
  | observe ages => exact shared rfl id
  | openActive =>
      have active : (appendBytes directory []).binlog.getD [] = directory.binlog.getD [] := by
        simp only [appendBytes, Option.getD_some, List.append_nil]
      exact ⟨watermark, kept.withDirectory rfl
        (kept.disk.same_files kept.disk.settled rfl rfl active rfl) kept.covered kept.phase,
        before.behind, view⟩
  | moveActive opened recorded numbered vacant room =>
      exact ⟨watermark, kept.withDirectory rfl (kept.disk.moveActive recorded room)
        (fun _ _ below => below.trans before.behind) kept.phase, before.behind, view⟩
  | capture idle flat =>
      have leads := server.store.engine.clock.leads_tick
      have captured := describes_capture flat (before.view _ le_rfl)
      exact ⟨watermark, kept.withStore leads ⟨kept.disk.usable.covered, le_rfl,
        captured.later (leads.now_le kept.steady)⟩, before.behind, view⟩
  | materialize current => exact shared rfl (underWay current)
  | writeTemporary bytes current => exact shared rfl id
  | finishTemporary current encoded => exact shared rfl (underWay current)
  | abandon current refused => exact shared rfl (fun _ => rfl)
  | displace current => exact shared rfl (underWay current)
  | install current => exact shared rfl (underWay current)
  | finish current => exact shared rfl (fun _ => rfl)
  | removeCovered oldest covered => exact shared rfl id

theorem Up.runs {directory other : Directory} {server after : Server} {batches : List LoggedBatch}
    {watermark : Nat} (up : Up directory server batches watermark)
    (runs : Runs (directory, server) (other, after)) :
    (∃ higher, Up other after batches higher) ∧ after.sequence = server.sequence := by
  obtain ⟨⟨higher, shown⟩, sequence⟩ := up.shown.runs runs
  exact ⟨⟨higher, shown.up (sequence.trans up.whole)⟩, sequence⟩

end Invariant

section Runs
variable [Platform]

/-- Recovery of a directory finds the batches it carries. -/
theorem Disk.recovers {directory : Directory} {batches : List LoggedBatch} {watermark last now : Nat}
    {tail : Bytes} (gzip : GzipRoundTrips) (disk : Disk directory batches watermark last tail now)
    (store : ShardedStore) (steady : store.engine.clock.Nondecreasing)
    (reached : now ≤ store.engine.clock.now) :
    ∃ result, loadDataFromPaths store directory = .ok result ∧ result.state.lastSequence = last ∧
      result.state.snapshotWatermark = watermark ∧
      store.engine.clock.Leads result.store.engine.clock ∧
      (∀ time, result.store.engine.clock.now ≤ time →
        result.store.view time = visible time (content batches last)) ∧
      Disk result.directory batches watermark last [] now := by
  have usable := disk.usable
  have small : watermark < 2 ^ 64 :=
    lt_of_le_of_lt (usable.covered.trans disk.handed) disk.bounded
  obtain ⟨staging, snapshot, base⟩ := disk.based.loads gzip small steady reached
  have loaded := usable.toSound.loads disk.settled store snapshot
  have number := usable.toSound.recovered_lastSequence store staging
  have layout := usable.toSound.layout
  have files : (recovered store directory (layoutHistory directory directory.segments.entries none tail)
      watermark staging).directory = { directory with
        binlog := directory.binlog.map validPart
        binlogTemp := none
        binlogBackup := none
        segments := directory.segments.filter (fun endSequence => decide (watermark < endSequence)) } :=
    recovered_directory layout usable.active (consecutive_append.mp usable.consecutive).2.1 store staging
      watermark
  have writes := recovered_writes store directory
    (layoutHistory directory directory.segments.entries none tail) watermark staging
  rw [layoutHistory_logs layout] at writes
  rw [← usable.reaches] at number
  refine ⟨_, loaded, number, rfl, snapshot.leads.trans writes.leads, ?_, ?_⟩
  · intro time after
    have steadyStaging := snapshot.leads.nondecreasing steady
    have early := (writes.leads.now_le steadyStaging).trans after
    rw [writes.view time (steadyStaging.upto after), base time early,
      visible_replay_visible (Nat.le_refl time),
      replay_above usable.consecutive usable.begins disk.matched, ← usable.reaches]
  · have kept := @Disk.remove _ _ _ _ _ _ _ disk.truncate _
      (directory.segments.filter (fun endSequence => decide (watermark < endSequence)))
      (filter_le_append_filter_gt directory.segments.ordered watermark)
      (fun segment member => by simpa using (List.mem_filter.mp member).2)
    rw [files]
    exact kept.same_files ⟨rfl, rfl⟩ rfl rfl rfl rfl

theorem applyGroup_writes (store : ShardedStore) (group : List LoggedBatch) :
    Writes store (applyGroup store group) (group.flatMap (fun logged => batchWrites logged.batch)) := by
  unfold applyGroup
  induction group generalizing store with
  | nil => exact Writes.refl store
  | cons logged group rest => exact (applyCommittedBatch_writes store logged.batch).trans (rest _)

/-- The group that was cut short by a crash, or was appended as a whole. -/
theorem Disk.cutGroup {directory : Directory} {batches group : List LoggedBatch}
    {watermark now : Nat} {written rest : Bytes}
    (disk : Disk directory batches watermark batches.length [] now)
    (room : batches.length + group.length < 2 ^ 64)
    (cut : groupBytes batches.length group = written ++ rest) :
    ∃ count tail, (rest = [] → count = group.length ∧ tail = []) ∧
      Disk (appendBytes directory written) (batches ++ group) watermark (batches.length + count) tail
        now := by
  obtain ⟨count, tail, within, complete, usable, logs⟩ := usable_cutGroup disk.usable room cut
  have unchanged := content_append disk.usable.covered group
  refine ⟨count, tail, complete, disk.settled, usable, ?_, disk.based.carry le_rfl unchanged, ?_, ?_⟩
  · rw [logs]
    intro log member
    rcases List.mem_append.mp member with old | new
    · exact disk.matched.append group log old
    · exact matches_groupLogs batches group count log new
  · rw [List.length_append]
    omega
  · rw [List.length_append]
    exact room

/-- A directory says nothing about the batches beyond those it carries. -/
theorem Disk.take {directory : Directory} {batches : List LoggedBatch} {watermark last now : Nat}
    {tail : Bytes} (disk : Disk directory batches watermark last tail now) :
    Disk directory (batches.take last) watermark last tail now := by
  refine ⟨disk.settled, disk.usable, disk.matched.take disk.usable.numbered,
    disk.based.carry le_rfl (content_take disk.usable.covered), ?_, ?_⟩
  · rw [List.length_take]
    exact Nat.le_min.mpr ⟨le_rfl, disk.handed⟩
  · exact lt_of_le_of_lt (List.length_take_le' _ _) disk.bounded

theorem Disk.of_take {directory : Directory} {batches : List LoggedBatch} {watermark last count now : Nat}
    {tail : Bytes} (disk : Disk directory (batches.take count) watermark last tail now)
    (bounded : batches.length < 2 ^ 64) : Disk directory batches watermark last tail now := by
  have within : last ≤ count := disk.handed.trans (List.length_take_le count batches)
  refine ⟨disk.settled, disk.usable, ?_, ?_, disk.handed.trans (List.length_take_le' count batches),
    bounded⟩
  · have more := disk.matched.append (batches.drop count)
    rw [List.take_append_drop] at more
    exact more
  · exact disk.based.carry le_rfl (content_take (disk.usable.covered.trans within)).symm

/-- The record of the next batch, as far as it has been written. -/
theorem Disk.appendNext {directory : Directory} {batches : List LoggedBatch} {watermark last now : Nat}
    (disk : Disk directory batches watermark last [] now) {logged : LoggedBatch}
    (next : batches[last]? = some logged) {written rest : Bytes}
    (cut : framedRecord (last + 1) logged.payload = written ++ rest) :
    ∃ reached tail, last ≤ reached ∧ (rest = [] → reached = last + 1 ∧ tail = []) ∧
      Disk (appendBytes directory written) batches watermark reached tail now := by
  have inside : last < batches.length := (List.getElem?_eq_some_iff.mp next).1
  have length : (batches.take last).length = last := by
    rw [List.length_take, Nat.min_eq_left (Nat.le_of_lt inside)]
  have more : batches.take last ++ [logged] = batches.take (last + 1) := by
    rw [List.take_add_one, next]
    rfl
  have front := disk.take
  have room : (batches.take last).length + [logged].length < 2 ^ 64 := by
    have bound := disk.bounded
    rw [length, List.length_singleton]
    omega
  have whole : groupBytes (batches.take last).length [logged] = written ++ rest := by
    rw [length, groupBytes, groupBytes, List.append_nil, cut]
  obtain ⟨count, tail, complete, appended⟩ := @Disk.cutGroup _ directory (batches.take last) [logged]
    watermark now written rest (by rw [length]; exact front) room whole
  rw [length, more] at appended
  refine ⟨last + count, tail, Nat.le_add_right _ _, ?_, appended.of_take disk.bounded⟩
  intro nothing
  obtain ⟨one, clean⟩ := complete nothing
  exact ⟨by rw [one, List.length_singleton], clean⟩

/-- The content after one more batch. -/
theorem content_succ {batches : List LoggedBatch} {count : Nat} {logged : LoggedBatch}
    (next : batches[count]? = some logged) :
    content batches (count + 1) = Expiring.replay (content batches count) (batchWrites logged.batch) := by
  rw [content, content, List.take_add_one, next, Option.toList_some, List.flatMap_append,
    Expiring.replay_append, List.flatMap_singleton]

/-- Every step of the system keeps the invariant. -/
theorem Invariant.step {system after : System} (gzip : GzipRoundTrips) (invariant : Invariant system)
    (step : Step system after) : Invariant after := by
  unfold Invariant at invariant
  cases step with
  | run up runs =>
      rw [up] at invariant
      obtain ⟨watermark, running, acknowledged⟩ := invariant
      obtain ⟨⟨higher, still⟩, sequence⟩ := running.runs runs
      refine ⟨higher, still, ?_⟩
      rw [sequence]
      exact acknowledged
  | @append server group up opened room =>
      rw [up] at invariant
      obtain ⟨watermark, running, acknowledged⟩ := invariant
      have writes := applyGroup_writes server.store group
      have order := writes.leads.now_le running.steady
      have disk := running.disk
      rw [running.whole] at disk room
      obtain ⟨count, tail, complete, appended⟩ := disk.cutGroup room (List.append_nil _).symm
      obtain ⟨rfl, rfl⟩ := complete rfl
      rw [← running.whole] at appended
      refine ⟨watermark, ⟨appended.later order, ?_, writes.leads.nondecreasing running.steady,
        running.covered, ?_, ?_⟩, ?_⟩
      · rw [List.length_append, running.whole]
      · intro time after
        have whole : content (system.batches ++ group) (server.sequence + group.length) =
            Expiring.replay (content system.batches server.sequence)
              (group.flatMap (fun logged => batchWrites logged.batch)) := by
          rw [content, content, running.whole, List.take_length, ← List.length_append, List.take_length,
            List.flatMap_append, Expiring.replay_append]
        show (applyGroup server.store group).view time = _
        rw [writes.view time (running.steady.upto after), running.view time (order.trans after),
          visible_replay_visible (Nat.le_refl time), whole]
      · apply running.phase.carry order (Nat.le_add_right _ _)
        intro boundary within
        exact content_append (within.trans running.whole.le) group
      · show system.batches.length + group.length ≤ server.sequence + group.length
        rw [running.whole]
  | @crashInAppend server group written rest up opened room cut =>
      rw [up] at invariant
      obtain ⟨watermark, running, acknowledged⟩ := invariant
      have disk := running.disk
      rw [running.whole] at disk room cut acknowledged
      obtain ⟨count, tail, _, left⟩ := disk.cutGroup room cut
      exact ⟨watermark, _, tail, left, running.steady, Nat.le_add_right_of_le acknowledged⟩
  | crash up =>
      rw [up] at invariant
      obtain ⟨watermark, running, acknowledged⟩ := invariant
      exact ⟨watermark, _, [], running.disk, running.steady, acknowledged⟩
  | wait down later =>
      rw [down] at invariant
      obtain ⟨watermark, last, tail, disk, steady, acknowledged⟩ := invariant
      unfold Invariant
      simp only [down]
      exact ⟨watermark, last, tail, disk.later (later.now_le steady), later.nondecreasing steady,
        acknowledged⟩
  | @crashInRecovery store result removed segments down same accepted split covered =>
      rw [down] at invariant
      obtain ⟨watermark, last, tail, disk, steady, acknowledged⟩ := invariant
      obtain ⟨found, loaded, _, mark, _⟩ := disk.recovers gzip store (same ▸ steady) (same ▸ le_rfl)
      rw [loaded] at accepted
      cases accepted
      rw [mark] at covered
      unfold Invariant
      simp only [down]
      exact ⟨watermark, last, [], disk.truncate.remove split covered, steady, acknowledged⟩
  | @recover store result down same accepted =>
      rw [down] at invariant
      obtain ⟨watermark, last, tail, disk, steady, acknowledged⟩ := invariant
      obtain ⟨found, loaded, number, mark, leads, view, repaired⟩ :=
        disk.recovers gzip store (same ▸ steady) (same ▸ le_rfl)
      rw [loaded] at accepted
      cases accepted
      rw [number, mark]
      have order : system.clock.now ≤ result.store.engine.clock.now := by
        rw [← same]
        exact leads.now_le (same ▸ steady)
      refine ⟨watermark, ⟨repaired.take.later order, ?_, leads.nondecreasing (same ▸ steady), le_rfl, ?_,
        trivial⟩, le_rfl⟩
      · rw [List.length_take]
        exact (Nat.min_eq_left disk.handed).symm
      · intro time after
        rw [content_take (Nat.le_refl last)]
        exact view time after

theorem invariant_of_reachable {clock : Clock} (gzip : GzipRoundTrips) (steady : clock.Nondecreasing)
    {system : System} (reachable : Reachable clock system) : Invariant system := by
  induction reachable with
  | start =>
      exact ⟨0, 0, [], ⟨⟨rfl, rfl⟩, usable_empty, by simp [Matches, directoryLogs_empty],
        Or.inl ⟨rfl, rfl⟩, le_rfl, by simp⟩, steady, le_rfl⟩
  | step before next invariant => exact invariant.step gzip next

/-- Whatever the server has done and whenever it died, recovery succeeds. What it finds is the content
after a number of the batches handed to the log, among them all that were acknowledged. -/
theorem recovers_prefix (clock : Clock) (system : System) (store : ShardedStore)
    (gzip : GzipRoundTrips) (steady : clock.Nondecreasing) (reachable : Reachable clock system)
    (down : system.process = none) (same : store.engine.clock = system.clock) :
    ∃ result count, loadDataFromPaths store system.directory = .ok result ∧
      system.acknowledged ≤ count ∧ count ≤ system.batches.length ∧ result.state.lastSequence = count ∧
      ∀ time, result.store.engine.clock.now ≤ time →
        result.store.view time = visible time (content system.batches count) := by
  have invariant := invariant_of_reachable gzip steady reachable
  rw [Invariant, down] at invariant
  obtain ⟨watermark, last, tail, disk, running, acknowledged⟩ := invariant
  obtain ⟨result, loaded, number, _, _, view, _⟩ :=
    disk.recovers gzip store (same ▸ running) (same ▸ le_rfl)
  exact ⟨result, last, loaded, acknowledged, disk.handed, number, view⟩

/-- A batch that deletes the key `k`. -/
def loggedDeletion : LoggedBatch where
  batch := ⟨[.delete [107]]⟩
  payload := deletePayload
  encoded := deletePayload_encoded
  fits := deletePayload_fits
  decodes := rfl
  entries := by simp

end Runs

/-- A server that dies after its first batch was acknowledged. -/
theorem acknowledged_deletion_recovers :
    letI := Reference.platform (fun _ => .error "unsupported")
    ∃ system, Reachable (.constant 0) system ∧ system.process = none ∧ system.acknowledged = 1 ∧
      ∃ result count, loadDataFromPaths (.new system.clock) system.directory = .ok result ∧
        system.acknowledged ≤ count ∧ count ≤ system.batches.length ∧
        result.state.lastSequence = count ∧ ∀ time, result.store.engine.clock.now ≤ time →
          result.store.view time = visible time (content system.batches count) := by
  let _ := Reference.platform (fun _ => .error "unsupported")
  have steady : (Clock.constant 0).Nondecreasing := fun _ _ _ => le_rfl
  have disk : Disk {} [] 0 0 [] 0 :=
    ⟨⟨rfl, rfl⟩, usable_empty, by simp [Matches, directoryLogs_empty], Or.inl ⟨rfl, rfl⟩, le_rfl, by simp⟩
  obtain ⟨first, loaded, last, _⟩ :=
    disk.recovers Reference.gunzip_gzip (.new (.constant 0)) steady le_rfl
  have started := Reachable.start.step (.recover rfl rfl loaded)
  have opened := started.step (.run rfl .openActive)
  have appended := opened.step (.append [loggedDeletion] rfl rfl (by simp [last]))
  have reachable := appended.step (.crash rfl)
  exact ⟨_, reachable, rfl, by simp,
    recovers_prefix _ _ _ Reference.gunzip_gzip steady reachable rfl rfl⟩

end OnyxDB.Persistence.Lifecycle
