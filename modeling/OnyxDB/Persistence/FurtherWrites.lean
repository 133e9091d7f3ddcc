import OnyxDB.Engine.Reference
import OnyxDB.Persistence.Writing

/-! Writing on after a recovery. The runtime numbers its records from the recovered sequence, but puts
them behind whatever the active binlog holds; recovery accepts an active binlog that ends below the
snapshot, and the next record then leaves a gap that the following recovery refuses. -/

namespace OnyxDB.Persistence.FurtherWrites
open OnyxDB.Library OnyxDB.Engine OnyxDB.Engine.Value OnyxDB.Store OnyxDB.Persistence
  OnyxDB.Persistence.Codec OnyxDB.Persistence.Commit OnyxDB.Persistence.Model
  OnyxDB.Persistence.Record OnyxDB.Persistence.Recovery OnyxDB.Persistence.Snapshot
  OnyxDB.Persistence.Writing

section Runs
variable [Platform]

inductive Write where
  | append (batch : EncodedBatch)
  | rotate

structure Running where
  directory : Directory
  sequence : Nat

/-- `append_batch` of the next sequence, or `seal_active` at the current one. A full segment catalog is
not sealed into. -/
def Running.step (running : Running) : Write → Running
  | .append batch =>
      ⟨appendRecord running.directory (running.sequence + 1) batch.payload, running.sequence + 1⟩
  | .rotate =>
      if running.directory.segments.entries.length < maxBinlogSegments then
        match sealActive running.directory running.sequence with
        | .ok directory => { running with directory }
        | .error _ => running
      else running

def Running.run (running : Running) (writes : List Write) : Running := writes.foldl Running.step running

def batches (writes : List Write) : List EncodedBatch :=
  writes.filterMap (fun write =>
    match write with
    | .append batch => some batch
    | .rotate => none)

def writtenBy (writes : List Write) : List (Expiring.Write Bytes PersistentEntry) :=
  (batches writes).flatMap (fun encoded => batchWrites encoded.batch)

/-- A second recovery finds the content of the first, extended by the batches written since. -/
def Extends (store : ShardedStore) (result : Recovered) (writes : List Write) : Prop :=
  ∃ second, loadDataFromPaths store
      (Running.run ⟨result.directory, result.state.lastSequence⟩ writes).directory = .ok second ∧
    second.state.lastSequence = result.state.lastSequence + (batches writes).length ∧
    ∀ time, store.engine.clock.Upto result.store.engine.clock time →
      store.engine.clock.Upto second.store.engine.clock time → second.store.view time =
        visible time (Expiring.replay (result.store.view time) (writtenBy writes))

/-- The records of the active binlog that recovery opens. -/
def activeLogs (directory : Directory) : List LogRecord :=
  binlogLogs ((directory.binlog.or directory.binlogBackup).getD [])

/-- The active binlog holds no record, or its records reach the snapshot. -/
def ReachesSnapshot (directory : Directory) (watermark : Nat) : Prop :=
  activeLogs directory = [] ∨ watermark ≤ lastOf (activeLogs directory)

end Runs

section Steps
variable [Platform]

theorem batches_cons_append (batch : EncodedBatch) (writes : List Write) :
    batches (.append batch :: writes) = batch :: batches writes := rfl

/-- Writing leaves the snapshot alone and starts no rotation. -/
structure Undisturbed (directory after : Directory) : Prop where
  snapshot : after.snapshot = directory.snapshot
  snapshotBackup : after.snapshotBackup = directory.snapshotBackup
  settled : Settled directory → Settled after

theorem undisturbed_step (running : Running) (write : Write) :
    Undisturbed running.directory (running.step write).directory := by
  cases write with
  | append batch => exact ⟨rfl, rfl, id⟩
  | rotate =>
      simp only [Running.step]
      split
      · unfold sealActive
        dsimp only
        split
        next directory sealedNow =>
          split at sealedNow
          · cases sealedNow
            exact ⟨rfl, rfl, id⟩
          · split at sealedNow
            · cases sealedNow
            · split at sealedNow
              · cases sealedNow
              · cases sealedNow
                exact ⟨rfl, rfl, id⟩
        · exact ⟨rfl, rfl, id⟩
      · exact ⟨rfl, rfl, id⟩

theorem undisturbed_run (running : Running) (writes : List Write) :
    Undisturbed running.directory (running.run writes).directory := by
  induction writes generalizing running with
  | nil => exact ⟨rfl, rfl, id⟩
  | cons write writes rest =>
      have first := undisturbed_step running write
      have others := rest (running.step write)
      exact ⟨others.snapshot.trans first.snapshot, others.snapshotBackup.trans first.snapshotBackup,
        fun settled => others.settled (first.settled settled)⟩

theorem Undisturbed.snapshotted {clock : Clock} {directory after : Directory} {watermark : Nat}
    {staging : ShardedStore} (undisturbed : Undisturbed directory after)
    (snapshot : Snapshotted clock directory watermark staging) :
    Snapshotted clock after watermark staging := by
  obtain ⟨format⟩ := snapshot
  refine ⟨?_⟩
  rw [undisturbed.snapshot, undisturbed.snapshotBackup]
  exact format

/-- A rotation of a usable directory keeps it usable, with the same records. -/
theorem usable_rotate {running : Running} {watermark : Nat}
    (usable : Usable running.directory watermark running.sequence []) :
    Usable (running.step .rotate).directory watermark (running.step .rotate).sequence [] ∧
      (running.step .rotate).sequence = running.sequence ∧
      directoryLogs (running.step .rotate).directory = directoryLogs running.directory := by
  by_cases room : running.directory.segments.entries.length < maxBinlogSegments
  · by_cases empty : running.directory.binlog.getD [] = []
    · have same : running.step .rotate = running := by
        simp only [Running.step, room, if_true, sealActive, empty, List.isEmpty_nil]
      rw [same]
      exact ⟨usable, rfl, rfl⟩
    · obtain ⟨sealedNow, stillUsable, logs⟩ := usable.sealActive empty room
      have same : running.step .rotate = { running with directory := { running.directory with
          binlog := some []
          segments := running.directory.segments.insert running.sequence
            (running.directory.binlog.getD []) } } := by
        simp only [Running.step, room, if_true, sealedNow]
      rw [same]
      exact ⟨stillUsable, rfl, logs⟩
  · have same : running.step .rotate = running := by
      simp only [Running.step, room, if_false]
    rw [same]
    exact ⟨usable, rfl, rfl⟩

/-- A run whose batches can all be read back adds exactly their records. -/
theorem usable_run {running : Running} {watermark : Nat} {writes : List Write}
    (usable : Usable running.directory watermark running.sequence [])
    (bounded : running.sequence + (batches writes).length < 2 ^ 64)
    (readable : ∀ encoded ∈ batches writes, decodeCommittedBatch encoded.payload = .ok encoded.batch) :
    ∃ added, Usable (running.run writes).directory watermark
        (running.sequence + (batches writes).length) [] ∧
      directoryLogs (running.run writes).directory = directoryLogs running.directory ++ added ∧
      (∀ log ∈ added, running.sequence < log.sequence) ∧ logsWrites added = writtenBy writes := by
  induction writes generalizing running with
  | nil => exact ⟨[], usable, by simp [Running.run], by simp, rfl⟩
  | cons write writes rest =>
      cases write with
      | append batch =>
          rw [batches_cons_append, List.length_cons] at bounded
          rw [batches_cons_append, List.forall_mem_cons] at readable
          obtain ⟨next, logs⟩ := usable.appendRecord batch.fits (by omega) readable.1
          obtain ⟨added, final, others, later, written⟩ :=
            @rest (running.step (.append batch)) next (by
              show running.sequence + 1 + (batches writes).length < 2 ^ 64
              omega) readable.2
          refine ⟨⟨running.sequence + 1, batch.batch, .checksummed⟩ :: added, ?_, ?_, ?_, ?_⟩
          · rw [batches_cons_append, List.length_cons]
            have total : (running.step (.append batch)).sequence + (batches writes).length =
                running.sequence + ((batches writes).length + 1) := by
              show running.sequence + 1 + (batches writes).length = _
              omega
            rw [← total]
            exact final
          · refine others.trans ?_
            rw [show directoryLogs (running.step (.append batch)).directory = _ from logs]
            simp
          · intro log member
            rcases List.mem_cons.mp member with rfl | after
            · exact Nat.lt_succ_self _
            · have order := later log after
              exact Nat.lt_trans (Nat.lt_succ_self _) order
          · rw [writtenBy, batches_cons_append, List.flatMap_cons, logsWrites, List.flatMap_cons]
            exact congrArg (batchWrites batch.batch ++ ·) written
      | rotate =>
          obtain ⟨next, same, logs⟩ := usable_rotate usable
          obtain ⟨added, final, others, later, written⟩ :=
            @rest (running.step .rotate) next (by rw [same]; exact bounded) readable
          rw [same] at final later
          exact ⟨added, final, others.trans (by rw [logs]), later, written⟩

end Steps

section Broken
variable [Platform]

theorem encodeCommittedBatch_nonempty (encoded : EncodedBatch) : encoded.payload ≠ [] := by
  have written := encoded.encoded
  intro empty
  unfold encodeCommittedBatch at written
  split at written
  · cases written
  · obtain ⟨count, counted, written⟩ := bind_ok written
    obtain ⟨bytes, folded, written⟩ := bind_ok written
    have same : bytes = encoded.payload := by
      split at written
      · cases written
      · cases written
        rfl
    have long : ∀ (effects : List CommittedEffect) (start final : Bytes),
        effects.foldlM appendEffect start = .ok final → start.length ≤ final.length := by
      intro effects
      induction effects with
      | nil =>
          intro start final appended
          cases appended
          exact Nat.le_refl _
      | cons effect effects rest =>
          intro start final appended
          rw [List.foldlM_cons] at appended
          obtain ⟨middle, here, appended⟩ := bind_ok appended
          have later := rest middle final appended
          have first : start.length ≤ middle.length := by
            cases effect with
            | put key entry =>
                obtain ⟨record, _, here⟩ := bind_ok here
                obtain ⟨_, rfl⟩ := appendSnapshotBytes_ok.mp here
                simp
            | delete key =>
                obtain ⟨_, rfl⟩ := appendSnapshotBytes_ok.mp here
                simp
          omega
    have bound := long _ _ _ folded
    rw [same, empty, writeU32Be_length] at bound
    simp at bound

/-- A record that is read from the log has its sequence and its decoded batch. -/
theorem reads_framed_inv {encoded : EncodedBatch} {sequence : Nat} (bounded : sequence < 2 ^ 64)
    (positive : sequence ≠ 0) {more tail : Bytes} {all : List LogRecord}
    (whole : Reads (framedRecord sequence encoded.payload ++ more) all tail) :
    ∃ log later, all = log :: later ∧ log.sequence = sequence ∧
      decodeCommittedBatch encoded.payload = .ok log.batch := by
  have encodable : Encodable sequence encoded.payload := ⟨positive, encoded.fits⟩
  have first : nextBinlogRecord (framedRecord sequence encoded.payload ++ more) =
      .ok (some (versionedRecord sequence encoded.payload, more)) := by
    refine nextBinlogRecord_some.mpr ⟨_, framed_versionedRecord encodable, ?_⟩
    rw [framedRecord_eq, List.append_assoc]
  cases whole with
  | finish none_left =>
      rw [first] at none_left
      cases none_left
  | @record _ _ _ _ log logs next read later =>
      rw [first] at next
      cases next
      obtain ⟨decoded, accepted, batch, number, _⟩ := readLogRecord_ok.mp read
      rw [decodeBinlogRecord_versionedRecord encodable bounded (encodeCommittedBatch_nonempty encoded)]
        at accepted
      cases accepted
      exact ⟨log, logs, rfl, number, batch⟩

/-- However the file goes on, its records are not consecutive or cannot be read. -/
def BadFile (bytes : Bytes) : Prop :=
  ∀ more logs tail, Reads (bytes ++ more) logs tail → ¬ Consecutive logs

/-- A segment that is neither complete nor repairable. -/
def BadSegment (segment : Nat × Bytes) : Prop :=
  ∀ tail, Reads segment.2 (binlogLogs segment.2) tail → Consecutive (binlogLogs segment.2) →
    tail = [] ∧ lastOf (binlogLogs segment.2) ≠ segment.1

/-- A directory that recovery refuses for one of its files. -/
def Broken (directory : Directory) : Prop :=
  (∃ segment ∈ directory.segments.entries, BadSegment segment) ∨ BadFile (directory.binlog.getD [])

theorem Broken.refused {directory : Directory} (broken : Broken directory) (settled : Settled directory)
    (store : ShardedStore) (result : Recovered) : loadDataFromPaths store directory ≠ .ok result := by
  intro accepted
  obtain ⟨rotated, _, _, _, _, rotation, _, _, inspected, _⟩ := loadDataFromPaths_ok.mp accepted
  rw [settled.rotation] at rotation
  cases rotation
  obtain ⟨complete, torn, tail, layout, consecutive, reads, _⟩ := layout_of_inspectBinlogHistory inspected
  rcases broken with ⟨segment, present, bad⟩ | bad
  · rw [layout.entries] at present
    rcases List.mem_append.mp present with early | late
    · have sound := layout.complete segment early
      exact (bad [] sound.reads sound.consecutive).2 sound.ends
    · obtain ⟨⟨rest, unfinished, part⟩, chain, _, _⟩ :=
        layout.torn segment (Option.mem_toList.mp late)
      exact unfinished (bad rest part chain).1
  · refine bad [] (binlogLogs (directory.binlog.getD [])) tail ?_ (consecutive_append.mp consecutive).2.1
    rw [List.append_nil]
    exact reads

theorem BadFile.append {bytes : Bytes} (bad : BadFile bytes) (more : Bytes) : BadFile (bytes ++ more) := by
  intro further logs tail reads
  rw [List.append_assoc] at reads
  exact bad _ logs tail reads

theorem BadFile.sealed_ {bytes : Bytes} (bad : BadFile bytes) (endSequence : Nat) :
    BadSegment (endSequence, bytes) := by
  intro tail reads consecutive
  refine absurd consecutive (bad [] _ tail ?_)
  rw [List.append_nil]
  exact reads

theorem Broken.step {running : Running} (broken : Broken running.directory) (write : Write) :
    Broken (running.step write).directory := by
  cases write with
  | append batch =>
      rcases broken with segment | active
      · exact Or.inl segment
      · exact Or.inr (active.append _)
  | rotate =>
      simp only [Running.step]
      split
      · unfold sealActive
        dsimp only
        by_cases empty : (running.directory.binlog.getD []).isEmpty = true
        · simpa only [empty, if_true] using broken
        · simp only [empty, Bool.false_eq_true, if_false]
          by_cases zero : running.sequence = 0
          · simpa only [zero, if_true] using broken
          · simp only [zero, if_false]
            cases taken : running.directory.segments.contains running.sequence with
            | true => simpa using broken
            | false =>
                refine Or.inl ?_
                simp only [Bool.false_eq_true, if_false]
                rcases broken with ⟨segment, present, bad⟩ | active
                · refine ⟨segment, ?_, bad⟩
                  have other : segment.1 ≠ running.sequence := by
                    rw [Catalog.contains, List.any_eq_false] at taken
                    simpa using taken segment present
                  simp only [Catalog.insert, List.mem_append, List.mem_cons, List.mem_filter,
                    decide_eq_true_eq]
                  rcases Nat.lt_or_gt_of_ne other with low | high
                  · exact Or.inl ⟨present, low⟩
                  · exact Or.inr (Or.inr ⟨present, high⟩)
                · refine ⟨(running.sequence, running.directory.binlog.getD []), ?_, active.sealed_ _⟩
                  simp [Catalog.insert]
      · exact broken

theorem Broken.run {running : Running} (broken : Broken running.directory) (writes : List Write) :
    Broken (running.run writes).directory := by
  induction writes generalizing running with
  | nil => exact broken
  | cons write writes rest => exact rest (broken.step write)

/-- A batch that cannot be read back breaks the directory it is appended to. -/
theorem broken_of_unreadable {running : Running} {logs : List LogRecord}
    (active : Reads (running.directory.binlog.getD []) logs []) {encoded : EncodedBatch}
    {failure : PersistenceError} (unreadable : decodeCommittedBatch encoded.payload = .error failure)
    (bounded : running.sequence + 1 < 2 ^ 64) : Broken (running.step (.append encoded)).directory := by
  refine Or.inr ?_
  intro more all tail reads
  simp only [Running.step, appendRecord, Option.getD_some, List.append_assoc] at reads
  obtain ⟨later, rfl, rest⟩ := reads_append_inv active reads
  obtain ⟨log, _, _, _, decodes⟩ := reads_framed_inv bounded (Nat.succ_ne_zero _) rest
  rw [unreadable] at decodes
  cases decodes

/-- A record behind records that end too early leaves a gap. -/
theorem broken_of_gap {running : Running} {logs : List LogRecord}
    (active : Reads (running.directory.binlog.getD []) logs []) (recorded : logs ≠ [])
    (early : lastOf logs < running.sequence) (encoded : EncodedBatch)
    (bounded : running.sequence + 1 < 2 ^ 64) : Broken (running.step (.append encoded)).directory := by
  refine Or.inr ?_
  intro more all tail reads consecutive
  simp only [Running.step, appendRecord, Option.getD_some, List.append_assoc] at reads
  obtain ⟨later, rfl, rest⟩ := reads_append_inv active reads
  obtain ⟨log, others, rfl, number, _⟩ := reads_framed_inv bounded (Nat.succ_ne_zero _) rest
  have joint := (consecutive_append.mp consecutive).2.2 _ (List.getLast?_eq_some_getLast recorded) log rfl
  have final : lastOf logs = (logs.getLast recorded).sequence := by
    simp [lastOf, List.getLast?_eq_some_getLast recorded]
  omega

/-- A segment sealed under a sequence that its records do not reach. -/
theorem broken_of_misnamed {running : Running} {logs : List LogRecord}
    (active : Reads (running.directory.binlog.getD []) logs []) (recorded : logs ≠ [])
    (early : lastOf logs < running.sequence) (alone : running.directory.segments.entries = []) :
    Broken (running.step .rotate).directory := by
  have held : (running.directory.binlog.getD []).isEmpty = false := by
    cases file : running.directory.binlog.getD [] with
    | nil =>
        rw [file] at active
        exact absurd (active.unique Reads.nil).1 recorded
    | cons byte bytes => rfl
  have room : running.directory.segments.entries.length < maxBinlogSegments := by
    rw [alone]
    decide
  have positive : running.sequence ≠ 0 := by omega
  have absent : running.directory.segments.contains running.sequence = false := by
    rw [Catalog.contains, alone]
    rfl
  have after : (running.step .rotate).directory = { running.directory with
      binlog := some []
      segments := running.directory.segments.insert running.sequence
        (running.directory.binlog.getD []) } := by
    simp only [Running.step, room, if_true, sealActive, held, Bool.false_eq_true, if_false, positive,
      absent]
  rw [after]
  refine Or.inl ⟨(running.sequence, running.directory.binlog.getD []), by simp [Catalog.insert], ?_⟩
  intro tail reads _
  rw [active.logs] at reads ⊢
  obtain ⟨_, rfl⟩ := active.unique reads
  exact ⟨rfl, by show lastOf logs ≠ running.sequence; omega⟩

/-- A run with a batch that cannot be read back ends in a broken directory. -/
theorem broken_run {running : Running} {watermark : Nat} {writes : List Write}
    (usable : Usable running.directory watermark running.sequence [])
    (bounded : running.sequence + (batches writes).length < 2 ^ 64)
    (decided : ∀ encoded ∈ batches writes, decodeCommittedBatch encoded.payload = .ok encoded.batch ∨
      ∃ failure, decodeCommittedBatch encoded.payload = .error failure)
    (unreadable : ∃ encoded ∈ batches writes,
      decodeCommittedBatch encoded.payload ≠ .ok encoded.batch) :
    Broken (running.run writes).directory := by
  induction writes generalizing running with
  | nil =>
      obtain ⟨_, member, _⟩ := unreadable
      cases member
  | cons write writes rest =>
      cases write with
      | append batch =>
          rw [batches_cons_append, List.length_cons] at bounded
          rw [batches_cons_append, List.forall_mem_cons] at decided
          obtain ⟨encoded, member, bad⟩ := unreadable
          rcases decided.1 with reads | ⟨failure, refused⟩
          · obtain ⟨next, _⟩ := usable.appendRecord batch.fits (by omega) reads
            have others : encoded ∈ batches writes := by
              rcases List.mem_cons.mp member with rfl | later
              · exact absurd reads bad
              · exact later
            refine @rest (running.step (.append batch)) next ?_ decided.2 ⟨encoded, others, bad⟩
            show running.sequence + 1 + (batches writes).length < 2 ^ 64
            omega
          · exact (broken_of_unreadable usable.active refused (by omega)).run writes
      | rotate =>
          obtain ⟨next, same, _⟩ := usable_rotate usable
          exact @rest (running.step .rotate) next (by rw [same]; exact bounded) decided unreadable

end Broken

section Recovered
variable [Platform]

/-- What a recovery leaves to write on. -/
structure Leaves (store : ShardedStore) (directory : Directory) (result : Recovered)
    (staging : ShardedStore) : Prop where
  sound : Sound result.directory result.state.snapshotWatermark []
  settled : Settled result.directory
  snapshot : Snapshotted store.engine.clock result.directory result.state.snapshotWatermark staging
  higher : ∀ segment ∈ result.directory.segments.entries, result.state.snapshotWatermark < segment.1
  active : binlogLogs (result.directory.binlog.getD []) = activeLogs directory
  last : result.state.lastSequence =
    max result.state.snapshotWatermark (lastOf (directoryLogs result.directory))
  view : ∀ time, store.engine.clock.Upto result.store.engine.clock time →
    result.store.view time = visible time (Expiring.replay (staging.view time)
      (logsWrites (above result.state.snapshotWatermark (directoryLogs result.directory))))

theorem mend_snapshots (directory : Directory) (torn : Option (Nat × Bytes)) :
    (mend directory torn).snapshot = directory.snapshot ∧
      (mend directory torn).snapshotBackup = directory.snapshotBackup := by
  cases torn with
  | none => exact ⟨rfl, rfl⟩
  | some segment =>
      simp only [mend]
      split <;> exact ⟨rfl, rfl⟩

theorem leaves_of_accepted {store : ShardedStore} {directory : Directory} {result : Recovered}
    (accepted : loadDataFromPaths store directory = .ok result) :
    ∃ staging, Leaves store directory result staging := by
  obtain ⟨rotated, format, history, repaired, staging, rotation, header, versioned, inspected, begins,
    loaded, rfl⟩ := loadDataFromPaths_ok.mp accepted
  obtain ⟨complete, torn, tail, layout, consecutive, reads, rfl, rfl⟩ :=
    layout_of_inspectBinlogHistory inspected
  obtain ⟨_, binlog, _⟩ := recoverInterrupted_files rotation
  have logs := layoutHistory_logs layout tail
  rw [logs] at begins
  have activeChain := (consecutive_append.mp consecutive).2.1
  obtain ⟨described, chain⟩ := inspectBinlogHistory_described inspected
  obtain ⟨mended, sameLogs⟩ := mend_sound layout consecutive reads begins
  obtain ⟨truncated, cutLogs⟩ := mended.truncate
  have final := recovered_directory layout reads activeChain store staging (snapshotWatermark format)
  have split := filter_le_append_filter_gt (mend rotated torn).segments.ordered (snapshotWatermark format)
  obtain ⟨sound, parts, low⟩ := @Sound.remove _ _ _ _ truncated
    ((mend rotated torn).segments.entries.filter
      (fun entry => decide (entry.1 ≤ snapshotWatermark format)))
    ((mend rotated torn).segments.filter (fun endSequence => decide (snapshotWatermark format < endSequence)))
    split (fun segment member => by simpa using (List.mem_filter.mp member).2)
  rw [cutLogs, sameLogs] at parts
  rw [mend_binlog] at sound parts
  have remaining : directoryLogs (recovered store (mend rotated torn)
      (layoutHistory rotated complete torn tail) (snapshotWatermark format) staging).directory =
      directoryLogs { mend rotated torn with
        binlog := rotated.binlog.map validPart
        segments := (mend rotated torn).segments.filter
          (fun endSequence => decide (snapshotWatermark format < endSequence)) } := by
    rw [final]
    rfl
  have watermark : (recovered store (mend rotated torn) (layoutHistory rotated complete torn tail)
      (snapshotWatermark format) staging).state.snapshotWatermark = snapshotWatermark format := rfl
  have covered : above (snapshotWatermark format) (directoryLogs rotated) =
      above (snapshotWatermark format) (directoryLogs { mend rotated torn with
        binlog := rotated.binlog.map validPart
        segments := (mend rotated torn).segments.filter
          (fun endSequence => decide (snapshotWatermark format < endSequence)) }) := by
    rw [parts, above_append]
    have nothing : above (snapshotWatermark format)
        (((mend rotated torn).segments.entries.filter (fun entry =>
          decide (entry.1 ≤ snapshotWatermark format))).flatMap
            (fun segment => binlogLogs segment.2)) = [] := by
      have part : Consecutive (((mend rotated torn).segments.entries.filter (fun entry =>
          decide (entry.1 ≤ snapshotWatermark format))).flatMap
            (fun segment => binlogLogs segment.2)) := by
        rw [parts] at consecutive
        exact (consecutive_append.mp consecutive).1
      have top := max_lastOf_above part (snapshotWatermark format)
      by_contra some_above
      obtain ⟨log, member, value⟩ := lastOf_mem some_above
      have high := (List.mem_filter.mp member).2
      simp only [decide_eq_true_eq] at high
      omega
    rw [nothing, List.nil_append]
  refine ⟨staging, ?_, ?_, ?_, ?_, ?_, ?_, ?_⟩
  · rw [watermark, final]
    exact ⟨sound.names, sound.count, sound.segments, sound.active, sound.consecutive, sound.begins⟩
  · rw [final]
    exact ⟨rfl, rfl⟩
  · refine ⟨format, ?_, versioned, rfl, ?_⟩
    · rw [final]
      simp only [(mend_snapshots rotated torn).1, (mend_snapshots rotated torn).2]
      exact header
    · rw [final]
      simp only [(mend_snapshots rotated torn).1, (mend_snapshots rotated torn).2]
      exact loaded
  · rw [watermark, final]
    intro segment member
    simpa using (List.mem_filter.mp member).2
  · rw [final]
    have valid := (validPart_logs reads activeChain).1
    rw [activeLogs, ← binlog]
    cases file : rotated.binlog with
    | none => rfl
    | some contents =>
        rw [file] at valid
        exact valid.logs
  · rw [remaining, watermark]
    have whole := recoveryState_lastSequence described chain (snapshotWatermark format)
      (advance (snapshotWatermark format) ⟨staging, checkedSucc (snapshotWatermark format), 0⟩
        (historyLogs (layoutHistory rotated complete torn tail))).replayed
    rw [logs, max_lastOf_above consecutive, covered,
      ← max_lastOf_above (sound.consecutive)] at whole
    exact whole
  · intro time upto
    rw [remaining, watermark, ← covered, ← logs]
    have writes := recovered_writes store (mend rotated torn)
      (layoutHistory rotated complete torn tail) (snapshotWatermark format) staging
    have snapshotClock := loadSnapshotEntries_leads loaded
    exact writes.view time (Clock.Upto.rest upto snapshotClock)

theorem Leaves.usable {store : ShardedStore} {directory : Directory} {result : Recovered}
    {staging : ShardedStore} (leaves : Leaves store directory result staging)
    (reaches : ReachesSnapshot directory result.state.snapshotWatermark) :
    Usable result.directory result.state.snapshotWatermark result.state.lastSequence [] := by
  refine ⟨leaves.sound, leaves.last, ?_⟩
  intro nonempty
  have chain := leaves.sound.consecutive
  have whole := lastOf_append chain
  have last := leaves.last
  rw [← directoryLogs] at whole
  rcases reaches with empty | far
  · rw [leaves.active, empty, lastOf_nil] at whole
    obtain ⟨log, member, value⟩ := lastOf_mem nonempty
    rw [directoryLogs, leaves.active, empty, List.append_nil] at member
    obtain ⟨segment, present, inside⟩ := List.mem_flatMap.mp member
    have high := leaves.higher segment present
    have complete := leaves.sound.segments segment present
    obtain ⟨final, held, ends⟩ := lastOf_mem complete.nonempty
    obtain ⟨before, after, split⟩ := List.append_of_mem
      (List.mem_flatMap.mpr ⟨segment, present, held⟩ :
        final ∈ result.directory.segments.entries.flatMap (fun segment => binlogLogs segment.2))
    have part := (consecutive_append.mp chain).1
    rw [split, ← List.singleton_append, ← List.append_assoc] at part
    have top := lastOf_append part
    rw [lastOf_append_singleton, List.append_assoc, List.singleton_append, ← split] at top
    have name := complete.ends
    omega
  · rw [leaves.active] at whole
    omega

/-- Where the active binlog ends below the snapshot, no segment is left. -/
theorem Leaves.alone {store : ShardedStore} {directory : Directory} {result : Recovered}
    {staging : ShardedStore} (leaves : Leaves store directory result staging)
    (short : ¬ ReachesSnapshot directory result.state.snapshotWatermark) :
    activeLogs directory ≠ [] ∧ result.directory.segments.entries = [] ∧
      lastOf (activeLogs directory) < result.state.lastSequence := by
  rw [ReachesSnapshot, not_or, Nat.not_le] at short
  have last := leaves.last
  refine ⟨short.1, ?_, by omega⟩
  rw [List.eq_nil_iff_forall_not_mem]
  intro segment present
  have high := leaves.higher segment present
  have complete := leaves.sound.segments segment present
  obtain ⟨early, before, first⟩ := lastOf_mem complete.nonempty
  obtain ⟨late, after, final⟩ := lastOf_mem short.1
  have order := lt_of_consecutive_append leaves.sound.consecutive early
    (List.mem_flatMap.mpr ⟨segment, present, before⟩) late (by rw [leaves.active]; exact after)
  have name := complete.ends
  omega

/-- The second recovery, once the directory it finds is known. -/
theorem Leaves.extends_of_logs {store : ShardedStore} {directory : Directory} {result : Recovered}
    {staging : ShardedStore} (leaves : Leaves store directory result staging) {writes : List Write}
    {added : List LogRecord}
    (sound : Sound (Running.run ⟨result.directory, result.state.lastSequence⟩ writes).directory
      result.state.snapshotWatermark [])
    (logs : directoryLogs (Running.run ⟨result.directory, result.state.lastSequence⟩ writes).directory =
      directoryLogs result.directory ++ added)
    (later : ∀ log ∈ added, result.state.lastSequence < log.sequence)
    (written : logsWrites added = writtenBy writes)
    (last : max result.state.snapshotWatermark (lastOf (directoryLogs
      (Running.run ⟨result.directory, result.state.lastSequence⟩ writes).directory)) =
        result.state.lastSequence + (batches writes).length) :
    Extends store result writes := by
  have undisturbed := undisturbed_run ⟨result.directory, result.state.lastSequence⟩ writes
  have snapshot := undisturbed.snapshotted leaves.snapshot
  refine ⟨_, sound.loads (undisturbed.settled leaves.settled) store snapshot, ?_, ?_⟩
  · rw [sound.recovered_lastSequence]
    exact last
  · intro time first second
    have kept : above result.state.snapshotWatermark added = added := by
      rw [above, List.filter_eq_self]
      intro log member
      have order := later log member
      have reaches := leaves.last
      simp only [decide_eq_true_eq]
      omega
    rw [(recovered_writes store _ _ _ staging).view time (second.rest snapshot.leads),
      layoutHistory_logs sound.layout, logs, above_append, kept, logsWrites_append,
      Expiring.replay_append, leaves.view time first,
      visible_replay_visible (Nat.le_refl time), written]

/-- The batches of a run, as the values of the source are: expiries fit their field, and the documents
are within the reach of what `serde_json` is known to do. -/
structure Committed (batch : CommittedBatch) : Prop where
  storable : ∀ effect ∈ batch.effects, StorableEffect effect
  documents : ∀ document ∈ CommittedBatch.documents batch, JsonLaw document

theorem decodes_iff_shallow {encoded : EncodedBatch} (committed : Committed encoded.batch) :
    (decodeCommittedBatch encoded.payload = .ok encoded.batch ↔ Shallow encoded.batch) ∧
      (decodeCommittedBatch encoded.payload = .ok encoded.batch ∨
        ∃ failure, decodeCommittedBatch encoded.payload = .error failure) := by
  obtain ⟨shallow, deep⟩ := readBackBatch_shallow committed.documents
  rw [decodeCommittedBatch_written committed.storable encoded.encoded]
  by_cases flat : Shallow encoded.batch
  · exact ⟨⟨fun _ => flat, shallow⟩, Or.inl (shallow flat)⟩
  · obtain ⟨failure, refused⟩ := deep flat
    refine ⟨⟨?_, fun flat' => absurd flat' flat⟩, Or.inr ⟨failure, refused⟩⟩
    intro accepted
    rw [refused] at accepted
    cases accepted

/-- Writing on after a recovery is safe exactly when every document can be parsed again and, if anything
is written at all, the active binlog is empty or reaches the snapshot. -/
theorem extends_iff (store : ShardedStore) (directory : Directory) (result : Recovered)
    (writes : List Write) (accepted : loadDataFromPaths store directory = .ok result)
    (bounded : result.state.lastSequence + (batches writes).length < 2 ^ 64)
    (committed : ∀ encoded ∈ batches writes, Committed encoded.batch) :
    Extends store result writes ↔ (∀ encoded ∈ batches writes, Shallow encoded.batch) ∧
      (writes = [] ∨ ReachesSnapshot directory result.state.snapshotWatermark) := by
  obtain ⟨staging, leaves⟩ := leaves_of_accepted accepted
  have refusal (broken : Broken
      (Running.run ⟨result.directory, result.state.lastSequence⟩ writes).directory) :
      ¬ Extends store result writes := by
    rintro ⟨second, loaded, _⟩
    have undisturbed := undisturbed_run ⟨result.directory, result.state.lastSequence⟩ writes
    exact broken.refused (undisturbed.settled leaves.settled) store second loaded
  constructor
  · intro extended
    by_cases reaches : ReachesSnapshot directory result.state.snapshotWatermark
    · refine ⟨?_, Or.inr reaches⟩
      by_contra deep
      push Not at deep
      obtain ⟨encoded, member, unshallow⟩ := deep
      refine refusal (broken_run (leaves.usable reaches) bounded
        (fun encoded member => (decodes_iff_shallow (committed encoded member)).2)
        ⟨encoded, member, ?_⟩) extended
      rw [ne_eq, (decodes_iff_shallow (committed encoded member)).1]
      exact unshallow
    · obtain ⟨recorded, alone, short⟩ := leaves.alone reaches
      have active := leaves.sound.active
      rw [leaves.active] at active
      cases writes with
      | nil => exact ⟨by simp [batches], Or.inl rfl⟩
      | cons write writes =>
          refine absurd extended (refusal (Broken.run ?_ writes))
          cases write with
          | append encoded =>
              rw [batches_cons_append, List.length_cons] at bounded
              exact @broken_of_gap _ ⟨result.directory, result.state.lastSequence⟩ _ active recorded short
                encoded (by show result.state.lastSequence + 1 < 2 ^ 64; omega)
          | rotate =>
              exact @broken_of_misnamed _ ⟨result.directory, result.state.lastSequence⟩ _ active recorded
                short alone
  · rintro ⟨shallow, nothing | reaches⟩
    · subst nothing
      exact @Leaves.extends_of_logs _ store directory result staging leaves [] [] leaves.sound
        (List.append_nil _).symm (by simp) rfl leaves.last.symm
    · have readable : ∀ encoded ∈ batches writes,
          decodeCommittedBatch encoded.payload = .ok encoded.batch :=
        fun encoded member =>
          (decodes_iff_shallow (committed encoded member)).1.mpr (shallow encoded member)
      obtain ⟨added, usable, logs, later, written⟩ :=
        @usable_run _ ⟨result.directory, result.state.lastSequence⟩ _ writes (leaves.usable reaches)
          bounded readable
      exact leaves.extends_of_logs usable.toSound logs later written usable.reaches.symm

/-- A batch that deletes the key `k`. -/
def deletion : EncodedBatch where
  batch := ⟨[.delete [107]]⟩
  payload := deletePayload
  encoded := deletePayload_encoded
  fits := deletePayload_fits

theorem deletion_committed : Committed deletion.batch :=
  ⟨by simp [deletion, StorableEffect], by simp [deletion, CommittedBatch.documents]⟩

/-- A snapshot of watermark three beside an active binlog that ends at record one. -/
def staleActive : Directory where
  snapshot := some (Platform.gzip ((snapshotHeader 3).flatMap String.utf8EncodeChar))
  binlog := some (framedRecord 1 deletePayload)

theorem staleActive_logs : directoryLogs staleActive = [⟨1, ⟨[.delete [107]]⟩, .checksummed⟩] :=
  (reads_deletion (Nat.succ_ne_zero 0) (by decide)).logs

theorem staleActive_accepted (gzip : GzipRoundTrips) (store : ShardedStore) :
    ∃ result, loadDataFromPaths store staleActive = .ok result ∧
      result.state.snapshotWatermark = 3 ∧ result.state.lastSequence = 3 := by
  have written : snapshotFile [] 3 =
      .ok (Platform.gzip ((snapshotHeader 3).flatMap String.utf8EncodeChar)) := rfl
  have file := snapshotFile_reads gzip written (by decide) (by simp)
  have snapshot : Snapshotted store.engine.clock staleActive 3 (.new store.engine.clock) :=
    ⟨.versioned 3, file.1, by simp, rfl,
      loadSnapshotEntries_file _ gzip written (by decide) (by simp)⟩
  have reads := reads_deletion (Nat.succ_ne_zero 0) (by decide : 0 + 1 < 2 ^ 64)
  have sound : Sound staleActive 3 [] := by
    refine ⟨rfl, by simp [staleActive, Catalog.empty], by simp [staleActive, Catalog.empty], ?_, ?_, ?_⟩
    · simp only [staleActive, Option.getD_some, reads.logs]
      exact reads
    · rw [staleActive_logs]
      exact List.isChain_singleton _
    · rw [staleActive_logs]
      simp
  refine ⟨_, sound.loads ⟨rfl, rfl⟩ store snapshot, rfl, ?_⟩
  rw [sound.recovered_lastSequence, staleActive_logs]
  rfl

end Recovered

theorem emptyDirectory_extends :
    letI := Reference.platform (fun _ => .error "unsupported")
    ∃ result, loadDataFromPaths (.new (.constant 0)) {} = .ok result ∧
      Extends (.new (.constant 0)) result [.append deletion, .rotate, .append deletion] := by
  let _ := Reference.platform (fun _ => .error "unsupported")
  have sound : Sound {} 0 [] := usable_empty.toSound
  have snapshot : Snapshotted (Clock.constant 0) {} 0 (.new (.constant 0)) :=
    ⟨.missing, rfl, by simp, rfl, rfl⟩
  have accepted := sound.loads ⟨rfl, rfl⟩ (.new (.constant 0)) snapshot
  have last : _ = max 0 (lastOf (directoryLogs {})) :=
    sound.recovered_lastSequence (.new (.constant 0)) (.new (.constant 0))
  refine ⟨_, accepted, (extends_iff _ {} _ _ accepted ?_ ?_).mpr ⟨?_, Or.inr (Or.inl ?_)⟩⟩
  · rw [last, directoryLogs_empty]
    decide
  · intro encoded member
    simp only [batches, List.filterMap_cons, List.filterMap_nil, List.mem_cons, List.not_mem_nil,
      or_false, or_self] at member
    rw [member]
    exact deletion_committed
  · intro encoded member
    simp only [batches, List.filterMap_cons, List.filterMap_nil, List.mem_cons, List.not_mem_nil,
      or_false, or_self] at member
    rw [member]
    simp [Shallow, deletion, CommittedBatch.documents]
  · exact Reads.nil.logs

theorem staleActive_not_extends :
    letI := Reference.platform (fun _ => .error "unsupported")
    ∃ result, loadDataFromPaths (.new (.constant 0)) staleActive = .ok result ∧
      result.state.lastSequence = 3 ∧ ¬ Extends (.new (.constant 0)) result [.append deletion] := by
  let _ := Reference.platform (fun _ => .error "unsupported")
  obtain ⟨result, accepted, watermark, last⟩ := staleActive_accepted Reference.gunzip_gzip
    (.new (.constant 0))
  obtain ⟨staging, leaves⟩ := leaves_of_accepted accepted
  refine ⟨result, accepted, last, ?_⟩
  have active : activeLogs staleActive = [⟨1, ⟨[.delete [107]]⟩, .checksummed⟩] :=
    (reads_deletion (Nat.succ_ne_zero 0) (by decide)).logs
  have reads := leaves.sound.active
  rw [leaves.active, active] at reads
  have short : 1 < result.state.lastSequence := by omega
  have room : result.state.lastSequence + 1 < 2 ^ 64 := by omega
  have broken := @broken_of_gap _ ⟨result.directory, result.state.lastSequence⟩ _ reads (by simp) short
    deletion room
  rintro ⟨second, loaded, _⟩
  have undisturbed := undisturbed_run ⟨result.directory, result.state.lastSequence⟩ [.append deletion]
  exact broken.refused (undisturbed.settled leaves.settled) _ second loaded

end OnyxDB.Persistence.FurtherWrites
