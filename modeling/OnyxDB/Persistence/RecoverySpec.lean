import OnyxDB.Persistence.History

/-! What recovery makes of a directory: which histories it accepts, and the content it installs. -/

namespace OnyxDB.Persistence.Recovery
open OnyxDB.Library OnyxDB.Engine OnyxDB.Engine.Value OnyxDB.Store OnyxDB.Persistence
  OnyxDB.Persistence.Codec OnyxDB.Persistence.Commit OnyxDB.Persistence.Model
  OnyxDB.Persistence.Record OnyxDB.Persistence.Snapshot

/-- The records above a watermark. -/
def above (watermark : Nat) (logs : List LogRecord) : List LogRecord :=
  logs.filter (fun log => decide (watermark < log.sequence))

theorem above_append (watermark : Nat) (first second : List LogRecord) :
    above watermark (first ++ second) = above watermark first ++ above watermark second :=
  List.filter_append ..

def logsWrites (logs : List LogRecord) : List (Expiring.Write Bytes PersistentEntry) :=
  logs.flatMap (fun log => batchWrites log.batch)

theorem logsWrites_append (first second : List LogRecord) :
    logsWrites (first ++ second) = logsWrites first ++ logsWrites second :=
  List.flatMap_append ..

theorem consecutive_append {first second : List LogRecord} :
    Consecutive (first ++ second) ↔ Consecutive first ∧ Consecutive second ∧
      ∀ last ∈ first.getLast?, ∀ next ∈ second.head?, next.sequence = last.sequence + 1 :=
  List.isChain_append

/-- The first sequence decides all others. -/
theorem Consecutive.sequences {log : LogRecord} {logs : List LogRecord}
    (consecutive : Consecutive (log :: logs)) :
    (log :: logs).map LogRecord.sequence = List.range' log.sequence (logs.length + 1) := by
  induction logs generalizing log with
  | nil => rfl
  | cons next logs rest =>
      obtain ⟨follows, later⟩ := List.isChain_cons_cons.mp consecutive
      rw [List.map_cons, rest later, follows, List.length_cons, List.range'_succ (n := logs.length + 1)]

theorem forM_checkSealedSegment {segments : List InspectedBinlogFile} :
    segments.forM checkSealedSegment = .ok () ↔
      ∀ segment ∈ segments, checkSealedSegment segment = .ok () := by
  induction segments with
  | nil => simp [pure, Except.pure]
  | cons segment segments rest =>
      change (checkSealedSegment segment >>= fun _ => segments.forM checkSealedSegment) = .ok () ↔ _
      cases checked : checkSealedSegment segment with
      | error failure => simp [checked, bind, Except.bind]
      | ok _ =>
          simp only [bind, Except.bind, List.forall_mem_cons, checked, true_and]
          exact rest

/-- An incomplete segment is repaired only at the end of the history. -/
theorem repairSegments_ok {directory repaired : Directory} {segments closed : List InspectedBinlogFile}
    {active : BinlogInspection} :
    repairSegments directory segments active = .ok (closed, repaired) ↔
      ((∀ segment ∈ segments, segment.inspection.truncatedTail = false) ∧ closed = segments ∧
          repaired = directory) ∨
        ∃ complete last kept, segments = complete ++ [last] ∧
          (∀ segment ∈ complete, segment.inspection.truncatedTail = false) ∧
          last.inspection.truncatedTail = true ∧ active.minSequence = none ∧
          repairLastIncompleteSegment directory (last.declaredEndSequence.getD 0) last =
            .ok (kept, repaired) ∧
          closed = complete ++ kept.toList := by
  unfold repairSegments
  constructor
  · intro accepted
    cases position : segments.findIdx? (fun segment => segment.inspection.truncatedTail) with
    | none =>
        rw [position] at accepted
        cases accepted
        left
        refine ⟨?_, rfl, rfl⟩
        intro segment member
        simpa using List.findIdx?_eq_none_iff.mp position segment member
    | some index =>
        obtain ⟨inside, torn, before⟩ := List.findIdx?_eq_some_iff_getElem.mp position
        rw [position] at accepted
        simp only [List.getElem?_eq_getElem inside, Option.getD_some] at accepted
        split at accepted
        · cases accepted
        next permitted =>
          have final : index + 1 = segments.length := by
            by_contra other
            exact permitted (Or.inl other)
          have quiet : active.minSequence = none := by
            by_contra recorded
            exact permitted (Or.inr (Option.isSome_iff_ne_none.mpr recorded))
          cases mended : repairLastIncompleteSegment directory
              (segments[index].declaredEndSequence.getD 0) segments[index] with
          | error failure => simp [mended, bind, Except.bind] at accepted
          | ok pair =>
              simp only [mended, bind, Except.bind, pure, Except.pure, Except.ok.injEq,
                Prod.mk.injEq] at accepted
              obtain ⟨rfl, rfl⟩ := accepted
              refine Or.inr ⟨segments.take index, segments[index], pair.1, ?_, ?_, torn, quiet, mended,
                rfl⟩
              · rw [List.take_append_getElem, final, List.take_length]
              · intro segment member
                obtain ⟨place, bound, rfl⟩ := List.getElem_of_mem member
                rw [List.getElem_take]
                rw [List.length_take] at bound
                simpa using before place (by omega)
  · rintro (⟨complete, rfl, rfl⟩ | ⟨complete, last, kept, rfl, whole, torn, quiet, mended, rfl⟩)
    · have position : closed.findIdx? (fun segment => segment.inspection.truncatedTail) = none := by
        rw [List.findIdx?_eq_none_iff]
        intro segment member
        simpa using complete segment member
      rw [position]
    · have position : (complete ++ [last]).findIdx? (fun segment => segment.inspection.truncatedTail) =
          some complete.length := by
        rw [List.findIdx?_eq_some_iff_getElem]
        refine ⟨by simp, by simpa using torn, ?_⟩
        intro place early
        have inside : place < (complete ++ [last]).length := by
          rw [List.length_append]
          omega
        have here : (complete ++ [last])[place] = complete[place] := List.getElem_append_left early
        rw [here]
        simpa using whole _ (List.getElem_mem early)
      rw [position]
      simp [quiet, mended, bind, Except.bind, pure, Except.pure]

/-- What is left of a repaired segment: its complete records, under the sequence of the last. -/
theorem repairLastIncompleteSegment_ok {directory repaired : Directory} {endSequence : Nat}
    {segment : InspectedBinlogFile} {kept : Option InspectedBinlogFile} :
    repairLastIncompleteSegment directory endSequence segment = .ok (kept, repaired) ↔
      (segment.inspection.minSequence = none ∧ kept = none ∧
          repaired = { directory with segments := directory.segments.erase endSequence }) ∨
        (segment.inspection.minSequence.isSome ∧
          (segment.inspection.maxSequence = endSequence ∨
            directory.segments.contains segment.inspection.maxSequence = false) ∧
          kept = some ⟨segment.contents.take segment.inspection.validLen,
            some segment.inspection.maxSequence, { segment.inspection with truncatedTail := false }⟩ ∧
          repaired = { directory with segments := ((directory.segments.erase endSequence).insert
            segment.inspection.maxSequence (segment.contents.take segment.inspection.validLen)) }) := by
  unfold repairLastIncompleteSegment
  cases first : segment.inspection.minSequence with
  | none =>
      simp only [Option.isNone_none, if_true, Except.ok.injEq, Prod.mk.injEq, true_and,
        Option.isSome_none, Bool.false_eq_true, false_and, or_false]
      constructor
      · rintro ⟨rfl, rfl⟩
        exact ⟨rfl, rfl⟩
      · rintro ⟨rfl, rfl⟩
        exact ⟨rfl, rfl⟩
  | some sequence =>
      simp only [Option.isNone_some, Bool.false_eq_true, if_false, reduceCtorEq, false_and,
        Option.isSome_some, true_and, false_or]
      by_cases clash : segment.inspection.maxSequence ≠ endSequence ∧
          directory.segments.contains segment.inspection.maxSequence = true
      · rw [if_pos clash]
        constructor
        · intro accepted
          cases accepted
        · rintro ⟨same | free, _⟩
          · exact absurd same clash.1
          · rw [clash.2] at free
            cases free
      · rw [if_neg clash]
        have free : segment.inspection.maxSequence = endSequence ∨
            directory.segments.contains segment.inspection.maxSequence = false := by
          by_cases same : segment.inspection.maxSequence = endSequence
          · exact Or.inl same
          · right
            cases held : directory.segments.contains segment.inspection.maxSequence with
            | false => rfl
            | true => exact absurd ⟨same, held⟩ clash
        simp only [Except.ok.injEq, Prod.mk.injEq, free, true_and]
        constructor
        · rintro ⟨rfl, rfl⟩
          exact ⟨rfl, rfl⟩
        · rintro ⟨rfl, rfl⟩
          exact ⟨rfl, rfl⟩

/-- Undoing a rotation leaves the segments alone and puts the backup in the place of a missing file. -/
theorem recoverInterrupted_files {directory rotated : Directory}
    (rotation : recoverInterruptedBinlogRotation directory = .ok rotated) :
    rotated.segments = directory.segments ∧
      rotated.binlog = directory.binlog.or directory.binlogBackup ∧
      rotated.binlog.or rotated.binlogBackup = rotated.binlog := by
  unfold recoverInterruptedBinlogRotation at rotation
  cases active : directory.binlog <;> cases backup : directory.binlogBackup <;>
    cases temporary : directory.binlogTemp <;> simp_all
  all_goals subst rotation; simp_all

section Described
variable [Platform]

def collectRecord (logs : List LogRecord) (record : Bytes) : Except PersistenceError (List LogRecord) :=
  (readLogRecord record).map (logs ++ [·])

/-- The records of a file, read in order. -/
def binlogLogs (bytes : Bytes) : List LogRecord :=
  match forEachBinlogRecord bytes collectRecord [] with
  | .ok (logs, _) => logs
  | .error _ => []

theorem forEach_collect {bytes tail : Bytes} {logs : List LogRecord} (reads : Reads bytes logs tail)
    (before : List LogRecord) :
    forEachBinlogRecord bytes collectRecord before = .ok (before ++ logs, tail) := by
  induction reads generalizing before with
  | finish next => rw [forEachBinlogRecord_eq, next]; simp
  | record next read later rest =>
      rw [forEachBinlogRecord_eq, next]
      simp only [collectRecord, read, Except.map]
      rw [rest, List.append_assoc, List.singleton_append]

theorem Reads.logs {bytes tail : Bytes} {logs : List LogRecord} (reads : Reads bytes logs tail) :
    binlogLogs bytes = logs := by
  rw [binlogLogs, forEach_collect reads, List.nil_append]

/-- An inspected file whose report agrees with its records. -/
structure Described (file : InspectedBinlogFile) : Prop where
  reads : ∃ tail, Reads file.contents (binlogLogs file.contents) tail
  consecutive : Consecutive (binlogLogs file.contents)
  minSequence : file.inspection.minSequence = (binlogLogs file.contents).head?.map LogRecord.sequence
  maxSequence : file.inspection.maxSequence =
    ((binlogLogs file.contents).getLast?.map LogRecord.sequence).getD 0

/-- The records of a history in order. -/
def historyLogs (files : List InspectedBinlogFile) : List LogRecord :=
  files.flatMap (fun file => binlogLogs file.contents)

theorem Described.sequence {file : InspectedBinlogFile} (described : Described file) :
    ∀ log ∈ binlogLogs file.contents, 0 < log.sequence ∧ log.sequence < 2 ^ 64 := by
  obtain ⟨tail, reads⟩ := described.reads
  exact reads.sequence

theorem historyLogs_sequence {files : List InspectedBinlogFile}
    (described : ∀ file ∈ files, Described file) :
    ∀ log ∈ historyLogs files, 0 < log.sequence ∧ log.sequence < 2 ^ 64 := by
  intro log member
  obtain ⟨file, present, held⟩ := List.mem_flatMap.mp member
  exact (described file present).sequence log held

/-- The check of neighbouring files accepts exactly the histories whose records are consecutive. -/
theorem checkContiguous_ok (files : List InspectedBinlogFile)
    (described : ∀ file ∈ files, Described file) (previousEnd : Option Nat) :
    checkContiguous previousEnd files = .ok () ↔ Consecutive (historyLogs files) ∧
      ∀ previous ∈ previousEnd, ∀ log ∈ (historyLogs files).head?,
        log.sequence = previous + 1 := by
  induction files generalizing previousEnd with
  | nil => simp [checkContiguous, historyLogs, Consecutive]
  | cons file files rest =>
      have here := described file List.mem_cons_self
      have later := rest (fun file member => described file (List.mem_cons_of_mem _ member))
      have split : historyLogs (file :: files) = binlogLogs file.contents ++ historyLogs files :=
        List.flatMap_cons
      rw [split]
      unfold checkContiguous
      cases logs : binlogLogs file.contents with
      | nil =>
          have empty : file.inspection.minSequence = none := by rw [here.minSequence, logs]; rfl
          simp only [empty, List.nil_append]
          exact later previousEnd
      | cons first others =>
          have start : file.inspection.minSequence = some first.sequence := by
            rw [here.minSequence, logs]
            rfl
          obtain ⟨last, final⟩ : ∃ last, (first :: others).getLast? = some last :=
            ⟨_, List.getLast?_eq_some_getLast (List.cons_ne_nil _ _)⟩
          have finish : file.inspection.maxSequence = last.sequence := by
            rw [here.maxSequence, logs, final]
            rfl
          have bounded := (here.sequence first (by rw [logs]; exact List.mem_cons_self)).2
          have chain : Consecutive (first :: others) := logs ▸ here.consecutive
          have joined : Consecutive (first :: others ++ historyLogs files) ↔
              checkContiguous (some last.sequence) files = .ok () := by
            rw [later, consecutive_append, final]
            simp only [Option.mem_some_iff, forall_eq']
            exact ⟨fun parts => parts.2, fun parts => ⟨chain, parts⟩⟩
          simp only [start, finish, List.cons_append, List.head?_cons, Option.mem_some_iff, forall_eq']
          rw [List.cons_append] at joined
          cases previousEnd with
          | none => simp [joined]
          | some previous =>
              by_cases follows : checkedSucc previous = some first.sequence
              · have value := (checkedSucc_eq_some bounded).mp follows
                simp only [follows, ne_eq, not_true_eq_false, if_false, joined, Option.mem_some_iff,
                  forall_eq', value, and_true]
              · have value : first.sequence ≠ previous + 1 :=
                  fun equal => follows ((checkedSucc_eq_some bounded).mpr equal)
                simp [follows, value]

end Described

section Replay
variable [Platform]

/-- The replay after some more records of a consecutive history. -/
def advance (watermark : Nat) (replay : Replay) (logs : List LogRecord) : Replay where
  staging := (above watermark logs).foldl (fun store log => applyCommittedBatch store log.batch)
    replay.staging
  expectedSequence := match logs.getLast? with
    | some last => checkedSucc (max watermark last.sequence)
    | none => replay.expectedSequence
  replayed := replay.replayed + (above watermark logs).length

/-- The replay expects the record that comes next in the history. -/
def Expects (watermark : Nat) (replay : Replay) (logs : List LogRecord) : Prop :=
  ∀ log ∈ logs.head?, replay.expectedSequence = checkedSucc (max watermark (log.sequence - 1))

theorem advance_cons (watermark : Nat) (replay : Replay) (log : LogRecord) (logs : List LogRecord) :
    advance watermark replay (log :: logs) =
      advance watermark (advance watermark replay [log]) logs := by
  unfold advance
  congr 1
  · rw [show log :: logs = [log] ++ logs from rfl, above_append, List.foldl_append]
  · cases logs with
    | nil => rfl
    | cons next logs => simp [List.getLast?_eq_some_getLast]
  · rw [show log :: logs = [log] ++ logs from rfl, above_append, List.length_append]
    exact (Nat.add_assoc _ _ _).symm

theorem replayRecord_eq {watermark : Nat} {replay : Replay} {record : Bytes} {log : LogRecord}
    (read : readLogRecord record = .ok log) (expects : Expects watermark replay [log]) :
    replayRecord watermark replay record = .ok (advance watermark replay [log]) := by
  obtain ⟨decoded, first, second, sequence, _⟩ := readLogRecord_ok.mp read
  have bounds := readLogRecord_sequence read
  have expected := expects log (by simp)
  unfold replayRecord
  rw [first]
  simp only [bind, Except.bind]
  by_cases covered : decoded.sequence ≤ watermark
  · have same : max watermark (log.sequence - 1) = max watermark log.sequence := by omega
    have none_above : above watermark [log] = [] := by
      simp only [above, List.filter_cons, List.filter_nil, decide_eq_true_eq]
      rw [if_neg (by omega)]
    rw [if_pos covered]
    simp only [advance, none_above, List.getLast?_singleton, ← same, ← expected]
    rfl
  · have previous : max watermark (log.sequence - 1) = log.sequence - 1 := by omega
    have current : max watermark log.sequence = log.sequence := by omega
    have all_above : above watermark [log] = [log] := by
      simp only [above, List.filter_cons, List.filter_nil, decide_eq_true_eq]
      rw [if_pos (by omega)]
    have matched : ¬ replay.expectedSequence ≠ some decoded.sequence := by
      rw [not_not, expected, previous, ← sequence, checkedSucc_eq_some bounds.2]
      omega
    rw [if_neg covered, if_neg matched, second]
    simp only [advance, all_above, List.getLast?_singleton, current, ← sequence]
    rfl

theorem Expects.next {watermark : Nat} {replay : Replay} {log : LogRecord} {logs : List LogRecord}
    (consecutive : Consecutive (log :: logs)) :
    Expects watermark (advance watermark replay [log]) logs := by
  intro next first
  cases logs with
  | nil => cases first
  | cons head logs =>
      cases first
      have follows := (List.isChain_cons_cons.mp consecutive).1
      simp only [advance, List.getLast?_singleton, follows, Nat.add_sub_cancel]

theorem forEach_replayRecord {watermark : Nat} {bytes tail : Bytes} {logs : List LogRecord}
    (reads : Reads bytes logs tail) (consecutive : Consecutive logs) (replay : Replay)
    (expects : Expects watermark replay logs) :
    forEachBinlogRecord bytes (replayRecord watermark) replay =
      .ok (advance watermark replay logs, tail) := by
  induction reads generalizing replay with
  | finish next =>
      rw [forEachBinlogRecord_eq, next]
      rfl
  | record next read later rest =>
      rw [forEachBinlogRecord_eq, next]
      simp only [replayRecord_eq read (fun log first => expects log (by simpa using first))]
      rw [rest consecutive.tail _ (Expects.next consecutive), ← advance_cons]

theorem Expects.append {watermark : Nat} {replay : Replay} {first second : List LogRecord}
    (consecutive : Consecutive (first ++ second)) (expects : Expects watermark replay (first ++ second)) :
    Expects watermark (advance watermark replay first) second := by
  induction first generalizing replay with
  | nil =>
      rw [List.nil_append] at expects
      exact expects
  | cons log first rest =>
      rw [advance_cons]
      exact rest consecutive.tail (Expects.next consecutive)

theorem advance_append (watermark : Nat) (replay : Replay) (first second : List LogRecord) :
    advance watermark replay (first ++ second) =
      advance watermark (advance watermark replay first) second := by
  induction first generalizing replay with
  | nil => simp [advance, above]
  | cons log first rest => rw [List.cons_append, advance_cons, rest, ← advance_cons]

/-- A consecutive history is replayed to its end. -/
theorem replayHistory_eq (watermark : Nat) (files : List InspectedBinlogFile)
    (described : ∀ file ∈ files, Described file) (consecutive : Consecutive (historyLogs files))
    (replay : Replay) (expects : Expects watermark replay (historyLogs files)) :
    replayHistory watermark files replay = .ok (advance watermark replay (historyLogs files)) := by
  induction files generalizing replay with
  | nil => simp [replayHistory, historyLogs, advance, above]
  | cons file files rest =>
      have split : historyLogs (file :: files) = binlogLogs file.contents ++ historyLogs files :=
        List.flatMap_cons
      rw [split] at consecutive expects ⊢
      obtain ⟨tail, reads⟩ := (described file List.mem_cons_self).reads
      have start : Expects watermark replay (binlogLogs file.contents) := by
        intro log first
        refine expects log ?_
        rw [Option.mem_def] at first ⊢
        rw [List.head?_append, first]
        rfl
      unfold replayHistory
      rw [forEach_replayRecord reads (consecutive_append.mp consecutive).1 replay start]
      simp only [bind, Except.bind]
      rw [rest (fun file member => described file (List.mem_cons_of_mem _ member))
        (consecutive_append.mp consecutive).2.1 _ (Expects.append consecutive expects),
        ← advance_append]

theorem foldl_applyCommittedBatch_writes (logs : List LogRecord) (store : ShardedStore) :
    Writes store (logs.foldl (fun store log => applyCommittedBatch store log.batch) store)
      (logsWrites logs) := by
  induction logs generalizing store with
  | nil => exact Writes.refl store
  | cons log logs rest => exact (applyCommittedBatch_writes store log.batch).trans (rest _)

end Replay

section Load
variable [Platform]

theorem described_inspected {bytes : Bytes} {endSequence : Option Nat} {inspection : BinlogInspection}
    (inspected : inspectBinlog bytes = .ok inspection) : Described ⟨bytes, endSequence, inspection⟩ := by
  obtain ⟨logs, tail, reads, consecutive, rfl⟩ := inspectBinlog_ok.mp inspected
  have same := reads.logs
  refine ⟨⟨tail, ?_⟩, ?_, ?_, ?_⟩
  · rw [same]
    exact reads
  · rw [same]
    exact consecutive
  · rw [same]
    rfl
  · rw [same]
    rfl

theorem inspectSegments_ok {entries : List (Nat × Bytes)} {files : List InspectedBinlogFile} :
    inspectSegments entries = .ok files ↔ List.Forall₂ (fun entry file =>
      file.contents = entry.2 ∧ file.declaredEndSequence = some entry.1 ∧
        inspectBinlog entry.2 = .ok file.inspection) entries files := by
  induction entries generalizing files with
  | nil =>
      simp only [inspectSegments, List.forall₂_nil_left_iff, Except.ok.injEq]
      exact eq_comm
  | cons entry entries rest =>
      obtain ⟨endSequence, contents⟩ := entry
      rw [inspectSegments]
      constructor
      · intro accepted
        cases inspected : inspectBinlog contents with
        | error failure => simp [inspected, bind, Except.bind] at accepted
        | ok inspection =>
            cases others : inspectSegments entries with
            | error failure => simp [inspected, others, bind, Except.bind] at accepted
            | ok segments =>
                simp only [inspected, others, bind, Except.bind, pure, Except.pure,
                  Except.ok.injEq] at accepted
                subst accepted
                exact .cons ⟨rfl, rfl, inspected⟩ (rest.mp others)
      · intro matched
        cases matched with
        | @cons _ file _ files here later =>
            obtain ⟨rfl, declared, inspected⟩ := here
            rw [inspected, rest.mpr later]
            simp only [bind, Except.bind, pure, Except.pure, Except.ok.injEq, List.cons.injEq, and_true]
            cases file
            simp_all

/-- What the inspection of a history checks. -/
theorem inspectBinlogHistory_ok {directory repaired : Directory} {history : List InspectedBinlogFile} :
    inspectBinlogHistory directory = .ok (history, repaired) ↔
      directory.malformedSegments = [] ∧ directory.segments.entries.length ≤ maxBinlogSegments ∧
      ∃ segments active closed, inspectSegments directory.segments.entries = .ok segments ∧
        inspectBinlog (directory.binlog.getD []) = .ok active ∧
        repairSegments directory segments active = .ok (closed, repaired) ∧
        (∀ segment ∈ closed, checkSealedSegment segment = .ok ()) ∧
        history = closed ++ [⟨directory.binlog.getD [], none, active⟩] ∧
        checkContiguous none history = .ok () := by
  unfold inspectBinlogHistory
  constructor
  · intro accepted
    cases names : directory.malformedSegments with
    | cons name others => simp [names, bind, Except.bind] at accepted
    | nil =>
        simp only [names, bind, Except.bind, pure, Except.pure] at accepted
        split at accepted
        · cases accepted
        next few =>
          cases listed : inspectSegments directory.segments.entries with
          | error failure => simp [listed] at accepted
          | ok segments =>
              cases inspected : inspectBinlog (directory.binlog.getD []) with
              | error failure => simp [listed, inspected] at accepted
              | ok active =>
                  cases mended : repairSegments directory segments active with
                  | error failure => simp [listed, inspected, mended] at accepted
                  | ok pair =>
                      obtain ⟨closed, after⟩ := pair
                      simp only [listed, inspected, mended] at accepted
                      cases sealedOk : closed.forM checkSealedSegment with
                      | error failure => simp [sealedOk] at accepted
                      | ok _ =>
                          simp only [sealedOk] at accepted
                          cases joined : checkContiguous none
                              (closed ++ [⟨directory.binlog.getD [], none, active⟩]) with
                          | error failure => simp [joined] at accepted
                          | ok _ =>
                              simp only [joined, Except.ok.injEq, Prod.mk.injEq] at accepted
                              obtain ⟨rfl, rfl⟩ := accepted
                              exact ⟨rfl, by omega, segments, active, closed, rfl, rfl, mended,
                                forM_checkSealedSegment.mp sealedOk, rfl, joined⟩
  · rintro ⟨names, few, segments, active, closed, listed, inspected, mended, sealedOk, rfl, joined⟩
    simp only [names, bind, Except.bind, pure, Except.pure, if_neg (Nat.not_lt.mpr few), listed,
      inspected, mended, forM_checkSealedSegment.mpr sealedOk, joined]

/-- What recovery installs and reports, given the history and the staging store with the snapshot. -/
def recovered (store : ShardedStore) (repaired : Directory) (history : List InspectedBinlogFile)
    (watermark : Nat) (staging : ShardedStore) : Recovered :=
  let replay := advance watermark ⟨staging, checkedSucc watermark, 0⟩ (historyLogs history)
  let directory := truncateActive repaired (activeInspection history)
  ⟨recoveryState history watermark replay.replayed,
    cleanupRedundantBinlogRotationFiles (cleanupSnapshotCoveredSegments history watermark directory),
    { store with engine := { store.engine with clock := replay.staging.rawEntries.2.engine.clock } }
      |>.replaceAll replay.staging.rawEntries.1⟩

/-- The first record of a history, found from the reports of its files. -/
theorem findSome_minSequence {files : List InspectedBinlogFile}
    (described : ∀ file ∈ files, Described file) :
    files.findSome? (fun file => file.inspection.minSequence) =
      (historyLogs files).head?.map LogRecord.sequence := by
  induction files with
  | nil => rfl
  | cons file files rest =>
      have here := (described file List.mem_cons_self).minSequence
      have later := rest (fun file member => described file (List.mem_cons_of_mem _ member))
      have split : historyLogs (file :: files) = binlogLogs file.contents ++ historyLogs files :=
        List.flatMap_cons
      rw [List.findSome?_cons, later, here, split, List.head?_append]
      cases (binlogLogs file.contents).head? <;> rfl

/-- A segment as it was inspected. -/
def Inspected (segment : InspectedBinlogFile) : Prop :=
  inspectBinlog segment.contents = .ok segment.inspection

theorem Inspected.described {segment : InspectedBinlogFile} (inspected : Inspected segment) :
    Described segment :=
  described_inspected inspected

theorem Inspected.repaired {segment : InspectedBinlogFile} (inspected : Inspected segment)
    (endSequence : Option Nat) :
    Described ⟨segment.contents.take segment.inspection.validLen, endSequence,
      { segment.inspection with truncatedTail := false }⟩ := by
  obtain ⟨logs, tail, reads, consecutive, report⟩ := inspectBinlog_ok.mp inspected
  have cut : segment.contents.take segment.inspection.validLen =
      segment.contents.take (segment.contents.length - tail.length) := by
    rw [report]
    rfl
  have same := reads.take.logs
  refine ⟨⟨[], ?_⟩, ?_, ?_, ?_⟩
  · rw [cut, same]
    exact reads.take
  · rw [cut, same]
    exact consecutive
  · rw [cut, same, report]
    rfl
  · rw [cut, same, report]
    rfl

theorem inspectSegments_inspected {entries : List (Nat × Bytes)} {files : List InspectedBinlogFile}
    (listed : inspectSegments entries = .ok files) : ∀ file ∈ files, Inspected file := by
  have matched := inspectSegments_ok.mp listed
  clear listed
  induction matched with
  | nil => simp
  | cons here _ rest =>
      obtain ⟨contents, _, inspected⟩ := here
      intro file member
      rcases List.mem_cons.mp member with rfl | later
      · rw [Inspected, contents]
        exact inspected
      · exact rest file later

/-- The history that recovery replays is described by its files and consecutive. -/
theorem inspectBinlogHistory_described {directory repaired : Directory}
    {history : List InspectedBinlogFile}
    (accepted : inspectBinlogHistory directory = .ok (history, repaired)) :
    (∀ file ∈ history, Described file) ∧ Consecutive (historyLogs history) := by
  obtain ⟨_, _, segments, active, closed, listed, inspected, mended, _, rfl, joined⟩ :=
    inspectBinlogHistory_ok.mp accepted
  have raw := inspectSegments_inspected listed
  have sealedFiles : ∀ file ∈ closed, Described file := by
    rcases repairSegments_ok.mp mended with ⟨_, rfl, _⟩ | ⟨complete, last, kept, rfl, _, _, _, fixed, rfl⟩
    · exact fun file member => (raw file member).described
    · intro file member
      rcases List.mem_append.mp member with early | late
      · exact (raw file (List.mem_append_left _ early)).described
      · rcases repairLastIncompleteSegment_ok.mp fixed with ⟨_, rfl, _⟩ | ⟨_, _, rfl, _⟩
        · simp at late
        · simp only [Option.toList_some, List.mem_singleton] at late
          subst late
          exact (raw last (by simp)).repaired _
  have described : ∀ file ∈ closed ++ [⟨directory.binlog.getD [], none, active⟩], Described file := by
    intro file member
    rcases List.mem_append.mp member with early | late
    · exact sealedFiles file early
    · rw [List.mem_singleton.mp late]
      exact described_inspected inspected
  exact ⟨described, ((checkContiguous_ok _ described none).mp joined).1⟩

/-- A consecutive history that begins no later than the watermark allows is replayed as a whole. -/
theorem replayHistory_start {history : List InspectedBinlogFile} {watermark : Nat}
    {staging : ShardedStore} (described : ∀ file ∈ history, Described file)
    (consecutive : Consecutive (historyLogs history))
    (begins : ∀ log ∈ (historyLogs history).head?, log.sequence ≤ watermark + 1) :
    replayHistory watermark history ⟨staging, checkedSucc watermark, 0⟩ =
      .ok (advance watermark ⟨staging, checkedSucc watermark, 0⟩ (historyLogs history)) := by
  apply replayHistory_eq watermark history described consecutive
  intro log first
  have start := begins log first
  have same : max watermark (log.sequence - 1) = watermark := by omega
  rw [same]

/-- The directories recovery accepts, and what it does with them. -/
theorem loadDataFromPaths_ok {store : ShardedStore} {directory : Directory} {result : Recovered} :
    loadDataFromPaths store directory = .ok result ↔
      ∃ rotated format history repaired staging,
        recoverInterruptedBinlogRotation directory = .ok rotated ∧
        inspectSnapshot (rotated.snapshot.or rotated.snapshotBackup) = .ok format ∧
        format ≠ .legacy ∧
        inspectBinlogHistory rotated = .ok (history, repaired) ∧
        (∀ log ∈ (historyLogs history).head?, log.sequence ≤ snapshotWatermark format + 1) ∧
        loadSnapshotEntries (.new store.engine.clock)
          (rotated.snapshot.or rotated.snapshotBackup) format = .ok staging ∧
        result = recovered store repaired history (snapshotWatermark format) staging := by
  unfold loadDataFromPaths
  constructor
  · intro accepted
    cases rotation : recoverInterruptedBinlogRotation directory with
    | error failure => simp [rotation, bind, Except.bind] at accepted
    | ok rotated =>
        cases header : inspectSnapshot (rotated.snapshot.or rotated.snapshotBackup) with
        | error failure => simp [rotation, header, bind, Except.bind] at accepted
        | ok format =>
            simp only [rotation, header, bind, Except.bind] at accepted
            split at accepted
            · cases accepted
            next versioned =>
              cases inspected : inspectBinlogHistory rotated with
              | error failure => simp [inspected] at accepted
              | ok pair =>
                  obtain ⟨history, repaired⟩ := pair
                  obtain ⟨described, consecutive⟩ := inspectBinlogHistory_described inspected
                  simp only [inspected, findSome_minSequence described] at accepted
                  split at accepted
                  · cases accepted
                  next starts =>
                    have begins : ∀ log ∈ (historyLogs history).head?,
                        log.sequence ≤ snapshotWatermark format + 1 := by
                      intro log first
                      rw [Option.mem_def] at first
                      simp only [first, Option.map_some, Option.any_some, decide_eq_true_eq] at starts
                      omega
                    cases loaded : loadSnapshotEntries (.new store.engine.clock)
                        (rotated.snapshot.or rotated.snapshotBackup) format with
                    | error failure => simp [loaded] at accepted
                    | ok staging =>
                        simp only [loaded, replayHistory_start described consecutive begins, pure,
                          Except.pure, Except.ok.injEq] at accepted
                        exact ⟨rotated, format, history, repaired, staging, rfl, header, versioned,
                          inspected, begins, loaded, accepted.symm⟩
  · rintro ⟨rotated, format, history, repaired, staging, rotation, header, versioned, inspected, begins,
      loaded, rfl⟩
    obtain ⟨described, consecutive⟩ := inspectBinlogHistory_described inspected
    have starts : ¬ ((historyLogs history).head?.map LogRecord.sequence).any
        (fun first => decide (first > min (snapshotWatermark format + 1) (2 ^ 64 - 1))) = true := by
      cases first : (historyLogs history).head? with
      | none => simp
      | some log =>
          have low := begins log first
          have bounded := historyLogs_sequence described log (List.mem_of_mem_head? first)
          simp only [Option.map_some, Option.any_some, decide_eq_true_eq]
          omega
    simp only [rotation, header, bind, Except.bind, if_neg versioned, inspected,
      findSome_minSequence described, if_neg starts, loaded,
      replayHistory_start described consecutive begins, pure, Except.pure]
    rfl

end Load

end OnyxDB.Persistence.Recovery
