import OnyxDB.Engine.Reference
import OnyxDB.Library.Thinning
import OnyxDB.Persistence.WrittenFiles

/-! Recovery after some of the segments that a snapshot covers have been deleted. The history check
wants every file to begin where the one before it ends, so a deleted segment may not lie between two
files that are left and hold records. -/

namespace OnyxDB.Persistence.CoveredSegments
open OnyxDB.Library OnyxDB.Library.Thinning OnyxDB.Engine OnyxDB.Engine.Value OnyxDB.Store
  OnyxDB.Persistence OnyxDB.Persistence.Model OnyxDB.Persistence.Record OnyxDB.Persistence.Recovery
  OnyxDB.Persistence.Snapshot

/-- The directory without some of its segments. -/
def without (deleted : Nat → Bool) (directory : Directory) : Directory :=
  { directory with segments := directory.segments.filter (fun endSequence => !deleted endSequence) }

theorem recoverInterrupted_without {directory rotated : Directory} (deleted : Nat → Bool)
    (rotation : recoverInterruptedBinlogRotation directory = .ok rotated) :
    recoverInterruptedBinlogRotation (without deleted directory) = .ok (without deleted rotated) := by
  unfold recoverInterruptedBinlogRotation without at *
  cases active : directory.binlog <;> cases backup : directory.binlogBackup <;>
    cases temporary : directory.binlogTemp <;> simp_all
  all_goals subst rotation; simp_all

theorem consecutive_iff_run (logs : List LogRecord) :
    Consecutive logs ↔ Run (logs.map LogRecord.sequence) := by
  rw [Consecutive, Run, List.isChain_map]

theorem above_eq_nil {logs : List LogRecord} {watermark : Nat}
    (covered : ∀ sequence ∈ logs.map LogRecord.sequence, sequence ≤ watermark) :
    above watermark logs = [] := by
  simp only [above, List.filter_eq_nil_iff, decide_eq_true_eq]
  intro log member
  have bound := covered log.sequence (List.mem_map_of_mem member)
  omega

section
variable [Platform]

/-- Whether a binlog file has a complete record. -/
def holdsRecords (file : Bytes) : Bool :=
  match inspectBinlog file with
  | .ok inspection => inspection.minSequence.isSome
  | .error _ => false

/-- The sequences of the complete records of a file. -/
def sequences (file : Bytes) : List Nat := (binlogLogs file).map LogRecord.sequence

/-- The files of the history in order, each with whether it is left after the deletion. -/
def markedFiles (deleted : Nat → Bool) (directory : Directory) : List (Bytes × Bool) :=
  directory.segments.entries.map (fun segment => (segment.2, !deleted segment.1)) ++
    [((directory.binlog.or directory.binlogBackup).getD [], true)]

/-- No deleted segment lies between two files that are left and hold records. -/
def LeavesNoGap (deleted : Nat → Bool) (directory : Directory) : Prop :=
  NoHole Prod.snd ((markedFiles deleted directory).filter (fun file => holdsRecords file.1))

/-- No deleted segment holds a record above the watermark. -/
def DeletesOnlyCovered (deleted : Nat → Bool) (directory : Directory) (watermark : Nat) : Prop :=
  ∀ segment ∈ directory.segments.entries, deleted segment.1 = true →
    ∀ sequence ∈ sequences segment.2, sequence ≤ watermark

/-- Recovery from the thinned directory agrees with an earlier recovery. -/
def RecoversAlike (store : ShardedStore) (deleted : Nat → Bool) (directory : Directory)
    (result : Recovered) : Prop :=
  ∃ thinned, loadDataFromPaths store (without deleted directory) = .ok thinned ∧
    thinned.store.view = result.store.view ∧
    thinned.state.lastSequence = result.state.lastSequence ∧
    thinned.directory.segments.filter (fun endSequence =>
        decide (result.state.snapshotWatermark < endSequence)) =
      result.directory.segments.filter (fun endSequence =>
        decide (result.state.snapshotWatermark < endSequence))

theorem directoryLogs_sequences (directory : Directory) :
    (directoryLogs directory).map LogRecord.sequence =
      directory.segments.entries.flatMap (fun segment => sequences segment.2) ++
        sequences (directory.binlog.getD []) := by
  simp only [directoryLogs, List.map_append, List.map_flatMap, sequences]

/-- The deletion keeps the shape of a layout. -/
theorem layout_without {directory : Directory} {complete : List (Nat × Bytes)}
    {torn : Option (Nat × Bytes)} (layout : Layout directory complete torn) (deleted : Nat → Bool) :
    Layout (without deleted directory) (complete.filter (fun segment => !deleted segment.1))
      (torn.filter (fun segment => !deleted segment.1)) := by
  have entries : (without deleted directory).segments.entries =
      complete.filter (fun segment => !deleted segment.1) ++
        (torn.filter (fun segment => !deleted segment.1)).toList := by
    simp only [without, Catalog.filter, layout.entries, List.filter_append]
    congr 1
    cases torn with
    | none => rfl
    | some segment => cases flag : deleted segment.1 <;> simp [Option.filter, flag]
  refine ⟨layout.names, ?_, entries, ?_, ?_, layout.active⟩
  · exact (List.length_filter_le _ _).trans layout.count
  · intro segment member
    exact layout.complete segment (List.mem_filter.mp member).1
  · intro segment member
    rw [Option.mem_def, Option.filter_eq_some_iff] at member
    obtain ⟨reads, consecutive, last, free⟩ := layout.torn segment member.1
    refine ⟨reads, consecutive, last, ?_⟩
    rcases free with empty | same | absent
    · exact Or.inl empty
    · exact Or.inr (Or.inl same)
    · refine Or.inr (Or.inr ?_)
      simp only [Catalog.contains, List.any_eq_false] at absent ⊢
      intro other kept
      exact absent other (List.mem_filter.mp kept).1

/-- In a layout the files that hold records are those with a record to read. -/
theorem holdsRecords_iff {bytes : Bytes} {tail : Bytes} (reads : Reads bytes (binlogLogs bytes) tail)
    (consecutive : Consecutive (binlogLogs bytes)) : holdsRecords bytes = true ↔ sequences bytes ≠ [] := by
  rw [holdsRecords, inspectBinlog_of_reads reads consecutive, sequences]
  cases logs : binlogLogs bytes <;> simp [summary]

/-- The records that are left are consecutive exactly when the deletion leaves no gap. -/
theorem consecutive_without_iff {directory : Directory} {complete : List (Nat × Bytes)}
    {torn : Option (Nat × Bytes)} (layout : Layout directory complete torn)
    (consecutive : Consecutive (directoryLogs directory)) (deleted : Nat → Bool)
    (active : (directory.binlog.or directory.binlogBackup).getD [] = directory.binlog.getD []) :
    Consecutive (directoryLogs (without deleted directory)) ↔ LeavesNoGap deleted directory := by
  have decides : ∀ file ∈ markedFiles deleted directory,
      holdsRecords file.1 = true ↔ sequences file.1 ≠ [] := by
    intro file member
    rcases List.mem_append.mp member with early | late
    · obtain ⟨segment, present, rfl⟩ := List.mem_map.mp early
      rw [layout.entries] at present
      rcases List.mem_append.mp present with whole | cut
      · have sound := layout.complete segment whole
        exact holdsRecords_iff sound.reads sound.consecutive
      · obtain ⟨⟨tail, _, reads⟩, chain, _, _⟩ := layout.torn segment (Option.mem_toList.mp cut)
        exact holdsRecords_iff reads chain
    · rw [List.mem_singleton.mp late]
      obtain ⟨tail, reads⟩ := layout.active
      rw [active]
      exact holdsRecords_iff reads (consecutive_append.mp consecutive).2.1
  have whole : (directoryLogs directory).map LogRecord.sequence =
      ((markedFiles deleted directory).filter (fun file => holdsRecords file.1)).flatMap
        (fun file => sequences file.1) := by
    rw [flatMap_filter_nonempty (fun file : Bytes × Bool => sequences file.1) _ _ decides, directoryLogs_sequences]
    simp only [markedFiles, List.flatMap_append, List.flatMap_map, List.flatMap_cons,
      List.flatMap_nil, List.append_nil, active]
  have left : (directoryLogs (without deleted directory)).map LogRecord.sequence =
      (((markedFiles deleted directory).filter (fun file => holdsRecords file.1)).filter
        Prod.snd).flatMap (fun file => sequences file.1) := by
    have swap : ((markedFiles deleted directory).filter (fun file => holdsRecords file.1)).filter
        Prod.snd = ((markedFiles deleted directory).filter Prod.snd).filter
          (fun file => holdsRecords file.1) := by
      rw [List.filter_filter, List.filter_filter]
      congr 1
      funext file
      exact Bool.and_comm _ _
    rw [swap, flatMap_filter_nonempty (fun file : Bytes × Bool => sequences file.1) _ _
      (fun file member => decides file (List.mem_filter.mp member).1), directoryLogs_sequences]
    simp only [markedFiles, List.filter_append, List.filter_map, List.filter_cons, List.filter_nil,
      if_true, List.flatMap_append, List.flatMap_map, List.flatMap_cons, List.flatMap_nil,
      List.append_nil, active]
    rfl
  rw [consecutive_iff_run, whole] at consecutive
  rw [consecutive_iff_run, left]
  refine run_filter_iff _ _ _ ?_ consecutive
  intro file member
  obtain ⟨present, holds⟩ := List.mem_filter.mp member
  exact (decides file present).mp holds

theorem above_without {directory : Directory} {deleted : Nat → Bool} {watermark : Nat}
    (covered : DeletesOnlyCovered deleted directory watermark) :
    above watermark (directoryLogs (without deleted directory)) =
      above watermark (directoryLogs directory) := by
  unfold directoryLogs DeletesOnlyCovered at *
  rw [above_append, above_append]
  congr 1
  simp only [without, Catalog.filter]
  generalize directory.segments.entries = entries at covered
  induction entries with
  | nil => rfl
  | cons segment entries rest =>
      have others := rest (fun segment member => covered segment (List.mem_cons_of_mem _ member))
      by_cases gone : deleted segment.1 = true
      · have nothing := above_eq_nil (covered segment List.mem_cons_self gone)
        rw [List.filter_cons_of_neg (by simp [gone]), List.flatMap_cons, above_append, others, nothing,
          List.nil_append]
      · rw [List.filter_cons_of_pos (by simp [gone]), List.flatMap_cons, List.flatMap_cons,
          above_append, above_append, others]

/-- Above the watermark the deletion leaves the repaired segments alone. -/
theorem mend_without {directory : Directory} {complete : List (Nat × Bytes)}
    {torn : Option (Nat × Bytes)} (layout : Layout directory complete torn) {deleted : Nat → Bool}
    {watermark : Nat} (names : ∀ endSequence, deleted endSequence = true → endSequence ≤ watermark)
    (covered : DeletesOnlyCovered deleted directory watermark) :
    (mend (without deleted directory) (torn.filter (fun segment => !deleted segment.1))).segments.filter
        (fun endSequence => decide (watermark < endSequence)) =
      (mend directory torn).segments.filter
        (fun endSequence => decide (watermark < endSequence)) := by
  have spared : (without deleted directory).segments.filter
      (fun endSequence => decide (watermark < endSequence)) =
        directory.segments.filter (fun endSequence => decide (watermark < endSequence)) := by
    rw [without, Catalog.filter_filter]
    apply Catalog.filter_congr
    intro segment _
    cases gone : deleted segment.1 with
    | false => simp
    | true =>
        have low := names segment.1 gone
        simp
        omega
  cases torn with
  | none => exact spared
  | some segment =>
      cases gone : deleted segment.1 with
      | false =>
          have kept : Option.filter (fun segment : Nat × Bytes => !deleted segment.1) (some segment) =
              some segment := by simp [Option.filter, gone]
          have erased : ((without deleted directory).segments.erase segment.1).filter
              (fun endSequence => decide (watermark < endSequence)) =
                (directory.segments.erase segment.1).filter
                  (fun endSequence => decide (watermark < endSequence)) := by
            have swap (catalog : Catalog Bytes) : (catalog.erase segment.1).filter
                (fun endSequence => decide (watermark < endSequence)) =
                  (catalog.filter (fun endSequence => decide (watermark < endSequence))).erase
                    segment.1 := by
              rw [Catalog.erase, Catalog.erase, Catalog.filter_filter, Catalog.filter_filter]
              apply Catalog.filter_congr
              intro entry _
              exact Bool.and_comm _ _
            rw [swap, swap, spared]
          rw [kept]
          simp only [mend]
          split
          · exact erased
          · rw [Catalog.filter_insert, Catalog.filter_insert, erased]
      | true =>
          have dropped : Option.filter (fun segment : Nat × Bytes => !deleted segment.1) (some segment) =
              none := by simp [Option.filter, gone]
          have low := names segment.1 gone
          have erased : (directory.segments.erase segment.1).filter
              (fun endSequence => decide (watermark < endSequence)) =
                directory.segments.filter (fun endSequence => decide (watermark < endSequence)) :=
            Catalog.filter_erase_of_not (by simp only [decide_eq_false_iff_not]; omega)
          rw [dropped]
          simp only [mend]
          split
          · rw [erased]
            exact spared
          next recorded =>
            have present : segment ∈ directory.segments.entries := by
              rw [layout.entries]
              simp
            have bound : lastOf (binlogLogs segment.2) ≤ watermark := by
              obtain ⟨final, found⟩ : ∃ final, (binlogLogs segment.2).getLast? = some final :=
                ⟨_, List.getLast?_eq_some_getLast recorded⟩
              have below := covered segment present gone final.sequence
                (List.mem_map_of_mem (List.mem_of_getLast? found))
              simpa [lastOf, found] using below
            rw [Catalog.filter_insert, if_neg (by simp only [decide_eq_true_eq]; omega), erased]
            exact spared

/-- What is left begins no later than the history did, as far as recovery is concerned. -/
theorem begins_without {directory : Directory} {deleted : Nat → Bool} {watermark : Nat}
    (covered : DeletesOnlyCovered deleted directory watermark)
    (consecutive : Consecutive (directoryLogs directory))
    (thinned : Consecutive (directoryLogs (without deleted directory)))
    (begins : ∀ log ∈ (directoryLogs directory).head?, log.sequence ≤ watermark + 1) :
    ∀ log ∈ (directoryLogs (without deleted directory)).head?, log.sequence ≤ watermark + 1 := by
  intro log first
  by_contra late
  have same := above_without covered
  have fresh : log ∈ above watermark (directoryLogs directory) := by
    rw [← same]
    exact List.mem_filter.mpr ⟨List.mem_of_mem_head? first, by simp only [decide_eq_true_eq]; omega⟩
  have present : log ∈ directoryLogs directory := (List.mem_filter.mp fresh).1
  obtain ⟨start, others, listed⟩ : ∃ start others, directoryLogs directory = start :: others :=
    List.exists_cons_of_ne_nil (List.ne_nil_of_mem present)
  have low := begins start (by rw [listed]; rfl)
  have next : watermark + 1 ∈ (directoryLogs directory).map LogRecord.sequence := by
    refine ((consecutive_iff_run _).mp consecutive).mem_between ?_ (List.mem_map_of_mem present) low
      (by omega)
    rw [listed]
    exact List.mem_cons_self
  obtain ⟨found, member, value⟩ := List.mem_map.mp next
  have kept : found ∈ directoryLogs (without deleted directory) := by
    have beyond : found ∈ above watermark (directoryLogs directory) :=
      List.mem_filter.mpr ⟨member, by simp only [decide_eq_true_eq]; omega⟩
    rw [← same] at beyond
    exact (List.mem_filter.mp beyond).1
  obtain ⟨head, tail, cut⟩ : ∃ head tail, directoryLogs (without deleted directory) = head :: tail :=
    List.exists_cons_of_ne_nil (List.ne_nil_of_mem kept)
  rw [cut, List.head?_cons, Option.mem_some_iff] at first
  subst first
  rw [cut] at kept thinned
  rcases List.mem_cons.mp kept with rfl | later
  · omega
  · have order := @Run.lt_of_append [head.sequence] _ ((consecutive_iff_run _).mp thinned)
      head.sequence (by simp) found.sequence (List.mem_map_of_mem later)
    omega

/-- The store that recovery installs depends only on the records above the watermark. -/
theorem recovered_store_congr (store : ShardedStore) {first second : Directory}
    {history thinned : List InspectedBinlogFile} {watermark : Nat} (staging : ShardedStore)
    (same : above watermark (historyLogs thinned) = above watermark (historyLogs history)) :
    (recovered store first thinned watermark staging).store =
      (recovered store second history watermark staging).store := by
  simp only [recovered, advance, same]

/-- A deleted segment with a record above the watermark is the incomplete end of the history. Without
it recovery forgets that record. -/
theorem deletesOnlyCovered_of_last {directory : Directory} {complete : List (Nat × Bytes)}
    {torn : Option (Nat × Bytes)} (layout : Layout directory complete torn)
    (consecutive : Consecutive (directoryLogs directory)) {deleted : Nat → Bool} {watermark : Nat}
    (names : ∀ endSequence, deleted endSequence = true → endSequence ≤ watermark)
    (thinned : Consecutive (directoryLogs (without deleted directory)))
    (last : max watermark (lastOf (directoryLogs (without deleted directory))) =
      max watermark (lastOf (directoryLogs directory))) :
    DeletesOnlyCovered deleted directory watermark := by
  intro segment present gone sequence member
  by_contra beyond
  have bounded {logs : List LogRecord} (chain : Consecutive logs) {value : Nat}
      (held : value ∈ logs.map LogRecord.sequence) : value ≤ lastOf logs := by
    obtain ⟨log, inside, rfl⟩ := List.mem_map.mp held
    obtain ⟨before, after, rfl⟩ := List.append_of_mem inside
    have final := @lastOf_append (before ++ [log]) after (by simpa using chain)
    simp only [List.append_assoc, List.singleton_append] at final
    rw [final]
    simp [lastOf]
  have whole : Complete segment → False := by
    intro sound
    have below := bounded sound.consecutive member
    have ends := sound.ends
    have low := names segment.1 gone
    omega
  rw [layout.entries] at present
  rcases List.mem_append.mp present with early | late
  · exact whole (layout.complete segment early)
  · have cut : torn = some segment := Option.mem_toList.mp late
    subst cut
    obtain ⟨_, _, quiet, _⟩ := layout.torn segment rfl
    have held : sequence ∈ (directoryLogs directory).map LogRecord.sequence := by
      rw [directoryLogs_sequences, layout.entries]
      simp [member]
    have high := bounded consecutive held
    have nothing : ∀ value ∈ (directoryLogs (without deleted directory)).map LogRecord.sequence,
        value ≤ watermark := by
      intro value inside
      rw [directoryLogs_sequences] at inside
      rcases List.mem_append.mp inside with first | second
      · obtain ⟨other, kept, value_mem⟩ := List.mem_flatMap.mp first
        obtain ⟨entry, spared⟩ := List.mem_filter.mp kept
        have order := directory.segments.ordered
        rw [layout.entries, List.pairwise_append] at order
        rw [layout.entries] at entry
        rcases List.mem_append.mp entry with before | here
        · have sound := layout.complete other before
          have below := bounded sound.consecutive value_mem
          have less := order.2.2 other before segment (by simp)
          have ends := sound.ends
          have low := names segment.1 gone
          omega
        · simp only [Option.toList_some, List.mem_singleton] at here
          subst here
          simp [gone] at spared
      · rw [show (without deleted directory).binlog = directory.binlog from rfl, sequences, quiet]
          at second
        cases second
    have small : lastOf (directoryLogs (without deleted directory)) ≤ watermark := by
      have none_above := above_eq_nil nothing
      have top := max_lastOf_above thinned watermark
      rw [none_above] at top
      simp only [lastOf, List.getLast?_nil, Option.map_none, Option.getD_none] at top ⊢
      omega
    omega

/-- Deleting covered segments is harmless exactly when it leaves no gap in the history, and takes no
record above the watermark with it. -/
theorem recoversAlike_iff (store : ShardedStore) (directory : Directory) (result : Recovered)
    (deleted : Nat → Bool) (accepted : loadDataFromPaths store directory = .ok result)
    (names : ∀ endSequence, deleted endSequence = true →
      endSequence ≤ result.state.snapshotWatermark) :
    RecoversAlike store deleted directory result ↔ LeavesNoGap deleted directory ∧
      DeletesOnlyCovered deleted directory result.state.snapshotWatermark := by
  obtain ⟨rotated, format, history, repaired, staging, rotation, header, versioned, inspected, begins,
    loaded, rfl⟩ := loadDataFromPaths_ok.mp accepted
  obtain ⟨complete, torn, tail, layout, consecutive, reads, rfl, rfl⟩ :=
    layout_of_inspectBinlogHistory inspected
  obtain ⟨segments, binlog, noBackup⟩ := recoverInterrupted_files rotation
  have active : (rotated.binlog.or rotated.binlogBackup).getD [] = rotated.binlog.getD [] := by
    rw [noBackup]
  have files : LeavesNoGap deleted directory ↔ LeavesNoGap deleted rotated := by
    rw [LeavesNoGap, LeavesNoGap, markedFiles, markedFiles, segments, active, binlog]
  have contents : DeletesOnlyCovered deleted directory (snapshotWatermark format) ↔
      DeletesOnlyCovered deleted rotated (snapshotWatermark format) := by
    rw [DeletesOnlyCovered, DeletesOnlyCovered, segments]
  have gaps := consecutive_without_iff layout consecutive deleted active
  have thinnedLayout := layout_without layout deleted
  obtain ⟨described, chain⟩ := inspectBinlogHistory_described inspected
  have activeChain := (consecutive_append.mp consecutive).2.1
  have logs := layoutHistory_logs layout tail
  have thinnedLogs := layoutHistory_logs thinnedLayout tail
  rw [logs] at begins
  change _ ↔ _ ∧ DeletesOnlyCovered deleted directory (snapshotWatermark format)
  rw [files, contents, ← gaps]
  constructor
  · rintro ⟨thinned, recoveredAgain, _, last, _⟩
    obtain ⟨rotated', format', history', repaired', staging', rotation', header', _, inspected', _, _,
      rfl⟩ := loadDataFromPaths_ok.mp recoveredAgain
    rw [recoverInterrupted_without deleted rotation] at rotation'
    cases rotation'
    change inspectSnapshot (rotated.snapshot.or rotated.snapshotBackup) = .ok format' at header'
    rw [header] at header'
    cases header'
    obtain ⟨_, _, _, layout', chain', _, rfl, _⟩ := layout_of_inspectBinlogHistory inspected'
    obtain ⟨described', whole'⟩ := inspectBinlogHistory_described inspected'
    refine ⟨chain', deletesOnlyCovered_of_last layout consecutive names chain' ?_⟩
    change (recoveryState _ _ _).lastSequence = (recoveryState _ _ _).lastSequence at last
    rw [recoveryState_lastSequence described chain, recoveryState_lastSequence described' whole',
      logs, layoutHistory_logs layout'] at last
    exact last
  · rintro ⟨thinnedChain, covered⟩
    have inspectedAgain := inspectBinlogHistory_of_layout thinnedLayout thinnedChain reads
    obtain ⟨described', whole'⟩ := inspectBinlogHistory_described inspectedAgain
    have begins' := begins_without covered consecutive thinnedChain begins
    have same := above_without covered
    refine ⟨recovered store (mend (without deleted rotated)
        (torn.filter (fun segment => !deleted segment.1)))
        (layoutHistory (without deleted rotated) (complete.filter (fun segment => !deleted segment.1))
          (torn.filter (fun segment => !deleted segment.1)) tail) (snapshotWatermark format) staging,
      loadDataFromPaths_ok.mpr ⟨without deleted rotated, format, _, _, staging,
        recoverInterrupted_without deleted rotation, header, versioned, inspectedAgain, ?_, loaded, rfl⟩,
      ?_, ?_, ?_⟩
    · rw [thinnedLogs]
      exact begins'
    · refine congrArg ShardedStore.view (recovered_store_congr store staging ?_)
      rw [thinnedLogs, logs]
      exact same
    · change (recoveryState _ _ _).lastSequence = (recoveryState _ _ _).lastSequence
      rw [recoveryState_lastSequence described chain, recoveryState_lastSequence described' whole',
        logs, thinnedLogs, max_lastOf_above consecutive, max_lastOf_above thinnedChain, same]
    · rw [recovered_directory layout reads activeChain, recovered_directory thinnedLayout reads activeChain]
      exact congrArg (fun segments => segments.filter (fun endSequence =>
        decide (snapshotWatermark format < endSequence))) (mend_without layout names covered)

/-- Three sealed records below a snapshot of watermark three, and an empty active binlog. -/
def coveredHistory : Directory where
  snapshot := some (Platform.gzip ((snapshotHeader 3).flatMap String.utf8EncodeChar))
  binlog := some []
  segments := ⟨[(1, framedRecord 1 deletePayload), (2, framedRecord 2 deletePayload),
    (3, framedRecord 3 deletePayload)], by simp⟩

theorem complete_deletion {sequence : Nat} (positive : sequence ≠ 0) (bounded : sequence < 2 ^ 64) :
    Complete (sequence, framedRecord sequence deletePayload) := by
  have reads := reads_deletion positive bounded
  refine ⟨?_, ?_, ?_, ?_⟩ <;> rw [reads.logs]
  · exact reads
  · exact List.isChain_singleton _
  · simp
  · rfl

theorem coveredHistory_layout : Layout coveredHistory coveredHistory.segments.entries none := by
  refine ⟨rfl, by simp [coveredHistory, maxBinlogSegments], by simp, ?_, by simp, ⟨[], ?_⟩⟩
  · intro segment member
    simp only [coveredHistory, List.mem_cons, List.not_mem_nil, or_false] at member
    rcases member with rfl | rfl | rfl <;> exact complete_deletion (by decide) (by decide)
  · exact Reads.nil

theorem directoryLogs_covered (deleted : Nat → Bool) :
    directoryLogs (without deleted coveredHistory) = ([1, 2, 3].filter (fun endSequence =>
      !deleted endSequence)).map (fun sequence => ⟨sequence, ⟨[.delete [107]]⟩, .checksummed⟩) := by
  have first := (reads_deletion (Nat.succ_ne_zero 0) (by decide)).logs
  have second := (reads_deletion (Nat.succ_ne_zero 1) (by decide)).logs
  have third := (reads_deletion (Nat.succ_ne_zero 2) (by decide)).logs
  have last : binlogLogs [] = [] := Reads.nil.logs
  cases one : deleted 1 <;> cases two : deleted 2 <;> cases three : deleted 3 <;>
    simp [directoryLogs, without, coveredHistory, Catalog.filter, one, two, three, first, second,
      third, last]

theorem directoryLogs_coveredHistory : directoryLogs coveredHistory =
    [1, 2, 3].map (fun sequence => ⟨sequence, ⟨[.delete [107]]⟩, .checksummed⟩) := by
  have all : without (fun _ => false) coveredHistory = coveredHistory := by
    simp [without, coveredHistory, Catalog.filter]
  rw [← all, directoryLogs_covered]
  rfl

theorem coveredHistory_accepted (gzip : GzipRoundTrips) (store : ShardedStore) :
    ∃ result, loadDataFromPaths store coveredHistory = .ok result ∧
      result.state.snapshotWatermark = 3 := by
  have written : snapshotFile [] 3 =
      .ok (Platform.gzip ((snapshotHeader 3).flatMap String.utf8EncodeChar)) := rfl
  have snapshot := snapshotFile_reads gzip written (by decide) (by simp)
  have chain : Consecutive (directoryLogs coveredHistory) := by
    rw [directoryLogs_coveredHistory]
    simp [Consecutive]
  have history := inspectBinlogHistory_of_layout coveredHistory_layout chain Reads.nil
  refine ⟨_, loadDataFromPaths_ok.mpr ⟨coveredHistory, .versioned 3, _, _, _, rfl, snapshot.1, by simp,
    history, ?_, loadSnapshotEntries_file _ gzip written (by decide) (by simp), rfl⟩, rfl⟩
  rw [layoutHistory_logs coveredHistory_layout, directoryLogs_coveredHistory]
  simp [snapshotWatermark]

theorem leavesNoGap_coveredHistory (deleted : Nat → Bool) : LeavesNoGap deleted coveredHistory ↔
    Run ([1, 2, 3].filter (fun endSequence => !deleted endSequence)) := by
  have chain : Consecutive (directoryLogs coveredHistory) := by
    rw [directoryLogs_coveredHistory]
    simp [Consecutive]
  rw [← consecutive_without_iff coveredHistory_layout chain deleted rfl, consecutive_iff_run,
    directoryLogs_covered, List.map_map]
  simp [Function.comp_def]

theorem deletesOnlyCovered_coveredHistory (deleted : Nat → Bool) :
    DeletesOnlyCovered deleted coveredHistory 3 := by
  intro segment member _ sequence held
  simp only [coveredHistory, List.mem_cons, List.not_mem_nil, or_false] at member
  rcases member with rfl | rfl | rfl <;>
    simp only [sequences, (reads_deletion (Nat.succ_ne_zero 0) (by decide)).logs,
      (reads_deletion (Nat.succ_ne_zero 1) (by decide)).logs,
      (reads_deletion (Nat.succ_ne_zero 2) (by decide)).logs, List.map_cons, List.map_nil,
      List.mem_singleton] at held <;> omega

end

theorem coveredHistory_without_oldest :
    letI := Reference.platform (fun _ => .error "unsupported")
    ∃ result, loadDataFromPaths (.new (.constant 0)) coveredHistory = .ok result ∧
      RecoversAlike (.new (.constant 0)) (fun endSequence => endSequence == 1) coveredHistory result := by
  let _ := Reference.platform (fun _ => .error "unsupported")
  obtain ⟨result, accepted, watermark⟩ := coveredHistory_accepted Reference.gunzip_gzip
    (.new (.constant 0))
  refine ⟨result, accepted, (recoversAlike_iff _ _ result _ accepted ?_).mpr ⟨?_, ?_⟩⟩
  · intro endSequence gone
    simp only [beq_iff_eq] at gone
    omega
  · rw [leavesNoGap_coveredHistory]
    exact List.isChain_pair.mpr rfl
  · rw [watermark]
    exact deletesOnlyCovered_coveredHistory _

theorem coveredHistory_without_middle :
    letI := Reference.platform (fun _ => .error "unsupported")
    ∃ result, loadDataFromPaths (.new (.constant 0)) coveredHistory = .ok result ∧
      (∀ endSequence, (endSequence == 2) = true → endSequence ≤ result.state.snapshotWatermark) ∧
      ¬ RecoversAlike (.new (.constant 0)) (fun endSequence => endSequence == 2) coveredHistory
        result := by
  let _ := Reference.platform (fun _ => .error "unsupported")
  obtain ⟨result, accepted, watermark⟩ := coveredHistory_accepted Reference.gunzip_gzip
    (.new (.constant 0))
  have names : ∀ endSequence, (endSequence == 2) = true →
      endSequence ≤ result.state.snapshotWatermark := by
    intro endSequence gone
    simp only [beq_iff_eq] at gone
    omega
  refine ⟨result, accepted, names, ?_⟩
  rintro ⟨thinned, recoveredAgain, _⟩
  obtain ⟨rotated, _, _, _, _, rotation, _, _, inspected, _⟩ := loadDataFromPaths_ok.mp recoveredAgain
  cases rotation
  obtain ⟨_, _, _, _, chain, _⟩ := layout_of_inspectBinlogHistory inspected
  have logs := directoryLogs_covered (fun endSequence => endSequence == 2)
  rw [consecutive_iff_run] at chain
  have broken : ¬ Run [1, 3] := by simp [Run]
  apply broken
  simpa [logs] using chain

end OnyxDB.Persistence.CoveredSegments
