import OnyxDB.Persistence.RecoverySpec

/-! The directories that recovery accepts, described by the records of their files: complete segments,
at most one incomplete segment at the end of the history, and the active binlog. -/

namespace OnyxDB.Persistence.Recovery
open OnyxDB.Library OnyxDB.Engine OnyxDB.Engine.Value OnyxDB.Store OnyxDB.Persistence
  OnyxDB.Persistence.Codec OnyxDB.Persistence.Commit OnyxDB.Persistence.Model
  OnyxDB.Persistence.Record OnyxDB.Persistence.Snapshot

variable [Platform]

/-- The last sequence of some records. -/
def lastOf (logs : List LogRecord) : Nat := (logs.getLast?.map LogRecord.sequence).getD 0

/-- A segment as the server seals it: complete records that end at the sequence of its name. -/
structure Complete (segment : Nat × Bytes) : Prop where
  reads : Reads segment.2 (binlogLogs segment.2) []
  consecutive : Consecutive (binlogLogs segment.2)
  nonempty : binlogLogs segment.2 ≠ []
  ends : lastOf (binlogLogs segment.2) = segment.1

/-- An incomplete segment that can be repaired: the active binlog `active` holds no record, and the
name of what is left is free. -/
structure Torn (segments : Catalog Bytes) (active : Bytes) (segment : Nat × Bytes) : Prop where
  reads : ∃ tail, tail ≠ [] ∧ Reads segment.2 (binlogLogs segment.2) tail
  consecutive : Consecutive (binlogLogs segment.2)
  last : binlogLogs active = []
  free : binlogLogs segment.2 = [] ∨ lastOf (binlogLogs segment.2) = segment.1 ∨
    segments.contains (lastOf (binlogLogs segment.2)) = false

/-- The files of a directory up to the incomplete segment. -/
structure Layout (directory : Directory) (complete : List (Nat × Bytes)) (torn : Option (Nat × Bytes)) :
    Prop where
  names : directory.malformedSegments = []
  count : directory.segments.entries.length ≤ maxBinlogSegments
  entries : directory.segments.entries = complete ++ torn.toList
  complete : ∀ segment ∈ complete, Complete segment
  torn : ∀ segment ∈ torn, Torn directory.segments (directory.binlog.getD []) segment
  active : ∃ tail, Reads (directory.binlog.getD []) (binlogLogs (directory.binlog.getD [])) tail

/-- The records of the segments and of the active binlog, in order. -/
def directoryLogs (directory : Directory) : List LogRecord :=
  directory.segments.entries.flatMap (fun segment => binlogLogs segment.2) ++
    binlogLogs (directory.binlog.getD [])

/-- The complete part of a file. -/
def validPart (bytes : Bytes) : Bytes :=
  match inspectBinlog bytes with
  | .ok inspection => bytes.take inspection.validLen
  | .error _ => bytes

/-- The directory after the repair of its incomplete segment. -/
def mend (directory : Directory) : Option (Nat × Bytes) → Directory
  | none => directory
  | some (endSequence, contents) =>
      if binlogLogs contents = [] then
        { directory with segments := directory.segments.erase endSequence }
      else
        { directory with segments := ((directory.segments.erase endSequence).insert
          (lastOf (binlogLogs contents)) (validPart contents)) }

theorem mend_binlog (directory : Directory) (torn : Option (Nat × Bytes)) :
    (mend directory torn).binlog = directory.binlog := by
  cases torn with
  | none => rfl
  | some segment =>
      simp only [mend]
      split <;> rfl

theorem inspectBinlog_reads {bytes : Bytes} {inspection : BinlogInspection}
    (inspected : inspectBinlog bytes = .ok inspection) : ∃ tail,
      Reads bytes (binlogLogs bytes) tail ∧ Consecutive (binlogLogs bytes) ∧
        inspection = summary bytes (binlogLogs bytes) tail := by
  obtain ⟨logs, tail, reads, consecutive, rfl⟩ := inspectBinlog_ok.mp inspected
  rw [reads.logs]
  exact ⟨tail, reads, consecutive, rfl⟩

theorem inspectBinlog_of_reads {bytes tail : Bytes} (reads : Reads bytes (binlogLogs bytes) tail)
    (consecutive : Consecutive (binlogLogs bytes)) :
    inspectBinlog bytes = .ok (summary bytes (binlogLogs bytes) tail) :=
  inspectBinlog_ok.mpr ⟨_, tail, reads, consecutive, rfl⟩

/-- The inspected file of a complete segment. -/
def inspectedFile (endSequence : Option Nat) (bytes tail : Bytes) : InspectedBinlogFile :=
  ⟨bytes, endSequence, summary bytes (binlogLogs bytes) tail⟩

omit [Platform] in
theorem checkSealedSegment_ok {segment : InspectedBinlogFile} :
    checkSealedSegment segment = .ok () ↔ segment.inspection.minSequence.isSome ∧
      segment.inspection.maxSequence = segment.declaredEndSequence.getD 0 := by
  unfold checkSealedSegment
  cases first : segment.inspection.minSequence with
  | none => simp
  | some sequence => simp

theorem Complete.inspected {segment : Nat × Bytes} (complete : Complete segment) :
    inspectBinlog segment.2 = .ok (summary segment.2 (binlogLogs segment.2) []) :=
  inspectBinlog_of_reads complete.reads complete.consecutive

theorem Complete.checked {segment : Nat × Bytes} (complete : Complete segment) :
    checkSealedSegment (inspectedFile (some segment.1) segment.2 []) = .ok () := by
  rw [checkSealedSegment_ok]
  refine ⟨?_, complete.ends⟩
  cases logs : binlogLogs segment.2 with
  | nil => exact absurd logs complete.nonempty
  | cons first others => simp [inspectedFile, summary, logs]

theorem inspectSegments_complete (complete : List (Nat × Bytes))
    (sound : ∀ segment ∈ complete, Complete segment) :
    inspectSegments complete =
      .ok (complete.map (fun segment => inspectedFile (some segment.1) segment.2 [])) := by
  induction complete with
  | nil => rfl
  | cons segment complete rest =>
      rw [inspectSegments, (sound segment List.mem_cons_self).inspected,
        rest (fun segment member => sound segment (List.mem_cons_of_mem _ member))]
      rfl

theorem inspectSegments_append {first second : List (Nat × Bytes)}
    {firstFiles secondFiles : List InspectedBinlogFile} (before : inspectSegments first = .ok firstFiles)
    (after : inspectSegments second = .ok secondFiles) :
    inspectSegments (first ++ second) = .ok (firstFiles ++ secondFiles) := by
  rw [inspectSegments_ok] at *
  exact List.rel_append before after

/-- What the repair leaves of an incomplete segment. -/
def mendedFiles : Option (Nat × Bytes) → List InspectedBinlogFile
  | none => []
  | some (_, contents) =>
      if binlogLogs contents = [] then []
      else [inspectedFile (some (lastOf (binlogLogs contents))) (validPart contents) []]

theorem validPart_logs {bytes tail : Bytes} (reads : Reads bytes (binlogLogs bytes) tail)
    (consecutive : Consecutive (binlogLogs bytes)) :
    Reads (validPart bytes) (binlogLogs bytes) [] ∧
      validPart bytes = bytes.take (bytes.length - tail.length) := by
  have cut : validPart bytes = bytes.take (bytes.length - tail.length) := by
    rw [validPart, inspectBinlog_of_reads reads consecutive]
    rfl
  rw [cut]
  exact ⟨reads.take, rfl⟩

/-- The history of a directory with a given layout. -/
def layoutHistory (directory : Directory) (complete : List (Nat × Bytes)) (torn : Option (Nat × Bytes))
    (tail : Bytes) : List InspectedBinlogFile :=
  complete.map (fun segment => inspectedFile (some segment.1) segment.2 []) ++ mendedFiles torn ++
    [inspectedFile none (directory.binlog.getD []) tail]

theorem mendedFiles_logs (torn : Option (Nat × Bytes))
    (sound : ∀ segment ∈ torn, ∃ tail, Reads segment.2 (binlogLogs segment.2) tail ∧
      Consecutive (binlogLogs segment.2)) :
    historyLogs (mendedFiles torn) = torn.toList.flatMap (fun segment => binlogLogs segment.2) := by
  cases torn with
  | none => rfl
  | some segment =>
      obtain ⟨tail, reads, consecutive⟩ := sound segment rfl
      simp only [mendedFiles, Option.toList_some, List.flatMap_cons, List.flatMap_nil, List.append_nil]
      split
      next empty => rw [empty]; rfl
      · simp only [historyLogs, List.flatMap_cons, List.flatMap_nil, List.append_nil, inspectedFile]
        exact (validPart_logs reads consecutive).1.logs

theorem layoutHistory_logs {directory : Directory} {complete : List (Nat × Bytes)}
    {torn : Option (Nat × Bytes)} (layout : Layout directory complete torn) (tail : Bytes) :
    historyLogs (layoutHistory directory complete torn tail) = directoryLogs directory := by
  have mended := mendedFiles_logs torn (fun segment member => by
    obtain ⟨⟨rest, _, reads⟩, consecutive, _, _⟩ := layout.torn segment member
    exact ⟨rest, reads, consecutive⟩)
  have sealedLogs : historyLogs (complete.map
      (fun segment => inspectedFile (some segment.1) segment.2 [])) =
        complete.flatMap (fun segment => binlogLogs segment.2) := by
    simp only [historyLogs, List.flatMap_map, inspectedFile]
  calc
    historyLogs (layoutHistory directory complete torn tail)
      = historyLogs (complete.map (fun segment => inspectedFile (some segment.1) segment.2 [])) ++
          historyLogs (mendedFiles torn) ++ binlogLogs (directory.binlog.getD []) := by
        simp only [layoutHistory, historyLogs, List.flatMap_append, List.flatMap_cons,
          List.flatMap_nil, List.append_nil, inspectedFile]
    _ = directoryLogs directory := by
        rw [sealedLogs, mended, directoryLogs, layout.entries, List.flatMap_append]

omit [Platform] in
theorem head_isSome_of_ne_nil {logs : List LogRecord} (nonempty : logs ≠ []) :
    (logs.head?.map LogRecord.sequence).isSome = true := by
  cases logs with
  | nil => exact absurd rfl nonempty
  | cons log logs => rfl

/-- The repaired file is the inspection of the complete part. -/
theorem mendedFile_eq {bytes tail : Bytes} (endSequence : Nat)
    (reads : Reads bytes (binlogLogs bytes) tail) (consecutive : Consecutive (binlogLogs bytes)) :
    (⟨bytes.take (summary bytes (binlogLogs bytes) tail).validLen, some endSequence,
        { summary bytes (binlogLogs bytes) tail with truncatedTail := false }⟩ : InspectedBinlogFile) =
      inspectedFile (some endSequence) (validPart bytes) [] := by
  obtain ⟨valid, cut⟩ := validPart_logs reads consecutive
  have length : (bytes.take (bytes.length - tail.length)).length = bytes.length - tail.length := by
    rw [List.length_take]
    omega
  rw [inspectedFile, valid.logs, cut]
  simp only [summary, List.length_nil, Nat.sub_zero, length, List.isEmpty_nil, Bool.not_true]

/-- The repair of an incomplete segment, in terms of its records. -/
theorem repairLast_ok {directory repaired : Directory} {endSequence : Nat} {bytes tail : Bytes}
    {kept : Option InspectedBinlogFile} (reads : Reads bytes (binlogLogs bytes) tail)
    (consecutive : Consecutive (binlogLogs bytes)) :
    repairLastIncompleteSegment directory endSequence
        ⟨bytes, some endSequence, summary bytes (binlogLogs bytes) tail⟩ = .ok (kept, repaired) ↔
      (binlogLogs bytes = [] ∨ lastOf (binlogLogs bytes) = endSequence ∨
        directory.segments.contains (lastOf (binlogLogs bytes)) = false) ∧
      kept.toList = mendedFiles (some (endSequence, bytes)) ∧
      repaired = mend directory (some (endSequence, bytes)) := by
  have file := mendedFile_eq (lastOf (binlogLogs bytes)) reads consecutive
  have valid : bytes.take (summary bytes (binlogLogs bytes) tail).validLen = validPart bytes :=
    (validPart_logs reads consecutive).2.symm
  rw [repairLastIncompleteSegment_ok]
  by_cases empty : binlogLogs bytes = []
  · have first : (summary bytes (binlogLogs bytes) tail).minSequence = none := by
      simp only [summary, empty, List.head?_nil, Option.map_none]
    constructor
    · rintro (⟨_, rfl, rfl⟩ | ⟨recorded, _⟩)
      · exact ⟨Or.inl empty, by simp [mendedFiles, empty], by simp [mend, empty]⟩
      · rw [first] at recorded
        cases recorded
    · rintro ⟨_, nothing, rfl⟩
      refine Or.inl ⟨first, ?_, by simp [mend, empty]⟩
      simpa [mendedFiles, empty] using nothing
  · have first : (summary bytes (binlogLogs bytes) tail).minSequence.isSome = true :=
      head_isSome_of_ne_nil empty
    constructor
    · rintro (⟨nothing, _⟩ | ⟨_, free, rfl, rfl⟩)
      · rw [nothing] at first
        cases first
      · refine ⟨Or.inr free, ?_, ?_⟩
        · simp only [mendedFiles, if_neg empty, Option.toList_some]
          exact congrArg (fun file => [file]) file
        · simp only [mend, if_neg empty, valid]
          rfl
    · rintro ⟨free, same, rfl⟩
      refine Or.inr ⟨first, free.resolve_left empty, ?_, ?_⟩
      · simp only [mendedFiles, if_neg empty] at same
        cases kept with
        | none => cases same
        | some segment => exact congrArg some ((List.cons.inj same).1.trans file.symm)
      · simp only [mend, if_neg empty, valid]
        rfl

theorem described_inspectedFile {endSequence : Option Nat} {bytes tail : Bytes}
    (reads : Reads bytes (binlogLogs bytes) tail) (consecutive : Consecutive (binlogLogs bytes)) :
    Described (inspectedFile endSequence bytes tail) :=
  described_inspected (inspectBinlog_of_reads reads consecutive)

theorem layoutHistory_described {directory : Directory} {complete : List (Nat × Bytes)}
    {torn : Option (Nat × Bytes)} (layout : Layout directory complete torn) {tail : Bytes}
    (reads : Reads (directory.binlog.getD []) (binlogLogs (directory.binlog.getD [])) tail)
    (consecutive : Consecutive (binlogLogs (directory.binlog.getD []))) :
    ∀ file ∈ layoutHistory directory complete torn tail, Described file := by
  intro file member
  rcases List.mem_append.mp member with early | late
  · rcases List.mem_append.mp early with first | second
    · obtain ⟨segment, present, rfl⟩ := List.mem_map.mp first
      have sound := layout.complete segment present
      exact described_inspectedFile sound.reads sound.consecutive
    · cases torn with
      | none => cases second
      | some segment =>
          obtain ⟨⟨rest, _, fragment⟩, chain, _, _⟩ := layout.torn segment rfl
          simp only [mendedFiles] at second
          split at second
          · cases second
          · rw [List.mem_singleton.mp second]
            have valid := (validPart_logs fragment chain).1
            have wholeReads : Reads (validPart segment.2) (binlogLogs (validPart segment.2)) [] := by
              rw [valid.logs]
              exact valid
            apply described_inspectedFile wholeReads
            rw [valid.logs]
            exact chain
  · rw [List.mem_singleton.mp late]
    exact described_inspectedFile reads consecutive

/-- A layout with consecutive records is accepted. -/
theorem inspectBinlogHistory_of_layout {directory : Directory} {complete : List (Nat × Bytes)}
    {torn : Option (Nat × Bytes)} (layout : Layout directory complete torn)
    (consecutive : Consecutive (directoryLogs directory)) {tail : Bytes}
    (reads : Reads (directory.binlog.getD []) (binlogLogs (directory.binlog.getD [])) tail) :
    inspectBinlogHistory directory =
      .ok (layoutHistory directory complete torn tail, mend directory torn) := by
  have activeChain : Consecutive (binlogLogs (directory.binlog.getD [])) :=
    (consecutive_append.mp consecutive).2.1
  have described := layoutHistory_described layout reads activeChain
  have joined : checkContiguous none (layoutHistory directory complete torn tail) = .ok () := by
    rw [checkContiguous_ok _ described, layoutHistory_logs layout]
    exact ⟨consecutive, by simp⟩
  have sealedFiles := inspectSegments_complete complete layout.complete
  generalize listed : complete.map (fun segment => inspectedFile (some segment.1) segment.2 []) = closed
    at sealedFiles
  rw [inspectBinlogHistory_ok]
  refine ⟨layout.names, layout.count, ?_⟩
  have active := inspectBinlog_of_reads reads activeChain
  cases torn with
  | none =>
      refine ⟨closed, _, closed, ?_, active, repairSegments_ok.mpr (Or.inl ⟨?_, rfl, rfl⟩), ?_, ?_,
        joined⟩
      · rw [layout.entries, Option.toList_none, List.append_nil]
        exact sealedFiles
      · intro file member
        rw [← listed] at member
        obtain ⟨segment, _, rfl⟩ := List.mem_map.mp member
        rfl
      · intro file member
        rw [← listed] at member
        obtain ⟨segment, present, rfl⟩ := List.mem_map.mp member
        exact (layout.complete segment present).checked
      · simp only [layoutHistory, mendedFiles, List.append_nil, listed]
        rfl
  | some segment =>
      obtain ⟨endSequence, contents⟩ := segment
      obtain ⟨⟨rest, unfinished, part⟩, chain, last, free⟩ := layout.torn _ rfl
      have inspected := inspectBinlog_of_reads part chain
      have files : (mendedFiles (some (endSequence, contents))).head?.toList =
          mendedFiles (some (endSequence, contents)) := by
        simp only [mendedFiles]
        split <;> rfl
      have mended := (repairLast_ok part chain).mpr ⟨free, files, rfl⟩
      refine ⟨closed ++ [inspectedFile (some endSequence) contents rest], _,
        closed ++ (mendedFiles (some (endSequence, contents))).head?.toList, ?_, active,
        repairSegments_ok.mpr (Or.inr ⟨closed, inspectedFile (some endSequence) contents rest, _, rfl,
          ?_, ?_, ?_, mended, rfl⟩), ?_, ?_, joined⟩
      · rw [layout.entries]
        refine inspectSegments_append sealedFiles ?_
        simp only [Option.toList_some, inspectSegments, inspected, bind, Except.bind, pure, Except.pure]
        rfl
      · intro file member
        rw [← listed] at member
        obtain ⟨segment, _, rfl⟩ := List.mem_map.mp member
        rfl
      · cases rest with
        | nil => exact absurd rfl unfinished
        | cons byte rest => rfl
      · simp only [summary]
        rw [last]
        rfl
      · intro file member
        rcases List.mem_append.mp member with early | late
        · rw [← listed] at early
          obtain ⟨segment, present, rfl⟩ := List.mem_map.mp early
          exact (layout.complete segment present).checked
        · simp only [mendedFiles] at late
          split at late
          · simp at late
          next recorded =>
            simp only [List.head?_cons, Option.toList_some, List.mem_singleton] at late
            subst late
            rw [checkSealedSegment_ok]
            simp only [inspectedFile, (validPart_logs part chain).1.logs, summary]
            exact ⟨head_isSome_of_ne_nil recorded, rfl⟩
      · simp only [layoutHistory, mendedFiles, listed]
        split <;> rfl

/-- A file that inspection accepted, with its records. -/
theorem inspectSegments_files {entries : List (Nat × Bytes)} {files : List InspectedBinlogFile}
    (listed : inspectSegments entries = .ok files) :
    List.Forall₂ (fun entry file => ∃ tail, Reads entry.2 (binlogLogs entry.2) tail ∧
      Consecutive (binlogLogs entry.2) ∧ file = inspectedFile (some entry.1) entry.2 tail)
      entries files := by
  refine List.Forall₂.imp ?_ (inspectSegments_ok.mp listed)
  rintro entry ⟨contents, declared, inspection⟩ ⟨same, name, inspected⟩
  obtain ⟨tail, reads, consecutive, report⟩ := inspectBinlog_reads inspected
  refine ⟨tail, reads, consecutive, ?_⟩
  simp only at same name report
  rw [inspectedFile, same, name, report]

/-- Files without an incomplete tail that pass the checks are complete segments. -/
theorem complete_of_checked {entries : List (Nat × Bytes)} {files : List InspectedBinlogFile}
    (matched : List.Forall₂ (fun entry file => ∃ tail, Reads entry.2 (binlogLogs entry.2) tail ∧
      Consecutive (binlogLogs entry.2) ∧ file = inspectedFile (some entry.1) entry.2 tail)
      entries files)
    (whole : ∀ file ∈ files, file.inspection.truncatedTail = false)
    (checked : ∀ file ∈ files, checkSealedSegment file = .ok ()) :
    (∀ entry ∈ entries, Complete entry) ∧
      files = entries.map (fun segment => inspectedFile (some segment.1) segment.2 []) := by
  induction matched with
  | nil => simp
  | @cons entry file entries files here _ rest =>
      obtain ⟨tail, reads, consecutive, rfl⟩ := here
      obtain ⟨others, same⟩ := rest
        (fun file member => whole file (List.mem_cons_of_mem _ member))
        (fun file member => checked file (List.mem_cons_of_mem _ member))
      have finished : tail = [] := by
        have flag := whole _ List.mem_cons_self
        simpa [inspectedFile, summary] using flag
      subst finished
      obtain ⟨recorded, ends⟩ := checkSealedSegment_ok.mp (checked _ List.mem_cons_self)
      have nonempty : binlogLogs entry.2 ≠ [] := by
        intro empty
        simp [inspectedFile, summary, empty] at recorded
      refine ⟨?_, by rw [List.map_cons, same]⟩
      intro segment member
      rcases List.mem_cons.mp member with rfl | later
      · exact ⟨reads, consecutive, nonempty, ends⟩
      · exact others segment later

/-- Every accepted history comes from a layout with consecutive records. -/
theorem layout_of_inspectBinlogHistory {directory repaired : Directory}
    {history : List InspectedBinlogFile}
    (accepted : inspectBinlogHistory directory = .ok (history, repaired)) :
    ∃ complete torn tail, Layout directory complete torn ∧ Consecutive (directoryLogs directory) ∧
      Reads (directory.binlog.getD []) (binlogLogs (directory.binlog.getD [])) tail ∧
      history = layoutHistory directory complete torn tail ∧ repaired = mend directory torn := by
  have chain := (inspectBinlogHistory_described accepted).2
  obtain ⟨names, count, segments, active, closed, listed, inspected, mended, checked, rfl, _⟩ :=
    inspectBinlogHistory_ok.mp accepted
  obtain ⟨tail, reads, _, rfl⟩ := inspectBinlog_reads inspected
  have matched := inspectSegments_files listed
  rcases repairSegments_ok.mp mended with ⟨whole, rfl, same⟩ |
    ⟨complete, last, kept, rfl, whole, torn, quiet, fixed, rfl⟩
  · obtain ⟨sound, rfl⟩ := complete_of_checked matched whole checked
    have layout : Layout directory directory.segments.entries none :=
      ⟨names, count, by simp, sound, by simp, ⟨tail, reads⟩⟩
    have shape : directory.segments.entries.map
          (fun segment => inspectedFile (some segment.1) segment.2 []) ++
        [⟨directory.binlog.getD [], none, summary (directory.binlog.getD [])
          (binlogLogs (directory.binlog.getD [])) tail⟩] =
        layoutHistory directory directory.segments.entries none tail := by
      simp only [layoutHistory, mendedFiles, List.append_nil]
      rfl
    rw [shape, layoutHistory_logs layout] at chain
    exact ⟨_, none, tail, layout, chain, reads, shape, same⟩
  · have front := List.forall₂_take_append _ _ _ matched
    have back := List.forall₂_drop_append _ _ _ matched
    have entries := List.take_append_drop complete.length directory.segments.entries
    generalize directory.segments.entries.take complete.length = early at front entries
    generalize directory.segments.entries.drop complete.length = late at back entries
    cases back with
    | @cons segment _ _ _ here nothing =>
        cases nothing
        obtain ⟨sound, rfl⟩ := complete_of_checked front whole
          (fun file member => checked file (List.mem_append_left _ member))
        obtain ⟨rest, part, consecutive, rfl⟩ := here
        obtain ⟨free, files, same⟩ := (repairLast_ok part consecutive).mp fixed
        have unfinished : rest ≠ [] := by
          rintro rfl
          cases torn
        have noRecords : binlogLogs (directory.binlog.getD []) = [] := by
          simpa [summary] using quiet
        have layout : Layout directory early (some segment) := by
          refine ⟨names, count, entries.symm, sound, ?_, ⟨tail, reads⟩⟩
          rintro _ ⟨⟩
          exact ⟨⟨rest, unfinished, part⟩, consecutive, noRecords, free⟩
        have shape : early.map (fun segment => inspectedFile (some segment.1) segment.2 []) ++
              kept.toList ++
            [⟨directory.binlog.getD [], none, summary (directory.binlog.getD [])
              (binlogLogs (directory.binlog.getD [])) tail⟩] =
            layoutHistory directory early (some segment) tail := by
          rw [layoutHistory, files]
          rfl
        rw [shape, layoutHistory_logs layout] at chain
        exact ⟨early, some segment, tail, layout, chain, reads, shape, same⟩

section Outcome

omit [Platform] in
theorem lastOf_append {first second : List LogRecord} (consecutive : Consecutive (first ++ second)) :
    lastOf (first ++ second) = max (lastOf first) (lastOf second) := by
  obtain ⟨_, chain, joint⟩ := consecutive_append.mp consecutive
  cases second with
  | nil => simp [lastOf]
  | cons next others =>
      have whole : lastOf (first ++ next :: others) = lastOf (next :: others) := by
        simp [lastOf, List.getLast?_eq_some_getLast]
      have bound : lastOf first ≤ lastOf (next :: others) := by
        obtain ⟨final, found⟩ : ∃ final, (next :: others).getLast? = some final :=
          ⟨_, List.getLast?_eq_some_getLast (List.cons_ne_nil _ _)⟩
        have start : next.sequence ≤ final.sequence := by
          have listed := chain.sequences
          have member : final.sequence ∈ (next :: others).map LogRecord.sequence :=
            List.mem_map_of_mem (List.mem_of_getLast? found)
          rw [listed, List.mem_range'_1] at member
          exact member.1
        cases ended : first.getLast? with
        | none => simp [lastOf, ended]
        | some last =>
            have follows := joint last ended next rfl
            simp only [lastOf, ended, found, Option.map_some, Option.getD_some]
            omega
      rw [whole]
      omega

theorem foldl_maxSequence (files : List InspectedBinlogFile) (described : ∀ file ∈ files, Described file)
    (consecutive : Consecutive (historyLogs files)) (start : Nat) :
    (files.map (fun file => file.inspection.maxSequence)).foldl max start =
      max start (lastOf (historyLogs files)) := by
  induction files generalizing start with
  | nil => simp [historyLogs, lastOf]
  | cons file files rest =>
      have split : historyLogs (file :: files) = binlogLogs file.contents ++ historyLogs files :=
        List.flatMap_cons
      have here : file.inspection.maxSequence = lastOf (binlogLogs file.contents) :=
        (described file List.mem_cons_self).maxSequence
      rw [split] at consecutive ⊢
      rw [List.map_cons, List.foldl_cons,
        rest (fun file member => described file (List.mem_cons_of_mem _ member))
          (consecutive_append.mp consecutive).2.1, lastOf_append consecutive, here]
      omega

/-- The last sequence that recovery reports. -/
theorem recoveryState_lastSequence {files : List InspectedBinlogFile}
    (described : ∀ file ∈ files, Described file) (consecutive : Consecutive (historyLogs files))
    (watermark replayed : Nat) :
    (recoveryState files watermark replayed).lastSequence =
      max watermark (lastOf (historyLogs files)) := by
  simp only [recoveryState, foldl_maxSequence files described consecutive]
  omega

omit [Platform] in
/-- Only the records above the watermark decide it. -/
theorem max_lastOf_above {logs : List LogRecord} (consecutive : Consecutive logs) (watermark : Nat) :
    max watermark (lastOf logs) = max watermark (lastOf (above watermark logs)) := by
  cases logs with
  | nil => rfl
  | cons log logs =>
      obtain ⟨final, found⟩ : ∃ final, (log :: logs).getLast? = some final :=
        ⟨_, List.getLast?_eq_some_getLast (List.cons_ne_nil _ _)⟩
      obtain ⟨front, cut⟩ : ∃ front, log :: logs = front ++ [final] :=
        List.getLast?_eq_some_iff.mp found
      have last : lastOf (log :: logs) = final.sequence := by simp [lastOf, found]
      by_cases covered : watermark < final.sequence
      · have kept : above watermark (log :: logs) = above watermark front ++ [final] := by
          rw [cut, above_append]
          simp [above, covered]
        have same : lastOf (above watermark (log :: logs)) = final.sequence := by
          simp [kept, lastOf]
        rw [last, same]
      · have none_above : above watermark (log :: logs) = [] := by
          simp only [above, List.filter_eq_nil_iff, decide_eq_true_eq]
          intro other member
          rw [cut] at consecutive member
          rcases List.mem_append.mp member with early | late
          · have order : other.sequence < final.sequence := by
              have increasing : (front ++ [final]).Pairwise
                  (fun first second => first.sequence < second.sequence) := by
                have chain : (front ++ [final]).IsChain
                    (fun first second => first.sequence < second.sequence) :=
                  consecutive.imp (fun _ _ next => by omega)
                exact List.isChain_iff_pairwise.mp chain
              exact (List.pairwise_append.mp increasing).2.2 other early final (by simp)
            omega
          · rw [List.mem_singleton.mp late]
            omega
        rw [last, none_above]
        simp only [lastOf, List.getLast?_nil, Option.map_none, Option.getD_none]
        omega

omit [Platform] in
theorem eraseAll_segments (files : List InspectedBinlogFile) (directory : Directory) :
    files.foldl (fun directory file =>
        { directory with segments := directory.segments.erase (file.declaredEndSequence.getD 0) })
        directory =
      { directory with segments := directory.segments.filter (fun endSequence =>
          files.all (fun file => endSequence != file.declaredEndSequence.getD 0)) } := by
  induction files generalizing directory with
  | nil =>
      have same : directory.segments.filter (fun _ => true) = directory.segments := by
        ext1
        exact List.filter_eq_self.mpr (by simp)
      simp [same]
  | cons file files rest =>
      rw [List.foldl_cons, rest]
      simp only [Catalog.erase, Catalog.filter_filter, List.all_cons]

/-- The name of a file that passed the checks is the sequence of its last record. -/
theorem layoutHistory_names {directory : Directory} {complete : List (Nat × Bytes)}
    {torn : Option (Nat × Bytes)} (layout : Layout directory complete torn) (tail : Bytes) :
    ∀ file ∈ layoutHistory directory complete torn tail, file.declaredEndSequence.isSome →
      file.declaredEndSequence = some file.inspection.maxSequence := by
  intro file member named
  rcases List.mem_append.mp member with early | late
  · rcases List.mem_append.mp early with first | second
    · obtain ⟨segment, present, rfl⟩ := List.mem_map.mp first
      exact congrArg some (layout.complete segment present).ends.symm
    · cases torn with
      | none => cases second
      | some segment =>
          obtain ⟨⟨rest, _, part⟩, chain, _, _⟩ := layout.torn segment rfl
          simp only [mendedFiles] at second
          split at second
          · cases second
          · rw [List.mem_singleton.mp second]
            simp only [inspectedFile, summary, (validPart_logs part chain).1.logs, lastOf]
  · rw [List.mem_singleton.mp late] at named
    cases named

/-- Every segment that is left after the repair is a file of the history. -/
theorem mend_names {directory : Directory} {complete : List (Nat × Bytes)}
    {torn : Option (Nat × Bytes)} (layout : Layout directory complete torn) (tail : Bytes) :
    ∀ segment ∈ (mend directory torn).segments.entries,
      ∃ file ∈ layoutHistory directory complete torn tail,
        file.declaredEndSequence = some segment.1 := by
  intro segment member
  have ofComplete : segment ∈ complete → ∃ file ∈ layoutHistory directory complete torn tail,
      file.declaredEndSequence = some segment.1 := by
    intro present
    refine ⟨inspectedFile (some segment.1) segment.2 [], ?_, rfl⟩
    exact List.mem_append_left _ (List.mem_append_left _ (List.mem_map.mpr ⟨segment, present, rfl⟩))
  cases torn with
  | none =>
      apply ofComplete
      simpa [mend, layout.entries] using member
  | some cut =>
      have fromErased : segment ∈ (directory.segments.erase cut.1).entries → segment ∈ complete := by
        intro kept
        obtain ⟨present, differ⟩ := List.mem_filter.mp kept
        rw [layout.entries] at present
        rcases List.mem_append.mp present with early | late
        · exact early
        · simp only [Option.toList_some, List.mem_singleton] at late
          rw [late] at differ
          simp at differ
      simp only [mend] at member
      split at member
      · exact ofComplete (fromErased member)
      next recorded =>
        simp only [Catalog.insert, List.mem_append, List.mem_cons] at member
        rcases member with below | here | beyond
        · exact ofComplete (fromErased (List.mem_filter.mp below).1)
        · subst here
          refine ⟨inspectedFile (some (lastOf (binlogLogs cut.2))) (validPart cut.2) [], ?_, rfl⟩
          refine List.mem_append_left _ (List.mem_append_right _ ?_)
          simp [mendedFiles, recorded]
        · exact ofComplete (fromErased (List.mem_filter.mp beyond).1)

theorem activeInspection_layoutHistory (directory : Directory) (complete : List (Nat × Bytes))
    (torn : Option (Nat × Bytes)) (tail : Bytes) :
    activeInspection (layoutHistory directory complete torn tail) =
      summary (directory.binlog.getD []) (binlogLogs (directory.binlog.getD [])) tail := by
  have named : ∀ file ∈ complete.map (fun segment => inspectedFile (some segment.1) segment.2 []) ++
      mendedFiles torn, ¬ file.declaredEndSequence.isNone = true := by
    intro file member
    rcases List.mem_append.mp member with first | second
    · obtain ⟨segment, _, rfl⟩ := List.mem_map.mp first
      simp [inspectedFile]
    · cases torn with
      | none => cases second
      | some segment =>
          simp only [mendedFiles] at second
          split at second
          · cases second
          · rw [List.mem_singleton.mp second]
            simp [inspectedFile]
  have skipped : (complete.map (fun segment => inspectedFile (some segment.1) segment.2 []) ++
      mendedFiles torn).find? (fun file => file.declaredEndSequence.isNone) = none :=
    List.find?_eq_none.mpr named
  rw [activeInspection, layoutHistory, List.find?_append, skipped]
  rfl

/-- The directory that recovery leaves: the segments above the watermark, and the active binlog
without its incomplete tail. -/
theorem recovered_directory {directory : Directory} {complete : List (Nat × Bytes)}
    {torn : Option (Nat × Bytes)} (layout : Layout directory complete torn) {tail : Bytes}
    (reads : Reads (directory.binlog.getD []) (binlogLogs (directory.binlog.getD [])) tail)
    (consecutive : Consecutive (binlogLogs (directory.binlog.getD [])))
    (store staging : ShardedStore) (watermark : Nat) :
    (recovered store (mend directory torn) (layoutHistory directory complete torn tail) watermark
        staging).directory =
      { mend directory torn with
        binlog := directory.binlog.map validPart
        binlogTemp := none
        binlogBackup := none
        segments := (mend directory torn).segments.filter
          (fun endSequence => decide (watermark < endSequence)) } := by
  have active := activeInspection_layoutHistory directory complete torn tail
  have truncated : truncateActive (mend directory torn)
      (summary (directory.binlog.getD []) (binlogLogs (directory.binlog.getD [])) tail) =
      { mend directory torn with binlog := directory.binlog.map validPart } := by
    have same := mend_binlog directory torn
    have valid := (validPart_logs reads consecutive).2
    unfold truncateActive
    cases file : directory.binlog with
    | none =>
        have absent : (mend directory torn).binlog = none := same.trans file
        split
        · rw [absent]
          rfl
        · rw [Option.map_none, ← absent]
    | some contents =>
        rw [file, Option.getD_some] at valid
        rw [same, file]
        simp only [summary, Option.getD_some, Option.map_some]
        cases tail with
        | nil =>
            have whole : validPart contents = contents := by simp [valid]
            rw [whole, ← file, ← same]
            simp
        | cons byte tail => simp [valid]
  simp only [recovered, active, truncated, cleanupRedundantBinlogRotationFiles,
    cleanupSnapshotCoveredSegments]
  rw [eraseAll_segments]
  simp only [Directory.mk.injEq, true_and, and_true]
  apply Catalog.filter_congr
  intro segment member
  obtain ⟨file, present, named⟩ := mend_names layout tail segment member
  have ends := layoutHistory_names layout tail
  rw [Bool.eq_iff_iff, List.all_eq_true, decide_eq_true_eq]
  constructor
  · intro spared
    by_contra covered
    have name := ends file present (by rw [named]; rfl)
    rw [named] at name
    have value : segment.1 = file.inspection.maxSequence := Option.some.inj name
    have caught := spared file (List.mem_filter.mpr ⟨present, by simp [named]; omega⟩)
    simp [named] at caught
  · intro higher other erased
    obtain ⟨present', flags⟩ := List.mem_filter.mp erased
    simp only [Bool.and_eq_true, decide_eq_true_eq] at flags
    have name := ends other present' flags.1
    simp only [name, Option.getD_some, bne_iff_ne, ne_eq]
    omega

end Outcome

end OnyxDB.Persistence.Recovery
