import OnyxDB.Persistence.CodecRoundTrip
import OnyxDB.Persistence.WrittenFiles

/-! The directory under the appends and seals of a running server, when every storage call succeeds.
`Usable` is what they keep: the files hold one run of consecutive records that begins no later than the
snapshot ends and reaches the sequence the server has accepted. -/

namespace OnyxDB.Persistence.Writing
open OnyxDB.Library OnyxDB.Library.BigEndian OnyxDB.Engine OnyxDB.Engine.Value OnyxDB.Store
  OnyxDB.Persistence OnyxDB.Persistence.Codec OnyxDB.Persistence.Commit OnyxDB.Persistence.Model
  OnyxDB.Persistence.Record OnyxDB.Persistence.Recovery OnyxDB.Persistence.Snapshot

/-- The active binlog after a record has been appended. -/
def appendRecord [Platform] (directory : Directory) (sequence : Nat) (payload : Bytes) : Directory :=
  { directory with binlog := some (directory.binlog.getD [] ++ framedRecord sequence payload) }

/-- A batch with the payload that `append_batch` encodes for it. -/
structure EncodedBatch [Platform] where
  batch : CommittedBatch
  payload : Bytes
  encoded : encodeCommittedBatch batch = .ok payload
  fits : 20 + payload.length ≤ maxBinlogRecordSize

theorem deletePayload_encoded [Platform] : encodeCommittedBatch ⟨[.delete [107]]⟩ = .ok deletePayload := rfl

theorem deletePayload_fits : 20 + deletePayload.length ≤ maxBinlogRecordSize := by decide

/-- `ManagedBinlogFile::seal_active`. -/
def sealActive (directory : Directory) (endSequence : Nat) : Except String Directory :=
  let active := directory.binlog.getD []
  if active.isEmpty then .ok directory
  else if endSequence = 0 then .error "A non-empty binlog cannot be sealed at sequence zero"
  else if directory.segments.contains endSequence then
    .error s!"Binlog segment already exists: {binlogSegment endSequence}"
  else .ok { directory with
    binlog := some []
    segments := directory.segments.insert endSequence active }

/-- Splitting an ordered catalog at a key. -/
theorem filter_le_append_filter_gt {entries : List (Nat × Bytes)}
    (ordered : entries.Pairwise (fun first second => first.1 < second.1)) (key : Nat) :
    entries = entries.filter (fun entry => decide (entry.1 ≤ key)) ++
      entries.filter (fun entry => decide (key < entry.1)) := by
  induction entries with
  | nil => rfl
  | cons entry entries rest =>
      obtain ⟨first, later⟩ := List.pairwise_cons.mp ordered
      by_cases low : entry.1 ≤ key
      · have high : ¬ key < entry.1 := by omega
        rw [List.filter_cons_of_pos (by simpa using low), List.filter_cons_of_neg (by simpa using high),
          List.cons_append, ← rest later]
      · have none_low : entries.filter (fun entry => decide (entry.1 ≤ key)) = [] := by
          rw [List.filter_eq_nil_iff]
          intro other member
          have order := first other member
          simp only [decide_eq_true_eq]
          omega
        have all_high : entries.filter (fun entry => decide (key < entry.1)) = entries := by
          rw [List.filter_eq_self]
          intro other member
          have order := first other member
          simp only [decide_eq_true_eq]
          omega
        have high : key < entry.1 := by omega
        rw [List.filter_cons_of_neg (by simpa using low), List.filter_cons_of_pos (by simpa using high),
          none_low, all_high, List.nil_append]

theorem lastOf_append_singleton (logs : List LogRecord) (log : LogRecord) :
    lastOf (logs ++ [log]) = log.sequence := by
  simp [lastOf]

theorem lastOf_nil : lastOf [] = 0 := rfl

theorem lastOf_singleton (log : LogRecord) : lastOf [log] = log.sequence := rfl

theorem lastOf_cons {log : LogRecord} {logs : List LogRecord} (nonempty : logs ≠ []) :
    lastOf (log :: logs) = lastOf logs := by
  simp [lastOf, List.getLast?_cons, List.getLast?_eq_some_getLast nonempty]

theorem lastOf_mem {logs : List LogRecord} (nonempty : logs ≠ []) :
    ∃ log ∈ logs, log.sequence = lastOf logs := by
  refine ⟨logs.getLast nonempty, List.getLast_mem nonempty, ?_⟩
  simp [lastOf, List.getLast?_eq_some_getLast nonempty]

theorem lt_of_consecutive_append {first second : List LogRecord}
    (consecutive : Consecutive (first ++ second)) :
    ∀ early ∈ first, ∀ late ∈ second, early.sequence < late.sequence := by
  have increasing : (first ++ second).Pairwise (fun early late => early.sequence < late.sequence) := by
    have chain : (first ++ second).IsChain (fun early late => early.sequence < late.sequence) :=
      consecutive.imp (fun _ _ next => by omega)
    exact List.isChain_iff_pairwise.mp chain
  intro early before late after
  exact (List.pairwise_append.mp increasing).2.2 early before late after

theorem sequence_le_lastOf {logs : List LogRecord} (consecutive : Consecutive logs) {log : LogRecord}
    (member : log ∈ logs) : log.sequence ≤ lastOf logs := by
  obtain ⟨before, after, cut⟩ := List.append_of_mem member
  rw [cut, ← List.singleton_append, ← List.append_assoc] at consecutive ⊢
  rw [lastOf_append consecutive, lastOf_append_singleton]
  omega

section Torn
variable [Platform]

/-- A record that was cut short is left unread, and nothing after it is looked for. -/
theorem nextBinlogRecord_torn {sequence : Nat} {payload part rest : Bytes}
    (encodable : Encodable sequence payload) (split : framedRecord sequence payload = part ++ rest)
    (unfinished : rest ≠ []) : nextBinlogRecord part = .ok none := by
  obtain ⟨checksum, _, shape⟩ := versionedRecord_eq sequence payload
  have length := versionedRecord_length sequence payload
  have fits : 20 + payload.length < 2 ^ 32 :=
    lt_of_le_of_lt encodable.bounded maxBinlogRecordSize_lt
  by_cases short : part.length < 4
  · rw [nextBinlogRecord, if_pos short]
  · obtain ⟨available, rfl, body⟩ : ∃ available, part = writeU32Be (20 + payload.length) ++ available ∧
        versionedRecord sequence payload = available ++ rest := by
      rw [framedRecord_eq] at split
      rcases List.append_eq_append_iff.mp split with ⟨front, same, whole⟩ | ⟨front, same, whole⟩
      · exact ⟨front, same, whole⟩
      · have none_left : front = [] := by
          have total := congrArg List.length same
          rw [List.length_append, writeU32Be_length] at total
          exact List.length_eq_zero_iff.mp (by omega)
        subst none_left
        rw [List.append_nil] at same
        exact ⟨[], by rw [same, List.append_nil], by simpa using whole.symm⟩
    have width : (writeU32Be (20 + payload.length)).length = 4 := writeU32Be_length _
    have visible : available.take 8 <+: versionedRecord sequence payload := by
      rw [body]
      exact (List.take_prefix 8 available).trans (List.prefix_append _ _)
    have magic : binlogRecordMagic <+: versionedRecord sequence payload := by
      rw [shape]
      exact List.prefix_append _ _
    have notLegacy : checksumlessBinlogRecordMagic.isPrefixOf (available.take 8) = false := by
      rw [Bool.eq_false_iff, ne_eq, List.isPrefixOf_iff_prefix]
      intro legacy
      have clash := List.prefix_of_prefix_length_le (legacy.trans visible) magic (by decide)
      exact absurd (clash.eq_of_length (by decide)) (by decide)
    have marked (enough : binlogRecordMagic.length ≤ (available.take 8).length) :
        binlogRecordMagic.isPrefixOf (available.take 8) = true := by
      rw [List.isPrefixOf_iff_prefix]
      exact List.prefix_of_prefix_length_le magic visible enough
    have missing : available.length < 20 + payload.length := by
      have total := congrArg List.length body
      have positive := List.length_pos_iff.mpr unfinished
      rw [length, List.length_append] at total
      omega
    have recordLen : ofBigEndian ((writeU32Be (20 + payload.length) ++ available).take 4) =
        20 + payload.length := by
      rw [List.take_left' width]
      exact ofBigEndian_writeU32Be fits
    have probe : min (20 + payload.length) (binlogRecordMagic.length + binlogRecordLengthSize) = 8 := by
      have eight : binlogRecordMagic.length + binlogRecordLengthSize = 8 := rfl
      omega
    have valid : ¬ (20 + payload.length = 0 ∨ 20 + payload.length > maxBinlogRecordSize) := by
      have bound := encodable.bounded
      omega
    rw [nextBinlogRecord, if_neg short]
    simp only [recordLen, List.drop_left' width, if_neg valid, probe]
    by_cases header : (available.take 8).length < 8
    · rw [if_pos header, if_neg (by rw [notLegacy]; simp), if_neg]
      rintro ⟨enough, unmarked⟩
      exact unmarked (marked enough)
    · have full : (available.take 8).length = 8 := by
        have bound := List.length_take_le 8 available
        omega
      have embedded : ofBigEndian ((available.take 8).drop binlogRecordMagic.length) =
          20 + payload.length := by
        have same : available.take 8 = binlogRecordMagic ++ writeU32Be (20 + payload.length) := by
          have front : binlogRecordMagic ++ writeU32Be (20 + payload.length) <+:
              versionedRecord sequence payload := by
            rw [shape, ← List.append_assoc]
            exact List.prefix_append _ _
          have order := List.prefix_of_prefix_length_le visible front (by rw [full]; simp; decide)
          exact order.eq_of_length (by rw [full]; simp; decide)
        rw [same, List.drop_left]
        exact ofBigEndian_writeU32Be fits
      rw [if_neg header, if_neg (by rintro ⟨_, _, mismatch⟩; exact mismatch embedded), if_pos missing,
        if_neg (by rw [notLegacy]; simp), if_neg]
      intro unmarked
      exact unmarked (marked (by rw [full]; decide))

end Torn

section Usable
variable [Platform]

/-- A directory of complete segments and an active binlog that ends in the incomplete record `tail`.
Their records are consecutive and begin no later than a snapshot of the given watermark ends. -/
structure Sound (directory : Directory) (watermark : Nat) (tail : Bytes) : Prop where
  names : directory.malformedSegments = []
  count : directory.segments.entries.length ≤ maxBinlogSegments
  segments : ∀ segment ∈ directory.segments.entries, Complete segment
  active : Reads (directory.binlog.getD []) (binlogLogs (directory.binlog.getD [])) tail
  consecutive : Consecutive (directoryLogs directory)
  begins : ∀ log ∈ (directoryLogs directory).head?, log.sequence ≤ watermark + 1

/-- A sound directory that reaches the sequence `last`, so that a record `last + 1` may follow. -/
structure Usable (directory : Directory) (watermark last : Nat) (tail : Bytes) : Prop
    extends Sound directory watermark tail where
  reaches : last = max watermark (lastOf (directoryLogs directory))
  joined : directoryLogs directory ≠ [] → lastOf (directoryLogs directory) = last

theorem Sound.layout {directory : Directory} {watermark : Nat} {tail : Bytes}
    (sound : Sound directory watermark tail) : Layout directory directory.segments.entries none :=
  ⟨sound.names, sound.count, by simp, sound.segments, by simp, ⟨tail, sound.active⟩⟩

/-- What the history check makes of a sound directory. -/
theorem Sound.inspected {directory : Directory} {watermark : Nat} {tail : Bytes}
    (sound : Sound directory watermark tail) :
    inspectBinlogHistory directory =
      .ok (layoutHistory directory directory.segments.entries none tail, directory) :=
  inspectBinlogHistory_of_layout sound.layout sound.consecutive sound.active

/-- The records of a usable directory are numbered from one up to the sequence it reaches. -/
theorem Usable.numbered {directory : Directory} {watermark last : Nat} {tail : Bytes}
    (usable : Usable directory watermark last tail) :
    ∀ log ∈ directoryLogs directory, 0 < log.sequence ∧ log.sequence ≤ last := by
  intro log member
  have order := sequence_le_lastOf usable.consecutive member
  rw [usable.joined (List.ne_nil_of_mem member)] at order
  refine ⟨?_, order⟩
  rcases List.mem_append.mp member with early | late
  · obtain ⟨segment, present, inside⟩ := List.mem_flatMap.mp early
    exact ((usable.segments segment present).reads.sequence log inside).1
  · exact (usable.active.sequence log late).1

theorem Usable.covered {directory : Directory} {watermark last : Nat} {tail : Bytes}
    (usable : Usable directory watermark last tail) : watermark ≤ last := by
  have reaches := usable.reaches
  omega

theorem directoryLogs_empty : directoryLogs {} = [] := Reads.nil.logs

theorem usable_empty : Usable {} 0 0 [] := by
  have logs := directoryLogs_empty
  refine ⟨⟨rfl, Nat.zero_le _, by simp [Catalog.empty], ?_, ?_, ?_⟩, ?_, ?_⟩
  · rw [show binlogLogs ((none : Option Bytes).getD []) = [] from Reads.nil.logs]
    exact Reads.nil
  · rw [logs]
    exact List.isChain_nil
  · simp [logs]
  · rw [logs]
    rfl
  · exact fun nonempty => absurd logs nonempty

/-- The segments and the bytes of the active binlog are all that counts. -/
theorem usable_of_same {directory other : Directory} {watermark last : Nat} {tail : Bytes}
    (usable : Usable directory watermark last tail)
    (names : other.malformedSegments = directory.malformedSegments)
    (segments : other.segments = directory.segments)
    (active : other.binlog.getD [] = directory.binlog.getD []) :
    Usable other watermark last tail ∧ directoryLogs other = directoryLogs directory := by
  have logs : directoryLogs other = directoryLogs directory := by
    simp only [directoryLogs, segments, active]
  refine ⟨⟨⟨?_, ?_, ?_, ?_, ?_, ?_⟩, ?_, ?_⟩, logs⟩
  · rw [names]
    exact usable.names
  · rw [segments]
    exact usable.count
  · rw [segments]
    exact usable.segments
  · rw [active]
    exact usable.active
  · rw [logs]
    exact usable.consecutive
  · rw [logs]
    exact usable.begins
  · rw [logs]
    exact usable.reaches
  · rw [logs]
    exact usable.joined

/-- Appending a record that can be read back. -/
theorem Usable.appendRecord {directory : Directory} {watermark last : Nat} {payload : Bytes}
    {batch : CommittedBatch} (usable : Usable directory watermark last [])
    (fits : 20 + payload.length ≤ maxBinlogRecordSize) (bounded : last + 1 < 2 ^ 64)
    (decodes : decodeCommittedBatch payload = .ok batch) :
    Usable (appendRecord directory (last + 1) payload) watermark (last + 1) [] ∧
      directoryLogs (Writing.appendRecord directory (last + 1) payload) =
        directoryLogs directory ++ [⟨last + 1, batch, .checksummed⟩] := by
  have encodable : Encodable (last + 1) payload := ⟨Nat.succ_ne_zero last, fits⟩
  have record := Reads.framed encodable bounded decodes Reads.nil
  rw [List.append_nil] at record
  have longer := usable.active.append record
  have logs : directoryLogs (Writing.appendRecord directory (last + 1) payload) =
      directoryLogs directory ++ [⟨last + 1, batch, .checksummed⟩] := by
    simp only [directoryLogs, Writing.appendRecord, Option.getD_some, longer.logs, List.append_assoc]
  refine ⟨⟨⟨usable.names, usable.count, usable.segments, ?_, ?_, ?_⟩, ?_, ?_⟩, logs⟩
  · simp only [Writing.appendRecord, Option.getD_some, longer.logs]
    exact longer
  · rw [logs, consecutive_append]
    refine ⟨usable.consecutive, List.isChain_singleton _, ?_⟩
    intro final found next first
    have nonempty : directoryLogs directory ≠ [] := by
      intro empty
      rw [empty] at found
      cases found
    have ends := usable.joined nonempty
    simp only [List.head?_cons, Option.mem_def, Option.some.injEq] at first
    simp only [lastOf, Option.mem_def.mp found, Option.map_some, Option.getD_some] at ends
    rw [← first, ends]
  · rw [logs]
    intro log first
    cases old : directoryLogs directory with
    | nil =>
        have same := usable.reaches
        rw [old] at same first
        simp only [List.nil_append, List.head?_cons, Option.mem_def, Option.some.injEq] at first
        simp only [lastOf, List.getLast?_nil, Option.map_none, Option.getD_none] at same
        rw [← first]
        show last + 1 ≤ watermark + 1
        omega
    | cons head others =>
        apply usable.begins
        rw [old] at first ⊢
        exact first
  · rw [logs, lastOf_append_singleton]
    have covered := usable.covered
    show last + 1 = max watermark (last + 1)
    omega
  · intro _
    rw [logs, lastOf_append_singleton]

/-- A file without an incomplete tail is empty exactly when it has no record. -/
theorem eq_nil_of_reads {bytes : Bytes} {logs : List LogRecord} (reads : Reads bytes logs [])
    (empty : logs = []) : bytes = [] := by
  subst empty
  cases reads
  rfl

/-- Sealing the active binlog under the sequence it reaches. -/
theorem Usable.sealActive {directory : Directory} {watermark last : Nat}
    (usable : Usable directory watermark last []) (recorded : directory.binlog.getD [] ≠ [])
    (room : directory.segments.entries.length < maxBinlogSegments) :
    Writing.sealActive directory last = .ok { directory with
        binlog := some []
        segments := directory.segments.insert last (directory.binlog.getD []) } ∧
      Usable { directory with
        binlog := some []
        segments := directory.segments.insert last (directory.binlog.getD []) } watermark last [] ∧
      directoryLogs { directory with
        binlog := some []
        segments := directory.segments.insert last (directory.binlog.getD []) } =
          directoryLogs directory := by
  have records : binlogLogs (directory.binlog.getD []) ≠ [] :=
    fun empty => recorded (eq_nil_of_reads usable.active empty)
  have nonempty : directoryLogs directory ≠ [] := by
    simp [directoryLogs, records]
  have activeChain := (consecutive_append.mp usable.consecutive).2.1
  have ends : lastOf (binlogLogs (directory.binlog.getD [])) = last := by
    have whole := usable.joined nonempty
    obtain ⟨final, member, value⟩ := lastOf_mem records
    rw [directoryLogs, lastOf_append usable.consecutive] at whole
    by_contra differ
    have larger : lastOf (directory.segments.entries.flatMap (fun segment => binlogLogs segment.2)) =
        last := by omega
    have sealedRecords : directory.segments.entries.flatMap (fun segment => binlogLogs segment.2) ≠ [] := by
      intro empty
      rw [empty, lastOf_nil] at larger
      omega
    obtain ⟨early, before, first⟩ := lastOf_mem sealedRecords
    have order := lt_of_consecutive_append usable.consecutive early before final member
    omega
  obtain ⟨final, member, value⟩ := lastOf_mem records
  have lower : ∀ segment ∈ directory.segments.entries, segment.1 < last := by
    intro segment present
    have sound := usable.segments segment present
    obtain ⟨early, before, first⟩ := lastOf_mem sound.nonempty
    have order := lt_of_consecutive_append usable.consecutive early
      (List.mem_flatMap.mpr ⟨segment, present, before⟩) final member
    have name := sound.ends
    omega
  have entries := Catalog.insert_entries_of_lt directory.segments last (directory.binlog.getD []) lower
  have positive : last ≠ 0 := by
    have bounds := usable.active.sequence final member
    omega
  have absent : directory.segments.contains last = false := by
    rw [Catalog.contains, List.any_eq_false]
    intro segment present
    have order := lower segment present
    simp only [beq_iff_eq]
    omega
  have logs : directoryLogs { directory with
      binlog := some []
      segments := directory.segments.insert last (directory.binlog.getD []) } =
        directoryLogs directory := by
    simp only [directoryLogs, entries, List.flatMap_append, List.flatMap_cons, List.flatMap_nil,
      List.append_nil, Option.getD_some, Reads.nil.logs]
  refine ⟨?_, ⟨⟨usable.names, ?_, ?_, ?_, ?_, ?_⟩, ?_, ?_⟩, logs⟩
  · have held : (directory.binlog.getD []).isEmpty = false := by simpa using recorded
    simp only [Writing.sealActive, held, Bool.false_eq_true, if_false, positive, absent]
  · simp only [entries, List.length_append, List.length_singleton]
    omega
  · intro segment present
    rw [entries] at present
    rcases List.mem_append.mp present with old | new
    · exact usable.segments segment old
    · rw [List.mem_singleton.mp new]
      exact ⟨usable.active, activeChain, records, ends⟩
  · simp only [Option.getD_some, Reads.nil.logs]
    exact Reads.nil
  · rw [logs]
    exact usable.consecutive
  · rw [logs]
    exact usable.begins
  · rw [logs]
    exact usable.reaches
  · rw [logs]
    exact usable.joined

/-- The directory with its active binlog cut back to its complete records. -/
theorem Sound.truncate {directory : Directory} {watermark : Nat} {tail : Bytes}
    (sound : Sound directory watermark tail) :
    Sound { directory with binlog := directory.binlog.map validPart } watermark [] ∧
      directoryLogs { directory with binlog := directory.binlog.map validPart } =
        directoryLogs directory := by
  have activeChain := (consecutive_append.mp sound.consecutive).2.1
  have valid := (validPart_logs sound.active activeChain).1
  have reads : Reads ((directory.binlog.map validPart).getD [])
      (binlogLogs (directory.binlog.getD [])) [] := by
    cases file : directory.binlog with
    | none =>
        simp only [Option.map_none, Option.getD_none, Reads.nil.logs]
        exact Reads.nil
    | some contents =>
        rw [file] at valid
        exact valid
  have logs : directoryLogs { directory with binlog := directory.binlog.map validPart } =
      directoryLogs directory := by
    simp only [directoryLogs, reads.logs]
  refine ⟨⟨sound.names, sound.count, sound.segments, ?_, ?_, ?_⟩, logs⟩
  · simp only [reads.logs]
    exact reads
  · rw [logs]
    exact sound.consecutive
  · rw [logs]
    exact sound.begins

/-- Removing the oldest segments as far as the snapshot covers them. -/
theorem Sound.remove {directory : Directory} {watermark : Nat} {tail : Bytes}
    (sound : Sound directory watermark tail) {removed : List (Nat × Bytes)} {segments : Catalog Bytes}
    (split : directory.segments.entries = removed ++ segments.entries)
    (covered : ∀ segment ∈ removed, segment.1 ≤ watermark) :
    Sound { directory with segments } watermark tail ∧
      directoryLogs directory = removed.flatMap (fun segment => binlogLogs segment.2) ++
        directoryLogs { directory with segments } ∧
      lastOf (removed.flatMap (fun segment => binlogLogs segment.2)) ≤ watermark := by
  have logs : directoryLogs directory = removed.flatMap (fun segment => binlogLogs segment.2) ++
      directoryLogs { directory with segments } := by
    simp only [directoryLogs, split, List.flatMap_append, List.append_assoc]
  have chain := sound.consecutive
  rw [logs] at chain
  have low : ∀ log ∈ removed.flatMap (fun segment => binlogLogs segment.2), log.sequence ≤ watermark := by
    intro log member
    obtain ⟨segment, present, inside⟩ := List.mem_flatMap.mp member
    have complete := sound.segments segment (by rw [split]; exact List.mem_append_left _ present)
    have below := covered segment present
    have ends := complete.ends
    have order := sequence_le_lastOf complete.consecutive inside
    omega
  refine ⟨⟨sound.names, ?_, ?_, sound.active, (consecutive_append.mp chain).2.1, ?_⟩, logs, ?_⟩
  · have count := sound.count
    rw [split, List.length_append] at count
    show segments.entries.length ≤ maxBinlogSegments
    omega
  · intro segment present
    exact sound.segments segment (by rw [split]; exact List.mem_append_right _ present)
  · intro log first
    by_cases nothing : removed.flatMap (fun segment => binlogLogs segment.2) = []
    · apply sound.begins
      rw [logs, nothing, List.nil_append]
      exact first
    · have final := List.getLast?_eq_some_getLast nothing
      have next := (consecutive_append.mp chain).2.2 _ final log first
      have below := low _ (List.getLast_mem nothing)
      omega
  · by_cases nothing : removed.flatMap (fun segment => binlogLogs segment.2) = []
    · rw [nothing, lastOf_nil]
      omega
    · obtain ⟨log, member, value⟩ := lastOf_mem nothing
      have below := low log member
      omega

/-- Emptying the active binlog. -/
theorem Sound.emptyActive {directory : Directory} {watermark : Nat}
    (sound : Sound directory watermark []) : Sound { directory with binlog := some [] } watermark [] := by
  have logs : directoryLogs { directory with binlog := some [] } =
      directory.segments.entries.flatMap (fun segment => binlogLogs segment.2) := by
    simp only [directoryLogs, Option.getD_some, Reads.nil.logs, List.append_nil]
  refine ⟨sound.names, sound.count, sound.segments, ?_, ?_, ?_⟩
  · rw [Option.getD_some, Reads.nil.logs]
    exact Reads.nil
  · rw [logs]
    exact (consecutive_append.mp sound.consecutive).1
  · intro log first
    rw [logs] at first
    apply sound.begins
    rw [directoryLogs, List.head?_append, first, Option.some_or]
    rfl

theorem Usable.truncate {directory : Directory} {watermark last : Nat} {tail : Bytes}
    (usable : Usable directory watermark last tail) :
    Usable { directory with binlog := directory.binlog.map validPart } watermark last [] := by
  obtain ⟨sound, logs⟩ := usable.toSound.truncate
  refine ⟨sound, ?_, ?_⟩
  · rw [logs]
    exact usable.reaches
  · rw [logs]
    exact usable.joined

theorem Usable.remove {directory : Directory} {watermark last : Nat} {tail : Bytes}
    (usable : Usable directory watermark last tail) {removed : List (Nat × Bytes)}
    {segments : Catalog Bytes} (split : directory.segments.entries = removed ++ segments.entries)
    (covered : ∀ segment ∈ removed, segment.1 ≤ watermark) :
    Usable { directory with segments } watermark last tail := by
  obtain ⟨sound, logs, low⟩ := usable.toSound.remove split covered
  have chain := usable.consecutive
  rw [logs] at chain
  have whole := lastOf_append chain
  rw [← logs] at whole
  have reaches := usable.reaches
  refine ⟨sound, ?_, ?_⟩
  · omega
  · intro nonempty
    have every : directoryLogs directory ≠ [] := by
      rw [logs]
      simp [nonempty]
    have ends := usable.joined every
    obtain ⟨late, member, value⟩ := lastOf_mem nonempty
    by_contra differ
    by_cases nothing : removed.flatMap (fun segment => binlogLogs segment.2) = []
    · rw [nothing, lastOf_nil] at whole
      omega
    · obtain ⟨early, before, first⟩ := lastOf_mem nothing
      have order := lt_of_consecutive_append chain early before late member
      omega

/-- A later snapshot of the same history. -/
theorem Usable.raise {directory : Directory} {watermark higher last : Nat} {tail : Bytes}
    (usable : Usable directory watermark last tail) (order : watermark ≤ higher)
    (bounded : higher ≤ last) : Usable directory higher last tail := by
  have reaches := usable.reaches
  refine ⟨⟨usable.names, usable.count, usable.segments, usable.active, usable.consecutive, ?_⟩, ?_,
    usable.joined⟩
  · intro log first
    have begins := usable.begins log first
    omega
  · by_cases empty : directoryLogs directory = []
    · rw [empty, lastOf_nil] at reaches ⊢
      omega
    · have ends := usable.joined empty
      omega

/-- The repair of an incomplete segment leaves a sound directory with the same records. -/
theorem mend_sound {directory : Directory} {complete : List (Nat × Bytes)} {torn : Option (Nat × Bytes)}
    (layout : Layout directory complete torn) (consecutive : Consecutive (directoryLogs directory))
    {tail : Bytes}
    (reads : Reads (directory.binlog.getD []) (binlogLogs (directory.binlog.getD [])) tail)
    {watermark : Nat}
    (begins : ∀ log ∈ (directoryLogs directory).head?, log.sequence ≤ watermark + 1) :
    Sound (mend directory torn) watermark tail ∧
      directoryLogs (mend directory torn) = directoryLogs directory := by
  cases torn with
  | none =>
      refine ⟨⟨layout.names, layout.count, ?_, reads, consecutive, begins⟩, rfl⟩
      intro segment present
      have member : segment ∈ complete := by
        simpa [mend, layout.entries] using present
      exact layout.complete segment member
  | some segment =>
      obtain ⟨endSequence, contents⟩ := segment
      obtain ⟨⟨rest, _, part⟩, chain, _, _⟩ := layout.torn _ rfl
      have valid := (validPart_logs part chain).1
      have order := directory.segments.ordered
      have all := layout.entries
      rw [Option.toList_some] at all
      rw [all, List.pairwise_append] at order
      have erased : (directory.segments.erase endSequence).entries = complete := by
        have others : complete.filter (fun entry => entry.1 != endSequence) = complete := by
          rw [List.filter_eq_self]
          intro segment present
          have less := order.2.2 segment present (endSequence, contents) (by simp)
          simp only [bne_iff_ne, ne_eq]
          omega
        simp [Catalog.erase, Catalog.filter, all, List.filter_append, others]
      have logs : directoryLogs directory = complete.flatMap (fun segment => binlogLogs segment.2) ++
          (binlogLogs contents ++ binlogLogs (directory.binlog.getD [])) := by
        simp only [directoryLogs, all, List.flatMap_append, List.flatMap_cons, List.flatMap_nil,
          List.append_nil, List.append_assoc]
      have count := layout.count
      rw [all, List.length_append, List.length_singleton] at count
      by_cases empty : binlogLogs contents = []
      · have mended : mend directory (some (endSequence, contents)) =
            { directory with segments := directory.segments.erase endSequence } := by
          simp only [mend, empty, if_true]
        have same : directoryLogs { directory with segments := directory.segments.erase endSequence } =
            directoryLogs directory := by
          rw [logs, empty, List.nil_append]
          simp only [directoryLogs, erased]
        rw [mended]
        refine ⟨⟨layout.names, ?_, ?_, reads, ?_, ?_⟩, same⟩
        · show (directory.segments.erase endSequence).entries.length ≤ maxBinlogSegments
          rw [erased]
          omega
        · intro segment present
          exact layout.complete segment (by rw [← erased]; exact present)
        · rw [same]
          exact consecutive
        · rw [same]
          exact begins
      · have lower : ∀ segment ∈ (directory.segments.erase endSequence).entries,
            segment.1 < lastOf (binlogLogs contents) := by
          intro segment present
          rw [erased] at present
          have sound := layout.complete segment present
          obtain ⟨early, before, first⟩ := lastOf_mem sound.nonempty
          obtain ⟨late, after, final⟩ := lastOf_mem empty
          rw [logs] at consecutive
          have less := lt_of_consecutive_append consecutive early
            (List.mem_flatMap.mpr ⟨segment, present, before⟩) late (List.mem_append_left _ after)
          have ends := sound.ends
          omega
        have entries := Catalog.insert_entries_of_lt (directory.segments.erase endSequence)
          (lastOf (binlogLogs contents)) (validPart contents) lower
        rw [erased] at entries
        have mended : mend directory (some (endSequence, contents)) =
            { directory with segments := ((directory.segments.erase endSequence).insert
              (lastOf (binlogLogs contents)) (validPart contents)) } := by
          simp only [mend, empty, if_false]
        have same : directoryLogs { directory with
            segments := ((directory.segments.erase endSequence).insert
              (lastOf (binlogLogs contents)) (validPart contents)) } = directoryLogs directory := by
          rw [logs]
          simp only [directoryLogs, entries, List.flatMap_append, List.flatMap_cons, List.flatMap_nil,
            List.append_nil, valid.logs, List.append_assoc]
        rw [mended]
        refine ⟨⟨layout.names, ?_, ?_, reads, ?_, ?_⟩, same⟩
        · show ((directory.segments.erase endSequence).insert _ _).entries.length ≤ maxBinlogSegments
          rw [entries, List.length_append, List.length_singleton]
          omega
        · intro segment present
          have member : segment ∈ complete ++ [(lastOf (binlogLogs contents), validPart contents)] := by
            rw [← entries]
            exact present
          rcases List.mem_append.mp member with old | new
          · exact layout.complete segment old
          · rw [List.mem_singleton.mp new]
            refine ⟨?_, ?_, ?_, ?_⟩ <;> rw [valid.logs]
            · exact valid
            · exact chain
            · exact empty
        · rw [same]
          exact consecutive
        · rw [same]
          exact begins

end Usable

/-- No rotation of the active binlog is under way. -/
def Settled (directory : Directory) : Prop :=
  directory.binlogBackup = none ∧ directory.binlogTemp = none

theorem Settled.rotation {directory : Directory} (settled : Settled directory) :
    recoverInterruptedBinlogRotation directory = .ok directory := by
  obtain ⟨backup, temporary⟩ := settled
  unfold recoverInterruptedBinlogRotation
  rw [backup, temporary]
  cases directory.binlog <;> rfl

theorem isExpired_leads (store : ShardedStore) (entry : PersistentEntry) :
    store.engine.clock.Leads (isExpired store entry).2.engine.clock := by
  unfold isExpired
  split
  · exact Clock.Leads.refl _
  · exact Clock.leads_tick _

theorem new_view (clock : Clock) (time : Nat) : (ShardedStore.new clock).view time = fun _ => none := rfl

/-- No entry outlives a later entry of its key. -/
def Outlasted (entries : List (Bytes × PersistentEntry)) : Prop :=
  entries.Pairwise (fun first second => first.1 = second.1 →
    ∀ time, second.2.expired time = true → first.2.expired time = true)

theorem outlasted_of_nodup {entries : List (Bytes × PersistentEntry)}
    (distinct : (entries.map Prod.fst).Nodup) : Outlasted entries := by
  have apart : entries.Pairwise (fun first second => first.1 ≠ second.1) := List.pairwise_map.mp distinct
  exact apart.imp (fun differ same => absurd same differ)

section Loading
variable [Platform]

/-- The snapshot that recovery starts from, and the store it loads from it. -/
structure Snapshotted (clock : Clock) (directory : Directory) (watermark : Nat)
    (staging : ShardedStore) : Prop where
  format : ∃ format, inspectSnapshot (directory.snapshot.or directory.snapshotBackup) = .ok format ∧
    format ≠ .legacy ∧ watermark = snapshotWatermark format ∧
    loadSnapshotEntries (.new clock) (directory.snapshot.or directory.snapshotBackup) format = .ok staging

/-- Recovery of a sound directory. -/
theorem Sound.loads {directory : Directory} {watermark : Nat} {tail : Bytes}
    (sound : Sound directory watermark tail) (settled : Settled directory) (store : ShardedStore)
    {staging : ShardedStore}
    (snapshot : Snapshotted store.engine.clock directory watermark staging) :
    loadDataFromPaths store directory = .ok (recovered store directory
      (layoutHistory directory directory.segments.entries none tail) watermark staging) := by
  obtain ⟨format, header, versioned, rfl, loaded⟩ := snapshot.format
  refine loadDataFromPaths_ok.mpr ⟨directory, format, _, directory, staging, settled.rotation, header,
    versioned, sound.inspected, ?_, loaded, rfl⟩
  rw [layoutHistory_logs sound.layout]
  exact sound.begins

/-- What recovery installs: the staging store after the records above the watermark. -/
theorem recovered_writes (store : ShardedStore) (repaired : Directory)
    (history : List InspectedBinlogFile) (watermark : Nat) (staging : ShardedStore) :
    Writes staging (recovered store repaired history watermark staging).store
      (logsWrites (above watermark (historyLogs history))) := by
  have writes := foldl_applyCommittedBatch_writes (above watermark (historyLogs history)) staging
  generalize replayed : (above watermark (historyLogs history)).foldl
    (fun store log => applyCommittedBatch store log.batch) staging = final at writes
  have shape : (recovered store repaired history watermark staging).store =
      ShardedStore.replaceAll { store with engine := { store.engine with
        clock := final.rawEntries.2.engine.clock } } final.rawEntries.1 := by
    rw [← replayed]
    rfl
  have swept := rawEntries_leads final
  have filled := replaceAll_leads { store with engine := { store.engine with
    clock := final.rawEntries.2.engine.clock } } final.rawEntries.1
  rw [← shape] at filled
  dsimp only at filled
  refine ⟨writes.leads.trans (swept.trans filled), ?_⟩
  intro time upto
  have during := (upto.rest writes.leads).start filled
  rw [shape, replaceAll_rawEntries_view { store with engine := { store.engine with
    clock := final.rawEntries.2.engine.clock } } final during]
  exact writes.view time (upto.start (swept.trans filled))

theorem Sound.recovered_lastSequence {directory : Directory} {watermark : Nat} {tail : Bytes}
    (sound : Sound directory watermark tail) (store staging : ShardedStore) :
    (recovered store directory (layoutHistory directory directory.segments.entries none tail) watermark
      staging).state.lastSequence = max watermark (lastOf (directoryLogs directory)) := by
  obtain ⟨described, chain⟩ := inspectBinlogHistory_described sound.inspected
  have same := recoveryState_lastSequence described chain watermark
    (advance watermark ⟨staging, checkedSucc watermark, 0⟩ (historyLogs
      (layoutHistory directory directory.segments.entries none tail))).replayed
  rw [layoutHistory_logs sound.layout] at same
  rw [← same]
  rfl

theorem installSnapshotEntries_leads (entries : List (Bytes × PersistentEntry)) (store : ShardedStore) :
    store.engine.clock.Leads (installSnapshotEntries store entries).engine.clock := by
  induction entries generalizing store with
  | nil => exact Clock.Leads.refl _
  | cons entry entries rest =>
      refine Clock.Leads.trans ?_ (rest (installSnapshotEntry store entry.1 entry.2))
      have checked := isExpired_leads store entry.2
      unfold installSnapshotEntry
      split
      next expired => rw [expired] at checked; exact checked
      next fresh =>
        rw [fresh] at checked
        exact checked.trans (setValue_writes _ _ _ _).leads

theorem loadSnapshotEntries_leads {store staging : ShardedStore} {file : Option Bytes}
    {format : SnapshotFormat} (loaded : loadSnapshotEntries store file format = .ok staging) :
    store.engine.clock.Leads staging.engine.clock := by
  unfold loadSnapshotEntries at loaded
  split at loaded
  · obtain ⟨entries, _, loaded⟩ := bind_ok loaded
    cases loaded
    exact installSnapshotEntries_leads entries store
  · cases loaded
    exact Clock.Leads.refl _

/-- An entry of a snapshot is written unless it has expired, which makes no difference where its key is
not there. -/
theorem installSnapshotEntry_view (store : ShardedStore) (key : Bytes) (entry : PersistentEntry)
    {time : Nat} (absent : entry.expired time = true → store.view time key = none)
    (upto : store.engine.clock.Upto (installSnapshotEntry store key entry).engine.clock time) :
    (installSnapshotEntry store key entry).view time =
      visible time (Expiring.replay (store.view time) [(key, some entry)]) := by
  have skipped (expired : entry.expired time = true) :
      store.view time = visible time (Expiring.replay (store.view time) [(key, some entry)]) := by
    funext other
    rw [Expiring.replay_cons, Expiring.replay_nil, visible]
    by_cases same : other = key
    · subst same
      rw [Function.update_self, absent expired, Expiring.live_some, expired]
      rfl
    · rw [Function.update_of_ne same]
      exact (congrFun (visible_view store.engine time) other).symm
  unfold installSnapshotEntry isExpired at *
  cases expires : entry.expiresAt with
  | none =>
      simp only [expires] at upto ⊢
      have installed := setValue_writes store key entry.value none
      rw [show entry = ⟨entry.value, none⟩ by rw [← expires]]
      exact installed.view time upto
  | some expiry =>
      simp only [expires] at upto ⊢
      by_cases past : expiry ≤ store.unixSeconds.1
      · simp only [ge_iff_le, past, decide_true] at upto ⊢
        have reached := upto _ store.engine.clock.shows_tick
        apply skipped
        rw [PersistentEntry.expired, expires, expiryPassed, decide_eq_true_eq]
        exact Nat.le_trans past reached
      · simp only [ge_iff_le, past, decide_false] at upto ⊢
        have installed := setValue_writes store.unixSeconds.2 key entry.value (some expiry)
        rw [show entry = ⟨entry.value, some expiry⟩ by rw [← expires]]
        exact installed.view time (upto.rest store.engine.clock.leads_tick)

/-- Loading entries into a store that shows none of those that have expired. -/
theorem installSnapshotEntries_view (entries : List (Bytes × PersistentEntry)) (store : ShardedStore)
    (outlasted : Outlasted entries) {time : Nat}
    (absent : ∀ entry ∈ entries, entry.2.expired time = true → store.view time entry.1 = none)
    (upto : store.engine.clock.Upto (installSnapshotEntries store entries).engine.clock time) :
    (installSnapshotEntries store entries).view time =
      visible time (Expiring.replay (store.view time)
        (entries.map (fun entry => (entry.1, some entry.2)))) := by
  induction entries generalizing store with
  | nil => exact (visible_view store.engine time).symm
  | cons entry entries rest =>
      obtain ⟨first, others⟩ := List.pairwise_cons.mp outlasted
      have one := installSnapshotEntries_leads [entry] store
      have remaining := installSnapshotEntries_leads entries (installSnapshotEntry store entry.1 entry.2)
      have here := installSnapshotEntry_view store entry.1 entry.2
        (absent entry List.mem_cons_self) (upto.start remaining)
      have hidden : ∀ other ∈ entries, other.2.expired time = true →
          (installSnapshotEntry store entry.1 entry.2).view time other.1 = none := by
        intro other member expired
        rw [here, visible, Expiring.replay_cons, Expiring.replay_nil]
        by_cases same : other.1 = entry.1
        · have gone := first other member same.symm time expired
          rw [same, Function.update_self, Expiring.live_some, gone, if_pos rfl]
        · rw [Function.update_of_ne same, absent other (List.mem_cons_of_mem _ member) expired]
          rfl
      have later := rest (installSnapshotEntry store entry.1 entry.2) others hidden (upto.rest one)
      refine later.trans ?_
      rw [here, visible_replay_visible (Nat.le_refl time), ← Expiring.replay_append, List.map_cons,
        List.singleton_append]

theorem Snapshotted.leads {clock : Clock} {directory : Directory} {watermark : Nat}
    {staging : ShardedStore} (snapshot : Snapshotted clock directory watermark staging) :
    clock.Leads staging.engine.clock := by
  obtain ⟨_, _, _, _, loaded⟩ := snapshot.format
  exact loadSnapshotEntries_leads loaded

end Loading

end OnyxDB.Persistence.Writing
