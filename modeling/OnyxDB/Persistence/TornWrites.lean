import OnyxDB.Persistence.FurtherWrites

/-! What a reader makes of a log that was cut anywhere. The bytes it drops are the beginning of a
record, but it does not look at all of them. -/

namespace OnyxDB.Persistence.TornWrites
open OnyxDB.Library OnyxDB.Library.BigEndian OnyxDB.Engine OnyxDB.Engine.Value OnyxDB.Persistence
  OnyxDB.Persistence.Codec OnyxDB.Persistence.Model OnyxDB.Persistence.Record
  OnyxDB.Persistence.Recovery OnyxDB.Persistence.Writing

/-- A prefix of two parts is a prefix of the first, and of the second once the first is complete. -/
theorem prefix_append_iff {α : Type} (front first second : List α) :
    front <+: first ++ second ↔
      front.take first.length <+: first ∧ front.drop first.length <+: second := by
  constructor
  · rintro ⟨rest, whole⟩
    rcases List.append_eq_append_iff.mp whole with ⟨more, same, _⟩ | ⟨more, same, later⟩
    · have short : front.length ≤ first.length := by simp [same]
      rw [List.take_of_length_le short, List.drop_eq_nil_of_le short]
      exact ⟨⟨more, same.symm⟩, List.nil_prefix⟩
    · rw [same, List.take_left' rfl, List.drop_left' rfl, later]
      exact ⟨List.prefix_rfl, List.prefix_append _ _⟩
  · rintro ⟨begins, follows⟩
    by_cases short : front.length ≤ first.length
    · rw [List.take_of_length_le short] at begins
      exact begins.trans (List.prefix_append _ _)
    · have full : front.take first.length = first := by
        apply begins.eq_of_length
        rw [List.length_take]
        omega
      rw [← List.take_append_drop first.length front, full]
      exact (List.prefix_append_right_inj first).mpr follows

section Cut
variable [Platform]

/-- The file that holds the records of some batches, numbered from `first` on. -/
def logFile : Nat → List EncodedBatch → Bytes
  | _, [] => []
  | first, encoded :: rest => framedRecord first encoded.payload ++ logFile (first + 1) rest

/-- The records of that file. -/
def logRecords : Nat → List EncodedBatch → List LogRecord
  | _, [] => []
  | first, encoded :: rest => ⟨first, encoded.batch, .checksummed⟩ :: logRecords (first + 1) rest

theorem logFile_take_le (first : Nat) (batches : List EncodedBatch) {fewer more : Nat}
    (order : fewer ≤ more) :
    (logFile first (batches.take fewer)).length ≤ (logFile first (batches.take more)).length := by
  induction batches generalizing first fewer more with
  | nil => simp [logFile]
  | cons encoded batches rest =>
      cases fewer with
      | zero => exact Nat.zero_le _
      | succ fewer =>
          cases more with
          | zero => omega
          | succ more =>
              have later := rest (first + 1) (Nat.le_of_succ_le_succ order)
              simp only [List.take_succ_cons, logFile, List.length_append]
              omega

theorem logRecords_sequences (first : Nat) (batches : List EncodedBatch) :
    (logRecords first batches).map LogRecord.sequence = List.range' first batches.length := by
  induction batches generalizing first with
  | nil => rfl
  | cons encoded batches rest => rw [logRecords, List.map_cons, rest, List.length_cons, List.range'_succ]

theorem logRecords_consecutive (first : Nat) (batches : List EncodedBatch) :
    Consecutive (logRecords first batches) := by
  induction batches generalizing first with
  | nil => exact List.isChain_nil
  | cons encoded batches rest =>
      rw [logRecords, Consecutive, List.isChain_cons]
      refine ⟨?_, rest (first + 1)⟩
      intro next head
      cases batches with
      | nil => cases head
      | cons second batches =>
          cases head
          rfl

/-- Any cut leaves a number of complete records and a part of the next one. -/
theorem reads_cut {first : Nat} {batches : List EncodedBatch} (positive : first ≠ 0)
    (bounded : first + batches.length ≤ 2 ^ 64)
    (readable : ∀ encoded ∈ batches, decodeCommittedBatch encoded.payload = .ok encoded.batch)
    (cut : Nat) :
    ∃ count tail, count ≤ batches.length ∧
      (count < batches.length → cut < (logFile first (batches.take (count + 1))).length) ∧
      (count = batches.length → tail = []) ∧
      (logFile first batches).take cut = logFile first (batches.take count) ++ tail ∧
      Reads ((logFile first batches).take cut) (logRecords first (batches.take count)) tail := by
  induction batches generalizing first cut with
  | nil => exact ⟨0, [], le_rfl, by simp, by simp, by simp [logFile],
      by simpa [logFile, logRecords] using Reads.nil⟩
  | cons encoded batches rest =>
      rw [List.length_cons] at bounded
      have encodable : Encodable first encoded.payload := ⟨positive, encoded.fits⟩
      have size := framedRecord_length first encoded.payload
      by_cases whole : (framedRecord first encoded.payload).length ≤ cut
      · obtain ⟨count, tail, within, next, complete, split, reads⟩ :=
          @rest (first + 1) (Nat.succ_ne_zero first) (by omega)
            (fun other member => readable other (List.mem_cons_of_mem _ member))
            (cut - (framedRecord first encoded.payload).length)
        have here : (logFile first (encoded :: batches)).take cut =
            framedRecord first encoded.payload ++ (logFile (first + 1) batches).take
              (cut - (framedRecord first encoded.payload).length) := by
          rw [logFile, List.take_append, List.take_of_length_le whole]
        refine ⟨count + 1, tail, Nat.succ_le_succ within, ?_, ?_, ?_, ?_⟩
        · intro more
          have later := next (Nat.lt_of_succ_lt_succ more)
          rw [List.take_succ_cons, logFile, List.length_append]
          omega
        · intro all
          exact complete (Nat.succ.inj all)
        · rw [here, split, List.take_succ_cons, logFile, List.append_assoc]
        · rw [here, List.take_succ_cons, logRecords]
          exact Reads.framed encodable (by omega) (readable encoded List.mem_cons_self) reads
      · have short : cut < (framedRecord first encoded.payload).length := by omega
        have here : (logFile first (encoded :: batches)).take cut =
            (framedRecord first encoded.payload).take cut := by
          rw [logFile, List.take_append_of_le_length short.le]
        have parts := (List.take_append_drop cut (framedRecord first encoded.payload)).symm
        have unfinished : (framedRecord first encoded.payload).drop cut ≠ [] := by
          rw [ne_eq, List.drop_eq_nil_iff]
          omega
        refine ⟨0, (framedRecord first encoded.payload).take cut, Nat.zero_le _, ?_, ?_, ?_, ?_⟩
        · intro _
          simpa [logFile] using short
        · intro none_left
          cases none_left
        · rw [here, List.take_zero, logFile, List.nil_append]
        · rw [here]
          exact Reads.finish (nextBinlogRecord_torn encodable parts unfinished)

/-- A batch whose expiries can be written and whose documents `serde_json` reads back. -/
structure RoundTrips (batch : CommittedBatch) : Prop where
  storable : ∀ effect ∈ batch.effects, StorableEffect effect
  documents : ∀ document ∈ CommittedBatch.documents batch,
    Platform.jsonFromSlice (utf8Bytes (Platform.jsonToString document)) = .ok document

theorem RoundTrips.decodes {encoded : EncodedBatch} (roundTrips : RoundTrips encoded.batch) :
    decodeCommittedBatch encoded.payload = .ok encoded.batch := by
  rw [decodeCommittedBatch_written roundTrips.storable encoded.encoded]
  exact readBackBatch_inverts roundTrips.documents

/-- Wherever a log is cut, the reader finds the records that are complete, in order, and drops the
rest. -/
theorem inspectBinlog_cut (first : Nat) (batches : List EncodedBatch) (cut : Nat)
    (positive : first ≠ 0) (bounded : first + batches.length ≤ 2 ^ 64)
    (roundTrips : ∀ encoded ∈ batches, RoundTrips encoded.batch) :
    ∃ count inspection, count ≤ batches.length ∧
      (logFile first (batches.take count)).length ≤ ((logFile first batches).take cut).length ∧
      (count < batches.length → cut < (logFile first (batches.take (count + 1))).length) ∧
      inspectBinlog ((logFile first batches).take cut) = .ok inspection ∧
      inspection.validLen = (logFile first (batches.take count)).length ∧
      (inspection.truncatedTail = true ↔ ∀ boundary,
        (logFile first (batches.take boundary)).length ≠ ((logFile first batches).take cut).length) ∧
      inspection.minSequence = (if count = 0 then none else some first) ∧
      inspection.maxSequence = (if count = 0 then 0 else first + count - 1) ∧
      ∃ tail, forEachBinlogRecord ((logFile first batches).take cut) collectRecord [] =
        .ok (logRecords first (batches.take count), tail) := by
  obtain ⟨count, tail, within, next, complete, split, reads⟩ := reads_cut positive bounded
    (fun encoded member => (roundTrips encoded member).decodes) cut
  have inspected := inspectBinlog_ok.mpr ⟨_, tail, reads, logRecords_consecutive first _, rfl⟩
  have length := congrArg List.length split
  rw [List.length_append] at length
  have sequences := logRecords_sequences first (batches.take count)
  rw [List.length_take, Nat.min_eq_left within] at sequences
  refine ⟨count, _, within, by omega, next, inspected, ?_, ?_, ?_, ?_, tail, ?_⟩
  · simp only [summary]
    omega
  · simp only [summary, Bool.not_eq_true', List.isEmpty_eq_false_iff]
    constructor
    · intro remains boundary same
      have some_left := List.length_pos_iff.mpr remains
      by_cases early : boundary ≤ count
      · have shorter := logFile_take_le first batches early
        omega
      · have fewer : count < batches.length := by
          by_contra all
          exact remains (complete (by omega))
        have longer := logFile_take_le first batches (show count + 1 ≤ boundary by omega)
        have past := next fewer
        have limit := List.length_take_le cut (logFile first batches)
        omega
    · intro none_matches finished
      rw [finished, List.length_nil] at length
      exact none_matches count (by omega)
  · cases count with
    | zero => rfl
    | succ count =>
        have head := congrArg List.head? sequences
        rw [List.head?_map, List.range'_succ, List.head?_cons] at head
        simpa [summary] using head
  · cases count with
    | zero => rfl
    | succ count =>
        have last := congrArg List.getLast? sequences
        rw [List.getLast?_map, List.range'_concat, List.getLast?_concat] at last
        simp only [summary, last, Option.getD_some, Nat.succ_ne_zero, if_false]
        omega
  · have collected := forEach_collect reads []
    rwa [List.nil_append] at collected

end Cut

section Tail

theorem eq_zero_of_writeU64Be {sequence : Nat} (bounded : sequence < 2 ^ 64)
    (zeros : writeU64Be sequence = List.replicate 8 0) : sequence = 0 := by
  have read := ofBigEndian_toBigEndian_of_lt (lt_of_lt_of_eq bounded (by norm_num) : sequence < 256 ^ 8)
  rw [← read, show toBigEndian 8 sequence = List.replicate 8 0 from zeros]
  rfl

/-- Bytes completed to a given width. -/
def padded (part : Bytes) (width : Nat) (fill : UInt8) : Bytes :=
  part ++ List.replicate (width - part.length) fill

theorem padded_length {part : Bytes} {width : Nat} (fits : part.length ≤ width) (fill : UInt8) :
    (padded part width fill).length = width := by
  rw [padded, List.length_append, List.length_replicate]
  omega

variable [Platform]

/-- Bytes that agree, as far as they go, with the fields of a record the encoder produces: a length in
range, the magic, the same length once more, a sequence other than zero, and the checksum. -/
structure Recognizable (tail : Bytes) : Prop where
  length : ∃ recordLen, 20 ≤ recordLen ∧ recordLen ≤ maxBinlogRecordSize ∧
    tail.take 4 <+: writeU32Be recordLen
  magic : (tail.drop 4).take 4 <+: binlogRecordMagic
  embedded : (tail.drop 8).take 4 <+: tail.take 4
  sequence : (tail.drop 12).take 8 ≠ List.replicate 8 0
  checksum : 4 ≤ tail.length → tail.drop (ofBigEndian (tail.take 4)) <+:
    writeU32Be (Platform.crc32 ((tail.take (ofBigEndian (tail.take 4))).drop 4)).toNat

/-- The bytes are the beginning of a record that the encoder can produce. -/
def TornRecord (tail : Bytes) : Prop :=
  ∃ sequence payload rest, sequence < 2 ^ 64 ∧
    encodeFramedVersionedBinlogRecordInto sequence payload [] = .ok (tail ++ rest) ∧ rest ≠ []

/-- The fields of a framed record, one after the other. -/
theorem framedRecord_fields (sequence : Nat) (payload : Bytes) :
    framedRecord sequence payload = writeU32Be (20 + payload.length) ++ (binlogRecordMagic ++
      (writeU32Be (20 + payload.length) ++ (writeU64Be sequence ++ (payload ++
        writeU32Be (Platform.crc32 (versionedBinlogRecordBody sequence payload
          (20 + payload.length))).toNat)))) := by
  simp only [framedRecord, versionedBinlogRecordBody, List.append_assoc]

/-- Being a prefix of a framed record, field by field. -/
theorem prefix_framedRecord_iff (tail : Bytes) (sequence : Nat) (payload : Bytes) :
    tail <+: framedRecord sequence payload ↔
      tail.take 4 <+: writeU32Be (20 + payload.length) ∧
      (tail.drop 4).take 4 <+: binlogRecordMagic ∧
      (tail.drop 8).take 4 <+: writeU32Be (20 + payload.length) ∧
      (tail.drop 12).take 8 <+: writeU64Be sequence ∧
      (tail.drop 20).take payload.length <+: payload ∧
      tail.drop (20 + payload.length) <+: writeU32Be (Platform.crc32
        (versionedBinlogRecordBody sequence payload (20 + payload.length))).toNat := by
  have four : binlogRecordMagic.length = 4 := rfl
  rw [framedRecord_fields, prefix_append_iff, prefix_append_iff, prefix_append_iff, prefix_append_iff,
    prefix_append_iff, writeU32Be_length, writeU64Be_length, four, List.drop_drop, List.drop_drop,
    List.drop_drop, List.drop_drop]

/-- The first bytes of a record are its length and its body. -/
theorem take_of_prefix_framedRecord {tail : Bytes} {sequence : Nat} {payload : Bytes}
    (begins : tail <+: framedRecord sequence payload) (long : 20 + payload.length ≤ tail.length) :
    (tail.take (20 + payload.length)).drop 4 =
      versionedBinlogRecordBody sequence payload (20 + payload.length) := by
  have width : (versionedBinlogRecordBody sequence payload (20 + payload.length)).length =
      16 + payload.length := by
    simp only [versionedBinlogRecordBody, List.length_append, writeU32Be_length, writeU64Be_length,
      binlogRecordMagic, List.length_cons, List.length_nil]
  have whole : framedRecord sequence payload = (writeU32Be (20 + payload.length) ++
      versionedBinlogRecordBody sequence payload (20 + payload.length)) ++ writeU32Be
        (Platform.crc32 (versionedBinlogRecordBody sequence payload
          (20 + payload.length))).toNat := by
    simp only [framedRecord, List.append_assoc]
  have size : (writeU32Be (20 + payload.length) ++
      versionedBinlogRecordBody sequence payload (20 + payload.length)).length =
        20 + payload.length := by
    rw [List.length_append, writeU32Be_length, width]
    omega
  rw [whole, prefix_append_iff, size] at begins
  have front := begins.1.eq_of_length (by rw [size, List.length_take]; omega)
  rw [front, List.drop_left' (writeU32Be_length _)]

theorem TornRecord.recognizable {tail : Bytes} (torn : TornRecord tail) : Recognizable tail := by
  obtain ⟨sequence, payload, rest, bounded, encoded, _⟩ := torn
  obtain ⟨⟨positive, fits⟩, same⟩ := (encodeFramed_eq_ok_iff _ _ _ _).mp encoded
  rw [List.nil_append] at same
  have begins : tail <+: framedRecord sequence payload := ⟨rest, same⟩
  obtain ⟨length, magic, embedded, number, _, checksum⟩ :=
    (prefix_framedRecord_iff tail sequence payload).mp begins
  have small : 20 + payload.length < 2 ^ 32 := lt_of_le_of_lt fits maxBinlogRecordSize_lt
  have outer (long : 4 ≤ tail.length) : tail.take 4 = writeU32Be (20 + payload.length) := by
    apply length.eq_of_length
    rw [List.length_take, writeU32Be_length]
    omega
  refine ⟨⟨20 + payload.length, by omega, fits, length⟩, magic, ?_, ?_, ?_⟩
  · by_cases long : 4 ≤ tail.length
    · rw [outer long]
      exact embedded
    · rw [List.drop_eq_nil_of_le (by omega), List.take_nil]
      exact List.nil_prefix
  · intro zeros
    rw [zeros] at number
    have equal := number.eq_of_length (by simp)
    exact positive (eq_zero_of_writeU64Be bounded equal.symm)
  · intro long
    have read : ofBigEndian (tail.take 4) = 20 + payload.length := by
      rw [outer long]
      exact ofBigEndian_writeU32Be small
    rw [read]
    by_cases reached : 20 + payload.length ≤ tail.length
    · rw [take_of_prefix_framedRecord begins reached]
      exact checksum
    · rw [List.drop_eq_nil_of_le (by omega)]
      exact List.nil_prefix

/-- Every recognizable beginning can be completed. -/
theorem Recognizable.completes {tail : Bytes} (recognizable : Recognizable tail) :
    ∃ sequence payload, sequence < 2 ^ 64 ∧ Encodable sequence payload ∧
      tail <+: framedRecord sequence payload := by
  obtain ⟨⟨recordLen, low, high, length⟩, magic, embedded, number, checksum⟩ := recognizable
  have small : recordLen < 2 ^ 32 := lt_of_le_of_lt high maxBinlogRecordSize_lt
  have numberFits : ((tail.drop 12).take 8).length ≤ 8 := List.length_take_le _ _
  have payloadFits : ((tail.drop 20).take (recordLen - 20)).length ≤ recordLen - 20 :=
    List.length_take_le _ _
  have numberLength := padded_length numberFits 1
  have payloadLength := padded_length payloadFits 0
  have written := toBigEndian_ofBigEndian (padded ((tail.drop 12).take 8) 8 1)
  rw [numberLength] at written
  have bounded := ofBigEndian_lt (padded ((tail.drop 12).take 8) 8 1)
  rw [numberLength] at bounded
  have positive : ofBigEndian (padded ((tail.drop 12).take 8) 8 1) ≠ 0 := by
    intro zero
    rw [zero] at written
    have zeros : padded ((tail.drop 12).take 8) 8 1 = List.replicate 8 0 := written.symm
    by_cases full : ((tail.drop 12).take 8).length = 8
    · rw [padded, full, Nat.sub_self, List.replicate_zero, List.append_nil] at zeros
      exact number zeros
    · have last : (1 : UInt8) ∈ padded ((tail.drop 12).take 8) 8 1 := by
        apply List.mem_append_right
        rw [List.mem_replicate]
        exact ⟨by omega, rfl⟩
      rw [zeros, List.mem_replicate] at last
      exact absurd last.2 (by decide)
  have total : 20 + (padded ((tail.drop 20).take (recordLen - 20)) (recordLen - 20) 0).length =
      recordLen := by
    rw [payloadLength]
    omega
  have outer (long : 4 ≤ tail.length) : tail.take 4 = writeU32Be recordLen := by
    apply length.eq_of_length
    rw [List.length_take, writeU32Be_length]
    omega
  have repeated : (tail.drop 8).take 4 <+: writeU32Be recordLen := by
    by_cases long : 4 ≤ tail.length
    · rw [outer long] at embedded
      exact embedded
    · rw [List.drop_eq_nil_of_le (by omega), List.take_nil]
      exact List.nil_prefix
  have fields (end_ : Bytes) (ends : tail.drop recordLen <+: end_) :
      tail <+: writeU32Be recordLen ++ (binlogRecordMagic ++ (writeU32Be recordLen ++
        (padded ((tail.drop 12).take 8) 8 1 ++
          (padded ((tail.drop 20).take (recordLen - 20)) (recordLen - 20) 0 ++ end_)))) := by
    have four : binlogRecordMagic.length = 4 := rfl
    rw [prefix_append_iff, prefix_append_iff, prefix_append_iff, prefix_append_iff, prefix_append_iff,
      writeU32Be_length, four, numberLength, payloadLength, List.drop_drop, List.drop_drop,
      List.drop_drop, List.drop_drop]
    refine ⟨length, magic, repeated, List.prefix_append _ _, List.prefix_append _ _, ?_⟩
    rw [show 4 + 4 + 4 + 8 + (recordLen - 20) = recordLen by omega]
    exact ends
  refine ⟨ofBigEndian (padded ((tail.drop 12).take 8) 8 1),
    padded ((tail.drop 20).take (recordLen - 20)) (recordLen - 20) 0,
    lt_of_lt_of_eq bounded (by norm_num), ⟨positive, by rw [total]; exact high⟩, ?_⟩
  rw [framedRecord_fields, total, show writeU64Be (ofBigEndian (padded ((tail.drop 12).take 8) 8 1)) =
    padded ((tail.drop 12).take 8) 8 1 from written]
  apply fields
  by_cases reached : recordLen ≤ tail.length
  · have long : 4 ≤ tail.length := by omega
    have read : ofBigEndian (tail.take 4) = recordLen := by
      rw [outer long]
      exact ofBigEndian_writeU32Be small
    have ends := checksum long
    rw [read] at ends
    have begins := fields (tail.drop recordLen) List.prefix_rfl
    have body : (tail.take recordLen).drop 4 = versionedBinlogRecordBody
        (ofBigEndian (padded ((tail.drop 12).take 8) 8 1))
        (padded ((tail.drop 20).take (recordLen - 20)) (recordLen - 20) 0) recordLen := by
      have whole := begins.eq_of_length (by
        simp only [List.length_append, writeU32Be_length, numberLength, payloadLength, binlogRecordMagic,
          List.length_cons, List.length_nil, List.length_drop]
        omega)
      have split : tail = (writeU32Be recordLen ++ versionedBinlogRecordBody
          (ofBigEndian (padded ((tail.drop 12).take 8) 8 1))
          (padded ((tail.drop 20).take (recordLen - 20)) (recordLen - 20) 0) recordLen) ++
            tail.drop recordLen := by
        rw [versionedBinlogRecordBody, show writeU64Be (ofBigEndian (padded ((tail.drop 12).take 8) 8 1)) =
          padded ((tail.drop 12).take 8) 8 1 from written]
        simpa only [List.append_assoc] using whole
      have front := List.append_cancel_right ((List.take_append_drop recordLen tail).trans split)
      rw [front, List.drop_left' (writeU32Be_length _)]
    rw [← body]
    exact ends
  · rw [List.drop_eq_nil_of_le (by omega)]
    exact List.nil_prefix

theorem Recognizable.torn {tail : Bytes} (recognizable : Recognizable tail)
    (next : nextBinlogRecord tail = .ok none) : TornRecord tail := by
  obtain ⟨sequence, payload, bounded, encodable, rest, whole⟩ := recognizable.completes
  have encoded : encodeFramedVersionedBinlogRecordInto sequence payload [] = .ok (tail ++ rest) :=
    (encodeFramed_eq_ok_iff _ _ _ _).mpr ⟨⟨encodable.positive, encodable.bounded⟩, by
      rw [List.nil_append, whole]⟩
  refine ⟨sequence, payload, rest, bounded, encoded, ?_⟩
  intro complete
  rw [complete, List.append_nil, framedRecord_eq] at whole
  have found : nextBinlogRecord tail = .ok (some (versionedRecord sequence payload, [])) :=
    nextBinlogRecord_some.mpr ⟨_, framed_versionedRecord encodable, by rw [whole, List.append_nil]⟩
  rw [next] at found
  cases found

/-- Where an inspection asks for a truncation, what is cut off is the beginning of a record. -/
def TruncatesOnlyTorn (bytes : Bytes) : Prop :=
  ∀ inspection, inspectBinlog bytes = .ok inspection → inspection.truncatedTail = true →
    bytes.drop inspection.validLen ≠ [] ∧ TornRecord (bytes.drop inspection.validLen)

/-- The bytes after the complete records, if there are any and they hold no complete one themselves,
are recognizable. -/
def RecognizableEnd (bytes : Bytes) : Prop :=
  ∀ front logs tail, bytes = front ++ tail → Reads front logs [] → Consecutive logs →
    nextBinlogRecord tail = .ok none → tail ≠ [] → Recognizable tail

theorem truncatesOnlyTorn_iff (bytes : Bytes) : TruncatesOnlyTorn bytes ↔ RecognizableEnd bytes := by
  constructor
  · intro torn front logs tail split reads consecutive next remains
    have whole := reads.append (.finish next)
    rw [List.append_nil, ← split] at whole
    have cut := torn _ (inspectBinlog_ok.mpr ⟨_, _, whole, consecutive, rfl⟩) (by simp [summary, remains])
    have discarded : bytes.drop (summary bytes logs tail).validLen = tail := by
      rw [split, summary, List.length_append, Nat.add_sub_cancel, List.drop_left' rfl]
    rw [discarded] at cut
    exact cut.2.recognizable
  · intro recognizable inspection inspected truncated
    obtain ⟨logs, tail, reads, consecutive, rfl⟩ := inspectBinlog_ok.mp inspected
    obtain ⟨front, split, extend⟩ := reads.split
    have complete := extend [] [] [] Reads.nil
    rw [List.append_nil, List.append_nil] at complete
    have remains : tail ≠ [] := by simpa [summary] using truncated
    have discarded : bytes.drop (summary bytes logs tail).validLen = tail := by
      rw [split, summary, List.length_append, Nat.add_sub_cancel, List.drop_left' rfl]
    rw [discarded]
    exact ⟨remains, (recognizable front logs tail split complete consecutive reads.next_tail
      remains).torn reads.next_tail⟩

end Tail

/-- A file of one byte with which no record begins is truncated to the empty file. -/
theorem not_truncatesOnlyTorn_strayByte :
    letI := Reference.platform (fun _ => .error "unsupported")
    ¬ TruncatesOnlyTorn [255] := by
  let _ := Reference.platform (fun _ => .error "unsupported")
  intro torn
  obtain ⟨_, cut⟩ := torn { truncatedTail := true } rfl rfl
  obtain ⟨recordLen, _, bounded, rest, begins⟩ := cut.recognizable.length
  have first : UInt8.ofNat (recordLen / 256 ^ 3) = 255 := (List.cons.inj begins).1.symm
  have digit := congrArg UInt8.toNat first
  rw [UInt8.toNat_ofNat'] at digit
  simp only [maxBinlogRecordSize] at bounded
  have value : (255 : UInt8).toNat = 255 := rfl
  rw [value] at digit
  omega

/-- Two records of which the second is cut in its middle. -/
theorem deletions_cut :
    letI := Reference.platform (fun _ => .error "unsupported")
    ∃ count inspection, count ≤ 2 ∧
      (logFile 1 ([FurtherWrites.deletion, FurtherWrites.deletion].take count)).length ≤
        ((logFile 1 [FurtherWrites.deletion, FurtherWrites.deletion]).take 50).length ∧
      (count < 2 → 50 < (logFile 1 ([FurtherWrites.deletion, FurtherWrites.deletion].take
        (count + 1))).length) ∧
      inspectBinlog ((logFile 1 [FurtherWrites.deletion, FurtherWrites.deletion]).take 50) =
        .ok inspection ∧
      inspection.validLen =
        (logFile 1 ([FurtherWrites.deletion, FurtherWrites.deletion].take count)).length := by
  let _ := Reference.platform (fun _ => .error "unsupported")
  have roundTrips : ∀ encoded ∈ [FurtherWrites.deletion, FurtherWrites.deletion],
      RoundTrips encoded.batch := by
    intro encoded member
    have same : encoded = FurtherWrites.deletion := by simpa using member
    rw [same]
    exact ⟨by simp [FurtherWrites.deletion, StorableEffect],
      by simp [FurtherWrites.deletion, CommittedBatch.documents]⟩
  obtain ⟨count, inspection, within, covered, next, inspected, length, _⟩ :=
    inspectBinlog_cut 1 [FurtherWrites.deletion, FurtherWrites.deletion] 50 (by decide) (by decide)
      roundTrips
  exact ⟨count, inspection, within, covered, next, inspected, length⟩

end OnyxDB.Persistence.TornWrites
