import Mathlib.Algebra.Order.BigOperators.Group.List
import OnyxDB.Engine.Reference
import OnyxDB.Persistence.CodecRoundTrip
import OnyxDB.Persistence.WrittenFiles
import OnyxDB.Replication.ChunkedRecord

/-! What is written as a chunked record is read as it was, whatever comes behind it and however it
arrives. -/

namespace OnyxDB.Replication.ChunkedRecord
open OnyxDB.Engine OnyxDB.Engine.Value OnyxDB.Library.Arrival OnyxDB.Library.Decimal
  OnyxDB.Library.Hexadecimal OnyxDB.Persistence.Model OnyxDB.Persistence.Record OnyxDB.Persistence.Codec
  OnyxDB.Protocol

section Texts

theorem utf8Bytes_hexEncode (bytes : Bytes) :
    utf8Bytes (hexEncode bytes) = (digits bytes).flatMap String.utf8EncodeChar := by
  rw [utf8Bytes, hexEncode, String.toList_ofList]

theorem hexDecode_hexEncode (bytes : Bytes) : hexDecode (hexEncode bytes) = .ok bytes := by
  rw [hexDecode, utf8Bytes_hexEncode, utf8_digits_length, Nat.mul_mod_right, if_neg (by simp), fromDigits_digits]

theorem utf8Bytes_decimalText (value : Nat) : utf8Bytes (decimalText value) = digitBytes value := by
  rw [utf8Bytes, decimalText, String.toList_ofList, digitBytes]

theorem parseNumber_decimalText {value : Nat} (fits : value < 2 ^ 64) (message : String) :
    parseNumber message (decimalText value) = .ok value := by
  rw [parseNumber, decimalText, String.toList_ofList, parseUnsigned_toDigits fits]
  rfl

/-- The digits of a number of 64 bits. -/
theorem decimalText_length {value : Nat} (fits : value < 2 ^ 64) : (utf8Bytes (decimalText value)).length ≤ 20 := by
  rw [utf8Bytes_decimalText]
  apply digitBytes_length_le (by decide)
  apply Nat.lt_trans fits
  decide

end Texts

section Frames

theorem replicationReadLimits_bounded : replicationReadLimits.Bounded := by
  constructor <;> decide

/-- An argument takes its own bytes and at most 25 more. -/
theorem bulkFrame_length_le {argument : Bytes} (fits : argument.length < 2 ^ 64) :
    (bulkFrame argument).length ≤ argument.length + 25 := by
  have digits : decimalLength argument.length ≤ 20 := by
    apply digitBytes_length_le (by decide)
    apply Nat.lt_trans fits
    decide
  rw [bulkFrame_length, headerLine_length]
  omega

theorem flatMap_bulkFrame_length_le {arguments : List Bytes} (fits : (arguments.map List.length).sum < 2 ^ 64) :
    (arguments.flatMap bulkFrame).length ≤ (arguments.map List.length).sum + 25 * arguments.length := by
  induction arguments with
  | nil => exact Nat.le_refl _
  | cons argument arguments shorter =>
      rw [List.map_cons, List.sum_cons] at fits ⊢
      have here := @bulkFrame_length_le argument (by omega)
      have later := shorter (by omega)
      rw [List.flatMap_cons, List.length_append, List.length_cons]
      omega

/-- A command of a few arguments that are not longer together than one argument may be. -/
theorem framed_of_sum {texts : List String} (some_left : texts ≠ []) (few : texts.length ≤ 4)
    (short : (texts.map (fun text => (utf8Bytes text).length)).sum ≤ maxReplicationFrameBulkSize) :
    Framed texts replicationReadLimits := by
  have limit : maxReplicationFrameBulkSize = 524352 := rfl
  have most : replicationReadLimits.maxFrameLen = 528448 := rfl
  have words : usizeMax = 2 ^ 64 - 1 := rfl
  have sum : ((texts.map utf8Bytes).map List.length).sum ≤ maxReplicationFrameBulkSize := by
    rw [List.map_map]
    exact short
  have arguments := @flatMap_bulkFrame_length_le (texts.map utf8Bytes) (by omega)
  have header := @headerLine_short 42 (texts.map utf8Bytes).length (by rw [List.length_map]; omega)
  have size := commandFrame_length (texts.map utf8Bytes)
  rw [List.length_map] at arguments header size
  rw [maxRespHeaderLineSize] at header
  refine ⟨some_left, few, ?_, by omega, by omega⟩
  intro text member
  have listed : (utf8Bytes text).length ∈ texts.map (fun text => (utf8Bytes text).length) :=
    List.mem_map_of_mem member
  have here := List.single_le_sum (fun _ _ => Nat.zero_le _) _ listed
  exact Nat.le_trans here short

/-- A frame within the limits is read as it was written. -/
theorem readReplicationCommand_frame {texts : List String} (framed : Framed texts replicationReadLimits)
    {rest : Bytes} {reader : Reader UInt8} (begins : reader.stream = encodeReplicationCommand texts ++ rest) :
    ∃ after, readReplicationCommand reader = .ready (.ok (some texts)) after ∧ after.stream = rest := by
  have begun : encodeReplicationCommand texts ≠ [] := nofun
  have decoded := framed.decodes []
  rw [List.append_nil] at decoded
  have follows := decodeBufferedCommand_follows begun replicationReadLimits_bounded
  rw [encodeReplicationCommand] at follows begins
  rw [decoded] at follows
  obtain ⟨after, returned, left, _⟩ := follows.2 rest reader (by rw [begins, List.drop_zero])
  refine ⟨after, returned, ?_⟩
  rw [left, List.drop_left]

theorem readReplicationFrame_frame {texts : List String} (framed : Framed texts replicationReadLimits)
    {rest : Bytes} {reader : Reader UInt8} (begins : reader.stream = encodeReplicationCommand texts ++ rest)
    (disconnected context : String) :
    ∃ after, readReplicationFrame disconnected context reader = .ready (.ok texts) after ∧ after.stream = rest := by
  obtain ⟨after, returned, left⟩ := readReplicationCommand_frame framed begins
  refine ⟨after, ?_, left⟩
  rw [readReplicationFrame, returned]

end Frames

section Chunks
variable {chunkCommand : String} (name : (utf8Bytes chunkCommand).length ≤ 64)
include name

/-- The digits of a piece and the name of the command stay within the limits. -/
theorem chunk_framed {chunk : Bytes} (within : chunk.length ≤ replicationChunkSize) :
    Framed [chunkCommand, hexEncode chunk] replicationReadLimits := by
  apply framed_of_sum (by simp) (by simp)
  simp only [List.map_cons, List.map_nil, List.sum_cons, List.sum_nil, utf8Bytes_hexEncode, utf8_digits_length]
  rw [maxReplicationFrameBulkSize]
  omega

theorem readReplicationChunk_frame {chunk rest : Bytes} (filled : chunk ≠ [])
    (within : chunk.length ≤ replicationChunkSize) {reader : Reader UInt8}
    (begins : reader.stream = encodeReplicationCommand [chunkCommand, hexEncode chunk] ++ rest) :
    ∃ after, readReplicationChunk chunkCommand reader = .ready (.ok ⟨chunk, filled, within⟩) after ∧
      after.stream = rest := by
  obtain ⟨after, returned, left⟩ := readReplicationFrame_frame (chunk_framed name within) begins
    "Master disconnected during a chunked replication record" "Unable to read a replication chunk"
  refine ⟨after, ?_, left⟩
  rw [readReplicationChunk, bind_ready returned]
  simp only [replicationChunk, hexDecode_hexEncode, bind, Except.bind, ne_eq, not_true_eq_false, if_false]
  rw [dif_pos ⟨filled, within⟩]
  rfl

/-- The frames of the pieces that are left bring the payload to its announced length. -/
theorem readReplicationChunks_frames {expectedLength : Nat} (bounded : expectedLength ≤ usizeMax)
    {pieces : List Bytes} (valid : ∀ piece ∈ pieces, piece ≠ [] ∧ piece.length ≤ replicationChunkSize)
    {payload rest : Bytes} (announced : payload.length + pieces.flatten.length = expectedLength)
    {reader : Reader UInt8} (begins : reader.stream = (pieces.flatMap fun piece =>
      encodeReplicationCommand [chunkCommand, hexEncode piece]) ++ rest) :
    ∃ after, readReplicationChunks expectedLength chunkCommand payload reader =
        .ready (.ok (payload ++ pieces.flatten)) after ∧ after.stream = rest := by
  induction pieces generalizing payload reader with
  | nil =>
      rw [List.flatten_nil, List.length_nil] at announced
      refine ⟨reader, ?_, begins⟩
      rw [readReplicationChunks, dif_neg (by omega), List.flatten_nil, List.append_nil]
  | cons piece pieces later =>
      obtain ⟨filled, within⟩ := valid piece List.mem_cons_self
      rw [List.flatMap_cons, List.append_assoc] at begins
      rw [List.flatten_cons, List.length_append] at announced
      obtain ⟨next, returned, left⟩ := readReplicationChunk_frame name filled within begins
      have long := List.length_pos_iff.mpr filled
      obtain ⟨after, whole, final⟩ := @later (fun other member => valid other (List.mem_cons_of_mem _ member))
        (payload ++ piece) (by rw [List.length_append]; omega) next left
      refine ⟨after, ?_, final⟩
      rw [readReplicationChunks, dif_pos (by omega), returned]
      simp only [checkedAdd_some (show payload.length + piece.length ≤ usizeMax by omega)]
      rw [if_neg (by omega), whole, List.flatten_cons, List.append_assoc]

/-- The frames behind a header are read as the payload. -/
theorem readChunkedReplicationPayload_frames {payload rest : Bytes} (filled : payload ≠ []) {maximumLength : Nat}
    (within : payload.length ≤ maximumLength) (bounded : maximumLength ≤ usizeMax) {reader : Reader UInt8}
    (begins : reader.stream = ((chunks replicationChunkSize payload).flatMap fun chunk =>
      encodeReplicationCommand [chunkCommand, hexEncode chunk]) ++ rest) :
    ∃ after, readChunkedReplicationPayload payload.length maximumLength chunkCommand reader =
        .ready (.ok payload) after ∧ after.stream = rest := by
  have whole := @chunks_flatten _ replicationChunkSize (by decide) payload
  have long := List.length_pos_iff.mpr filled
  rw [readChunkedReplicationPayload, if_neg (by omega)]
  have read := @readReplicationChunks_frames _ name payload.length (by omega) (chunks replicationChunkSize payload)
    (fun _ member => chunks_length member) [] rest (by rw [whole, List.length_nil, Nat.zero_add]) reader begins
  rw [whole, List.nil_append] at read
  exact read

end Chunks

section Records
variable [Platform]

/-- What `encode_replication_effect` has checked. -/
theorem encodeReplicationEffect_ok {sequence : Nat} {batch : CommittedBatch} {record : ChunkedReplicationRecord}
    (encoded : encodeReplicationEffect sequence batch = .ok record) :
    ∃ payload, sequence ≠ 0 ∧ encodeCommittedBatch batch = .ok payload ∧
      payload.length ≤ maxBinlogRecordSize ∧
      record = ⟨["APPLYEFFECT", decimalText sequence, decimalText payload.length], "EFFECTCHUNK", payload⟩ := by
  unfold encodeReplicationEffect at encoded
  split at encoded
  · cases encoded
  next positive =>
    obtain ⟨payload, written, encoded⟩ := Persistence.Codec.bind_ok encoded
    refine ⟨payload, positive, written, ?_⟩
    split at encoded
    · cases encoded
    next small =>
      cases encoded
      exact ⟨Nat.le_of_not_lt small, rfl⟩

theorem encodeFullSyncEntry_ok {key : Bytes} {entry : DataEntry} {record : ChunkedReplicationRecord}
    (encoded : encodeFullSyncEntry key entry = .ok record) :
    ∃ payload, encodeSnapshotEntry key (.ofDataEntry entry) = .ok payload ∧
      payload.length ≤ maxSnapshotRecordSize ∧
      record = ⟨["FULLSYNCENTRY", decimalText payload.length], "FULLSYNCCHUNK", payload⟩ := by
  obtain ⟨payload, written, encoded⟩ := Persistence.Codec.bind_ok encoded
  cases encoded
  exact ⟨payload, written, Persistence.Recovery.encodeSnapshotEntry_bounds written, rfl⟩

end Records

section RoundTrip

/-- The other side accepts every frame of a record, each as the command that was written. -/
def Accepted (record : ChunkedReplicationRecord) : Prop :=
  ∀ frame ∈ record.frames, ∀ (rest : Bytes) (reader : Reader UInt8),
    reader.stream = encodeReplicationCommand frame ++ rest →
      ∃ after, readReplicationCommand reader = .ready (.ok (some frame)) after ∧ after.stream = rest

theorem accepted_of_framed {record : ChunkedReplicationRecord} (header : Framed record.header replicationReadLimits)
    (name : (utf8Bytes record.chunkCommand).length ≤ 64) : Accepted record := by
  intro frame member rest reader begins
  rcases List.mem_cons.mp member with rfl | piece
  · exact readReplicationCommand_frame header begins
  · obtain ⟨chunk, listed, rfl⟩ := List.mem_map.mp piece
    exact readReplicationCommand_frame (chunk_framed name (chunks_length listed).2) begins

theorem writeChunkedReplicationRecord_eq (record : ChunkedReplicationRecord) :
    writeChunkedReplicationRecord record = encodeReplicationCommand record.header ++
      (chunks replicationChunkSize record.payload).flatMap fun chunk =>
        encodeReplicationCommand [record.chunkCommand, hexEncode chunk] := by
  rw [writeChunkedReplicationRecord, ChunkedReplicationRecord.frames, List.flatMap_cons, List.flatMap_map]

theorem chunkCommands_short :
    (utf8Bytes "EFFECTCHUNK").length ≤ 64 ∧ (utf8Bytes "FULLSYNCCHUNK").length ≤ 64 := by
  constructor <;> decide

theorem recordLimit_bounded : maxBinlogRecordSize < 2 ^ 64 ∧ maxSnapshotRecordSize < 2 ^ 64 := by
  constructor <;> decide

theorem effectHeader_framed {sequence length : Nat} (bounded : sequence < 2 ^ 64) (within : length < 2 ^ 64) :
    Framed ["APPLYEFFECT", decimalText sequence, decimalText length] replicationReadLimits := by
  have number := decimalText_length bounded
  have size := decimalText_length within
  have name : (utf8Bytes "APPLYEFFECT").length = 11 := by decide
  have limit : maxReplicationFrameBulkSize = 524352 := rfl
  apply framed_of_sum (by simp) (by simp)
  simp only [List.map_cons, List.map_nil, List.sum_cons, List.sum_nil]
  omega

theorem entryHeader_framed {length : Nat} (within : length < 2 ^ 64) :
    Framed ["FULLSYNCENTRY", decimalText length] replicationReadLimits := by
  have size := decimalText_length within
  have name : (utf8Bytes "FULLSYNCENTRY").length = 13 := by decide
  have limit : maxReplicationFrameBulkSize = 524352 := rfl
  apply framed_of_sum (by simp) (by simp)
  simp only [List.map_cons, List.map_nil, List.sum_cons, List.sum_nil]
  omega

variable [Platform]

/-- An effect record is read behind its header, up to its last byte. -/
theorem readReplicationEffect_written {sequence : Nat} {batch : CommittedBatch} {payload rest : Bytes}
    (positive : sequence ≠ 0) (bounded : sequence < 2 ^ 64) (filled : payload ≠ [])
    (within : payload.length ≤ maxBinlogRecordSize) (decodes : decodeCommittedBatch payload = .ok batch)
    {reader : Reader UInt8} (begins : reader.stream = ((chunks replicationChunkSize payload).flatMap fun chunk =>
      encodeReplicationCommand ["EFFECTCHUNK", hexEncode chunk]) ++ rest) :
    ∃ after, readReplicationEffect ["APPLYEFFECT", decimalText sequence, decimalText payload.length] reader =
        .ready (.ok (sequence, batch)) after ∧ after.stream = rest := by
  have limit := recordLimit_bounded.1
  have length := parseNumber_decimalText (show payload.length < 2 ^ 64 by omega) "Invalid replication effect length"
  have number := parseNumber_decimalText bounded "Invalid replication effect sequence"
  obtain ⟨after, returned, left⟩ :=
    readChunkedReplicationPayload_frames chunkCommands_short.1 filled within (by decide) begins
  refine ⟨after, ?_, left⟩
  have effect : decodeReplicationEffect (decimalText sequence) payload = .ok (sequence, batch) := by
    simp only [decodeReplicationEffect, number, bind, Except.bind, decodes]
    rw [if_neg positive]
    rfl
  rw [readReplicationEffect, if_neg (by simp), length]
  have announced : (Reading.lift (.ok payload.length) : Reading UInt8 PersistenceError Nat) reader =
      .ready (.ok payload.length) reader := rfl
  rw [bind_ready announced, bind_ready returned, effect]
  rfl

theorem readFullSyncPayload_written {key : Bytes} {entry : PersistentEntry} {payload rest : Bytes}
    (filled : payload ≠ []) (within : payload.length ≤ maxSnapshotRecordSize)
    (decodes : decodeSnapshotEntry payload = .ok (key, entry))
    {reader : Reader UInt8} (begins : reader.stream = ((chunks replicationChunkSize payload).flatMap fun chunk =>
      encodeReplicationCommand ["FULLSYNCCHUNK", hexEncode chunk]) ++ rest) :
    ∃ after, readFullSyncPayload ["FULLSYNCENTRY", decimalText payload.length] reader =
        .ready (.ok (key, entry)) after ∧ after.stream = rest := by
  have limit := recordLimit_bounded.2
  have length :=
    parseNumber_decimalText (show payload.length < 2 ^ 64 by omega) "Invalid full synchronization entry length"
  obtain ⟨after, returned, left⟩ :=
    readChunkedReplicationPayload_frames chunkCommands_short.2 filled within (by decide) begins
  refine ⟨after, ?_, left⟩
  rw [readFullSyncPayload, if_neg (by simp), length]
  have announced : (Reading.lift (.ok payload.length) : Reading UInt8 PersistenceError Nat) reader =
      .ready (.ok payload.length) reader := rfl
  rw [bind_ready announced, bind_ready returned, decodes]
  rfl

/-- On a connection that goes on with the record, the header is read, then the effect behind it, and
nothing of what follows. -/
def ReadsEffect (record : ChunkedReplicationRecord) (sequence : Nat) (batch : CommittedBatch) : Prop :=
  ∀ (rest : Bytes) (reader : Reader UInt8), reader.stream = writeChunkedReplicationRecord record ++ rest →
    ∃ headed after, readReplicationCommand reader = .ready (.ok (some record.header)) headed ∧
      readReplicationEffect record.header headed = .ready (.ok (sequence, batch)) after ∧ after.stream = rest

/-- On a connection that goes on with the record, the entry is read and nothing of what follows. -/
def ReadsEntry (record : ChunkedReplicationRecord) (key : Bytes) (entry : PersistentEntry) : Prop :=
  ∀ (rest : Bytes) (reader : Reader UInt8), reader.stream = writeChunkedReplicationRecord record ++ rest →
    ∃ after, readFullSyncEntry reader = .ready (.ok (key, entry)) after ∧ after.stream = rest

/-- Whatever the two encoders accept, the other side reads back: every frame is within its limits, and
behind the record it goes on with the bytes that follow. -/
theorem chunkedRecords_roundTrip :
    (∀ (sequence : Nat) (batch : CommittedBatch) (record : ChunkedReplicationRecord), sequence < 2 ^ 64 →
      (∀ effect ∈ batch.effects, StorableEffect effect) →
      (∀ document ∈ CommittedBatch.documents batch,
        Platform.jsonFromSlice (utf8Bytes (Platform.jsonToString document)) = .ok document) →
      encodeReplicationEffect sequence batch = .ok record →
        Accepted record ∧ ReadsEffect record sequence batch) ∧
    ∀ (key : Bytes) (entry : DataEntry) (record : ChunkedReplicationRecord),
      Storable (.ofDataEntry entry) →
      (∀ document, entry.value = .json document →
        Platform.jsonFromSlice (utf8Bytes (Platform.jsonToString document)) = .ok document) →
      encodeFullSyncEntry key entry = .ok record →
        Accepted record ∧ ReadsEntry record key (.ofDataEntry entry) := by
  constructor
  · intro sequence batch record bounded storable inverts encoded
    obtain ⟨payload, positive, written, within, rfl⟩ := encodeReplicationEffect_ok encoded
    have decodes : decodeCommittedBatch payload = .ok batch :=
      (decodeCommittedBatch_written storable written).trans (readBackBatch_inverts inverts)
    have filled : payload ≠ [] := by
      rintro rfl
      cases decodes
    have header := effectHeader_framed bounded (Nat.lt_of_le_of_lt within recordLimit_bounded.1)
    refine ⟨accepted_of_framed header chunkCommands_short.1, ?_⟩
    intro rest reader begins
    rw [writeChunkedReplicationRecord_eq, List.append_assoc] at begins
    obtain ⟨headed, opened, left⟩ := readReplicationCommand_frame header begins
    obtain ⟨after, returned, final⟩ := readReplicationEffect_written positive bounded filled within decodes left
    exact ⟨headed, after, opened, returned, final⟩
  · intro key entry record storable inverts encoded
    obtain ⟨payload, written, within, rfl⟩ := encodeFullSyncEntry_ok encoded
    have decodes : decodeSnapshotEntry payload = .ok (key, .ofDataEntry entry) := by
      rw [decodeSnapshotEntry_written storable written, readBackEntry_inverts inverts]
      rfl
    have filled : payload ≠ [] := Persistence.Recovery.decodeSnapshotEntry_nonempty decodes
    have header := entryHeader_framed (Nat.lt_of_le_of_lt within recordLimit_bounded.2)
    refine ⟨accepted_of_framed header chunkCommands_short.2, ?_⟩
    intro rest reader begins
    rw [writeChunkedReplicationRecord_eq, List.append_assoc] at begins
    obtain ⟨headed, opened, left⟩ := readReplicationFrame_frame header begins
      "Master disconnected during full synchronization" "Unable to read full synchronization entry"
    obtain ⟨after, returned, final⟩ := readFullSyncPayload_written filled within decodes left
    refine ⟨after, ?_, final⟩
    rw [readFullSyncEntry, bind_ready opened, returned]

end RoundTrip

/-- A JSON document that expires, as an effect and as an entry of a full synchronization. -/
theorem chunkedRecords_roundTrip_null :
    letI := Reference.platform (fun bytes =>
      if bytes = utf8Bytes "null" then .ok .null else .error "unsupported")
    (∃ record, encodeReplicationEffect 7 ⟨[.put [107] ⟨.json .null, some 9⟩]⟩ = .ok record ∧
      Accepted record ∧ ReadsEffect record 7 ⟨[.put [107] ⟨.json .null, some 9⟩]⟩) ∧
    ∃ record, encodeFullSyncEntry [107] ⟨.json .null, some 9, 0, 0⟩ = .ok record ∧
      Accepted record ∧ ReadsEntry record [107] ⟨.json .null, some 9⟩ := by
  have roundTrip := @chunkedRecords_roundTrip (Reference.platform (fun bytes =>
    if bytes = utf8Bytes "null" then .ok .null else .error "unsupported"))
  have storable : Storable ⟨.json .null, some 9⟩ := by
    intro expiry expires
    cases expires
    decide
  constructor
  · refine ⟨_, rfl, roundTrip.1 7 _ _ (by decide) ?_ ?_ rfl⟩
    · intro effect member
      obtain rfl := List.mem_singleton.mp member
      exact storable
    · intro document member
      obtain rfl := List.mem_singleton.mp member
      exact if_pos rfl
  · refine ⟨_, rfl, roundTrip.2 [107] ⟨.json .null, some 9, 0, 0⟩ _ storable ?_ rfl⟩
    intro document stored
    cases stored
    exact if_pos rfl

end OnyxDB.Replication.ChunkedRecord
