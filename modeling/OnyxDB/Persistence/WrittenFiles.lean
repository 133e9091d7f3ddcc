import OnyxDB.Persistence.Layout

/-! The files that the server writes can be read back: framed records, prefixes of them that a crash
leaves behind, and snapshots. -/

namespace OnyxDB.Persistence.Recovery
open OnyxDB.Library OnyxDB.Library.BigEndian OnyxDB.Library.Decimal OnyxDB.Engine OnyxDB.Engine.Value
  OnyxDB.Store OnyxDB.Persistence OnyxDB.Persistence.Codec OnyxDB.Persistence.Commit
  OnyxDB.Persistence.Model OnyxDB.Persistence.Record OnyxDB.Persistence.Snapshot

theorem ofBigEndian_writeU32Be {value : Nat} (fits : value < 2 ^ 32) :
    ofBigEndian (writeU32Be value) = value :=
  ofBigEndian_toBigEndian_of_lt (lt_of_lt_of_eq fits (by norm_num))

theorem maxBinlogRecordSize_lt : maxBinlogRecordSize < 2 ^ 32 := by decide

section Records
variable [Platform]

/-- The record inside a frame. -/
def versionedRecord (sequence : Nat) (effectRecord : Bytes) : Bytes :=
  let body := versionedBinlogRecordBody sequence effectRecord (20 + effectRecord.length)
  body ++ writeU32Be (Platform.crc32 body).toNat

theorem framedRecord_eq (sequence : Nat) (effectRecord : Bytes) :
    framedRecord sequence effectRecord =
      writeU32Be (20 + effectRecord.length) ++ versionedRecord sequence effectRecord := rfl

theorem versionedRecord_eq (sequence : Nat) (effectRecord : Bytes) :
    ∃ checksum : Bytes, checksum.length = 4 ∧ versionedRecord sequence effectRecord =
      binlogRecordMagic ++ (writeU32Be (20 + effectRecord.length) ++
        (writeU64Be sequence ++ (effectRecord ++ checksum))) := by
  refine ⟨writeU32Be (Platform.crc32 (versionedBinlogRecordBody sequence effectRecord
    (20 + effectRecord.length))).toNat, writeU32Be_length _, ?_⟩
  simp only [versionedRecord, versionedBinlogRecordBody, List.append_assoc]

theorem versionedRecord_length (sequence : Nat) (effectRecord : Bytes) :
    (versionedRecord sequence effectRecord).length = 20 + effectRecord.length := by
  have framed := framedRecord_length sequence effectRecord
  rw [framedRecord_eq, List.length_append, writeU32Be_length] at framed
  omega

theorem framed_versionedRecord {sequence : Nat} {effectRecord : Bytes}
    (encodable : Encodable sequence effectRecord) :
    Framed (writeU32Be (20 + effectRecord.length)) (versionedRecord sequence effectRecord) := by
  have length := versionedRecord_length sequence effectRecord
  have fits : 20 + effectRecord.length < 2 ^ 32 :=
    lt_of_le_of_lt encodable.bounded maxBinlogRecordSize_lt
  refine ⟨writeU32Be_length _, ?_, by omega, ?_, ?_⟩
  · rw [length, ofBigEndian_writeU32Be fits]
  · rw [length]
    exact encodable.bounded
  · rintro ⟨_, _, differ⟩
    obtain ⟨checksum, _, shape⟩ := versionedRecord_eq sequence effectRecord
    have header : (versionedRecord sequence effectRecord).take 8 =
        binlogRecordMagic ++ writeU32Be (20 + effectRecord.length) := by
      rw [shape, ← List.append_assoc]
      exact List.take_left' (by rw [List.length_append, writeU32Be_length]; rfl)
    have embedded : (binlogRecordMagic ++ writeU32Be (20 + effectRecord.length)).drop 4 =
        writeU32Be (20 + effectRecord.length) := List.drop_left' rfl
    rw [header, embedded, ofBigEndian_writeU32Be fits, length] at differ
    exact differ rfl

/-- Decoding a record gives back its sequence and its payload. -/
theorem decodeBinlogRecord_versionedRecord {sequence : Nat} {effectRecord : Bytes}
    (encodable : Encodable sequence effectRecord) (bounded : sequence < 2 ^ 64)
    (nonempty : effectRecord ≠ []) :
    decodeBinlogRecord (versionedRecord sequence effectRecord) =
      .ok ⟨sequence, effectRecord, .checksummed⟩ := by
  have length := versionedRecord_length sequence effectRecord
  have fits : 20 + effectRecord.length < 2 ^ 32 :=
    lt_of_le_of_lt encodable.bounded maxBinlogRecordSize_lt
  obtain ⟨checksum, width, shape⟩ := versionedRecord_eq sequence effectRecord
  have magic : binlogRecordMagic.isPrefixOf (versionedRecord sequence effectRecord) = true := by
    rw [List.isPrefixOf_iff_prefix, shape]
    exact List.prefix_append _ _
  have bodyLength : (versionedBinlogRecordBody sequence effectRecord
      (20 + effectRecord.length)).length = 16 + effectRecord.length := by
    have total : (versionedRecord sequence effectRecord).length =
        (versionedBinlogRecordBody sequence effectRecord (20 + effectRecord.length)).length + 4 := by
      simp only [versionedRecord, List.length_append, writeU32Be_length]
    omega
  have offset : 20 + effectRecord.length - binlogChecksumSize = 16 + effectRecord.length := by
    rw [binlogChecksumSize]
    omega
  have body : (versionedRecord sequence effectRecord).take (16 + effectRecord.length) =
      versionedBinlogRecordBody sequence effectRecord (20 + effectRecord.length) :=
    List.take_left' bodyLength
  have trailer : (versionedRecord sequence effectRecord).drop (16 + effectRecord.length) =
      writeU32Be (Platform.crc32
        (versionedBinlogRecordBody sequence effectRecord (20 + effectRecord.length))).toNat :=
    List.drop_left' bodyLength
  have fields : (versionedRecord sequence effectRecord).drop binlogRecordMagic.length =
      writeU32Be (20 + effectRecord.length) ++
        (writeU64Be sequence ++ (effectRecord ++ checksum)) := by
    rw [shape]
    exact List.drop_left' rfl
  have sizes : binlogRecordMagic.length + binlogRecordLengthSize + 8 = 16 := rfl
  unfold decodeBinlogRecord
  simp only [magic, if_true, length, offset, body, trailer, fields, sizes,
    ofBigEndian_writeU32Be (UInt32.toNat_lt _), readU32Be_writeU32Be fits, ne_eq,
    not_true_eq_false, if_false]
  rw [if_neg (by omega)]
  unfold decodeSequencedEffects
  rw [readU64Be_writeU64Be bounded]
  have payload : (effectRecord ++ checksum).take
      ((effectRecord ++ checksum).length - binlogChecksumSize) = effectRecord := by
    apply List.take_left'
    rw [List.length_append, width, binlogChecksumSize]
    omega
  have room : ¬ (effectRecord ++ checksum).length < binlogChecksumSize := by
    rw [List.length_append, width, binlogChecksumSize]
    omega
  simp only [encodable.positive, if_false, room, payload, List.isEmpty_iff, nonempty]

theorem decodeCommittedBatch_nonempty {payload : Bytes} {batch : CommittedBatch}
    (decodes : decodeCommittedBatch payload = .ok batch) : payload ≠ [] := by
  rintro rfl
  cases decodes

theorem readLogRecord_versionedRecord {sequence : Nat} {payload : Bytes} {batch : CommittedBatch}
    (encodable : Encodable sequence payload) (bounded : sequence < 2 ^ 64)
    (decodes : decodeCommittedBatch payload = .ok batch) :
    readLogRecord (versionedRecord sequence payload) = .ok ⟨sequence, batch, .checksummed⟩ :=
  readLogRecord_ok.mpr ⟨_, decodeBinlogRecord_versionedRecord encodable bounded
    (decodeCommittedBatch_nonempty decodes), decodes, rfl, rfl⟩

/-- A framed record is read as the record it encodes. -/
theorem Reads.framed {sequence : Nat} {payload rest tail : Bytes} {batch : CommittedBatch}
    {logs : List LogRecord} (encodable : Encodable sequence payload) (bounded : sequence < 2 ^ 64)
    (decodes : decodeCommittedBatch payload = .ok batch) (later : Reads rest logs tail) :
    Reads (framedRecord sequence payload ++ rest) (⟨sequence, batch, .checksummed⟩ :: logs) tail := by
  refine .record (nextBinlogRecord_some.mpr ⟨_, framed_versionedRecord encodable, ?_⟩)
    (readLogRecord_versionedRecord encodable bounded decodes) later
  rw [framedRecord_eq, List.append_assoc]

theorem reads_deletion {sequence : Nat} (positive : sequence ≠ 0) (bounded : sequence < 2 ^ 64) :
    Reads (framedRecord sequence deletePayload)
      [⟨sequence, ⟨[.delete [107]]⟩, .checksummed⟩] [] := by
  have decodes : decodeCommittedBatch deletePayload = .ok ⟨[.delete [107]]⟩ := rfl
  have encodable : Encodable sequence deletePayload := ⟨positive, by decide⟩
  have framed := Reads.framed encodable bounded decodes Reads.nil
  rwa [List.append_nil] at framed

end Records

section Header

/-- The header line without its newline. -/
def headerText (watermark : Nat) : List Char :=
  ['\t'].intercalate [snapshotMagic, Nat.toDigits 10 snapshotVersion, Nat.toDigits 10 watermark]

theorem snapshotHeader_eq (watermark : Nat) : snapshotHeader watermark = headerText watermark ++ ['\n'] := by
  simp [snapshotHeader, headerText, List.intercalate]

/-- The characters of a header are letters, tabs and digits. -/
theorem headerText_char (watermark : Nat) :
    ∀ char ∈ headerText watermark, char.isDigit = true ∨ char = '\t' ∨ char ∈ snapshotMagic := by
  intro char member
  have digits {value : Nat} (listed : char ∈ Nat.toDigits 10 value) : char.isDigit = true :=
    Nat.isDigit_of_mem_toDigits (by decide) (by decide) listed
  simp only [headerText, List.intercalate, List.intersperse, List.flatten_cons, List.flatten_nil,
    List.mem_append, List.mem_singleton, List.append_nil] at member
  rcases member with magic | tab | version | tab | number
  · exact Or.inr (Or.inr magic)
  · exact Or.inr (Or.inl tab)
  · exact Or.inl (digits version)
  · exact Or.inr (Or.inl tab)
  · exact Or.inl (digits number)

theorem isDigit_bounds {char : Char} (digit : char.isDigit = true) : 48 ≤ char.val ∧ char.val ≤ 57 := by
  simpa [Char.isDigit, UInt32.le_iff_toNat_le] using digit

/-- Every character of a header is one byte other than a newline. -/
theorem headerText_byte (watermark : Nat) :
    ∀ char ∈ headerText watermark, char.val ≤ 127 ∧ char ≠ '\n' ∧ char ≠ '\r' := by
  intro char member
  rcases headerText_char watermark char member with digit | rfl | magic
  · have bounds := isDigit_bounds digit
    refine ⟨UInt32.le_trans bounds.2 (by decide : (57 : UInt32) ≤ 127), ?_, ?_⟩
    · rintro rfl
      exact absurd bounds.1 (by decide)
    · rintro rfl
      exact absurd bounds.1 (by decide)
  · decide
  · have letters : snapshotMagic.all (fun char =>
        decide (char.val ≤ 127 ∧ char ≠ '\n' ∧ char ≠ '\r')) = true := rfl
    exact of_decide_eq_true (List.all_eq_true.mp letters char magic)

theorem headerText_length {watermark : Nat} (bounded : watermark < 2 ^ 64) :
    (headerText watermark).length ≤ 31 := by
  have digits : (Nat.toDigits 10 watermark).length ≤ 20 :=
    (Nat.length_toDigits_le_iff (by decide) (by decide)).mpr (bounded.trans (by decide))
  have version : (Nat.toDigits 10 snapshotVersion).length = 1 := by decide
  have magic : snapshotMagic.length = 8 := by decide
  simp only [headerText, List.intercalate, List.intersperse, List.flatten_cons, List.flatten_nil,
    List.length_append, List.length_singleton, List.length_nil, version, magic]
  omega

theorem encode_ascii {char : Char} (small : char.val ≤ 127) :
    String.utf8EncodeChar char = [char.val.toUInt8] :=
  String.utf8EncodeChar_eq_singleton (Char.utf8Size_eq_one_iff.mpr small)

theorem encode_ascii_list {text : List Char} (small : ∀ char ∈ text, char.val ≤ 127) :
    text.flatMap String.utf8EncodeChar = text.map (fun char => char.val.toUInt8) := by
  induction text with
  | nil => rfl
  | cons char text rest =>
      rw [List.flatMap_cons, List.map_cons, encode_ascii (small char List.mem_cons_self),
        rest (fun char member => small char (List.mem_cons_of_mem _ member))]
      rfl

theorem headerText_bytes (watermark : Nat) :
    (headerText watermark).flatMap String.utf8EncodeChar =
        (headerText watermark).map (fun char => char.val.toUInt8) ∧
      ∀ byte ∈ (headerText watermark).flatMap String.utf8EncodeChar, (byte != newline) = true := by
  have same := encode_ascii_list (fun char member => (headerText_byte watermark char member).1)
  refine ⟨same, ?_⟩
  intro byte member
  rw [same] at member
  obtain ⟨char, listed, rfl⟩ := List.mem_map.mp member
  obtain ⟨small, line, _⟩ := headerText_byte watermark char listed
  rw [bne_iff_ne]
  intro equal
  apply line
  apply Char.ext
  have values := congrArg UInt8.toNat equal
  have bound : char.val.toNat ≤ 127 := small
  rw [UInt32.toNat_toUInt8, Nat.mod_eq_of_lt (by omega)] at values
  exact UInt32.toNat_inj.mp values

theorem trimLineEnd_header (watermark : Nat) :
    trimLineEnd (headerText watermark ++ ['\n']) = headerText watermark := by
  rw [trimLineEnd, List.rdropWhile_concat_pos _ _ _ (by decide), List.rdropWhile_eq_self_iff]
  intro nonempty
  obtain ⟨_, line, carriage⟩ := headerText_byte watermark _ (List.getLast_mem nonempty)
  simp [line, carriage]

theorem parseMetadataHeader_header {watermark : Nat} (bounded : watermark < 2 ^ 64) :
    parseMetadataHeader (headerText watermark) = .ok (.versioned watermark) := by
  have magic : snapshotMagic.isPrefixOf (headerText watermark) = true := by
    rw [List.isPrefixOf_iff_prefix]
    simp [headerText, List.intercalate]
  have plain {value : Nat} : '\t' ∉ Nat.toDigits 10 value := by
    intro listed
    exact absurd (Nat.isDigit_of_mem_toDigits (by decide) (by decide) listed) (by decide)
  have fields : (headerText watermark).splitOn '\t' =
      [snapshotMagic, Nat.toDigits 10 snapshotVersion, Nat.toDigits 10 watermark] := by
    rw [headerText]
    apply List.splitOn_intercalate
    · intro field member
      simp only [List.mem_cons, List.not_mem_nil, or_false] at member
      rcases member with rfl | rfl | rfl
      · decide
      · exact plain
      · exact plain
    · simp
  have version : parseUnsigned (2 ^ 8) (Nat.toDigits 10 snapshotVersion) = some snapshotVersion :=
    parseUnsigned_toDigits (by decide)
  unfold parseMetadataHeader
  simp only [magic, fields, version, parseUnsigned_toDigits bounded, orError, Bool.not_true,
    Bool.false_eq_true, if_false, ne_eq, not_true_eq_false, bind, Except.bind, pure, Except.pure]

/-- The first line of a snapshot stream is its header. -/
theorem readBoundedUtf8Line_header {watermark : Nat} (bounded : watermark < 2 ^ 64) (rest : Bytes) :
    readBoundedUtf8Line
        ⟨(snapshotHeader watermark).flatMap String.utf8EncodeChar ++ rest, none⟩ maxSnapshotMetadataSize =
      .ok (some (headerText watermark), ⟨rest, none⟩) := by
  obtain ⟨bytes, clean⟩ := headerText_bytes watermark
  have length : ((headerText watermark).flatMap String.utf8EncodeChar).length ≤ 31 := by
    rw [bytes, List.length_map]
    exact headerText_length bounded
  have shape : (snapshotHeader watermark).flatMap String.utf8EncodeChar =
      (headerText watermark).flatMap String.utf8EncodeChar ++ [newline] := by
    rw [snapshotHeader_eq, List.flatMap_append]
    rfl
  have decoded := decodeUtf8_encode (snapshotHeader watermark)
  rw [shape, snapshotHeader_eq] at decoded
  generalize (headerText watermark).flatMap String.utf8EncodeChar = line at *
  have window : (line ++ [newline] ++ rest).take (maxSnapshotMetadataSize + 1) =
      line ++ newline :: rest.take (maxSnapshotMetadataSize - line.length) := by
    rw [List.append_assoc, List.singleton_append, List.take_append, List.take_of_length_le
      (by rw [maxSnapshotMetadataSize]; omega),
      show maxSnapshotMetadataSize + 1 - line.length = maxSnapshotMetadataSize - line.length + 1 by
        rw [maxSnapshotMetadataSize]; omega, List.take_succ_cons]
  have until_ : (line ++ newline :: rest.take (maxSnapshotMetadataSize - line.length)).takeWhile
      (fun byte => byte != newline) = line := by
    rw [List.takeWhile_append_of_pos clean, List.takeWhile_cons_of_neg (by simp), List.append_nil]
  have shorter : line.length <
      (line ++ newline :: rest.take (maxSnapshotMetadataSize - line.length)).length := by
    rw [List.length_append, List.length_cons]
    omega
  have left : (line ++ [newline] ++ rest).drop (line.length + 1) = rest :=
    List.drop_left' (by simp)
  have small : ¬ (line ++ [newline]).length > maxSnapshotMetadataSize := by
    rw [List.length_append, List.length_singleton, maxSnapshotMetadataSize]
    omega
  have nonempty : (line ++ [newline]).isEmpty = false := by simp
  unfold readBoundedUtf8Line Stream.readUntilNewline
  rw [shape]
  simp only [window, until_, shorter, if_true, left, bind, Except.bind, nonempty, Bool.false_eq_true,
    if_false, small, decoded, orError, pure, Except.pure, trimLineEnd_header]

end Header

/-- The stream that holds some records. -/
def recordStream (records : List Bytes) : Bytes :=
  records.flatMap (fun record => writeU32Be record.length ++ record)

theorem recordStream_length (records : List Bytes) : records.length ≤ (recordStream records).length := by
  induction records with
  | nil => simp
  | cons record records rest =>
      have stream : recordStream (record :: records) =
          writeU32Be record.length ++ record ++ recordStream records := List.flatMap_cons
      rw [stream, List.length_cons, List.length_append, List.length_append, writeU32Be_length]
      omega

section Snapshots
variable [Platform]

/-- The decompressor inverts the compressor. -/
def GzipRoundTrips : Prop := ∀ bytes, Platform.gunzip (Platform.gzip bytes) = (bytes, none)

/-- An entry whose encoding decodes to it. -/
def EntryRoundTrips (key : Bytes) (entry : PersistentEntry) : Prop :=
  ∀ record, encodeSnapshotEntry key entry = .ok record → decodeSnapshotEntry record = .ok (key, entry)

theorem encodeSnapshotEntry_bounds {key : Bytes} {entry : PersistentEntry} {record : Bytes}
    (encoded : encodeSnapshotEntry key entry = .ok record) :
    record.length ≤ maxSnapshotRecordSize := by
  unfold encodeSnapshotEntry at encoded
  cases first : appendSnapshotBytes [] key with
  | error failure => simp [first, bind, Except.bind] at encoded
  | ok start =>
      cases second : appendSnapshotValue (start ++ writeU64Be (entry.expiresAt.getD 0)) entry.value with
      | error failure => simp [first, second, bind, Except.bind] at encoded
      | ok whole =>
          simp only [first, second, bind, Except.bind] at encoded
          split at encoded
          · cases encoded
          next small =>
            cases encoded
            omega

theorem decodeSnapshotEntry_nonempty {record : Bytes} {result : Bytes × PersistentEntry}
    (decodes : decodeSnapshotEntry record = .ok result) : record ≠ [] := by
  rintro rfl
  cases decodes

/-- A snapshot file holds its header and the encoded entries. -/
theorem snapshotFile_ok {entries : List (Bytes × DataEntry)} {watermark : Nat} {file : Bytes}
    (written : snapshotFile entries watermark = .ok file) :
    ∃ records, List.Forall₂ (fun entry record =>
        encodeSnapshotEntry entry.1 (.ofDataEntry entry.2) = .ok record) entries records ∧
      file = Platform.gzip ((snapshotHeader watermark).flatMap String.utf8EncodeChar ++
        recordStream records) := by
  have collected : ∀ (entries : List (Bytes × DataEntry)) (start stream : Bytes),
      entries.foldlM appendSnapshotRecord start = .ok stream →
        ∃ records, List.Forall₂ (fun entry record =>
          encodeSnapshotEntry entry.1 (.ofDataEntry entry.2) = .ok record) entries records ∧
            stream = start ++ recordStream records := by
    intro entries
    induction entries with
    | nil =>
        intro start stream same
        cases same
        exact ⟨[], .nil, by simp [recordStream]⟩
    | cons entry entries rest =>
        intro start stream folded
        rw [List.foldlM_cons] at folded
        cases encoded : encodeSnapshotEntry entry.1 (.ofDataEntry entry.2) with
        | error failure => simp [appendSnapshotRecord, encoded, bind, Except.bind] at folded
        | ok record =>
            have fits : record.length < 2 ^ 32 :=
              lt_of_le_of_lt (encodeSnapshotEntry_bounds encoded) (by decide)
            simp only [appendSnapshotRecord, encoded, collectionCount, if_pos fits, bind, Except.bind,
              pure, Except.pure] at folded
            obtain ⟨records, listed, rfl⟩ := rest _ stream folded
            refine ⟨record :: records, .cons encoded listed, ?_⟩
            simp [recordStream]
  unfold snapshotFile at written
  cases folded : entries.foldlM appendSnapshotRecord
      ((snapshotHeader watermark).flatMap String.utf8EncodeChar) with
  | error failure => simp [folded, bind, Except.bind] at written
  | ok stream =>
      simp only [folded, bind, Except.bind, pure, Except.pure, Except.ok.injEq] at written
      obtain ⟨records, listed, rfl⟩ := collected entries _ stream folded
      exact ⟨records, listed, written.symm⟩

theorem readSnapshotRecord_cons {record rest : Bytes} {entry : Bytes × PersistentEntry}
    (small : record.length ≤ maxSnapshotRecordSize) (decodes : decodeSnapshotEntry record = .ok entry) :
    readSnapshotRecord ⟨writeU32Be record.length ++ record ++ rest, none⟩ =
      .ok (some entry, ⟨rest, none⟩) := by
  have fits : record.length < 2 ^ 32 := lt_of_le_of_lt small (by decide)
  have positive : record.length ≠ 0 := by
    intro empty
    exact decodeSnapshotEntry_nonempty decodes (List.length_eq_zero_iff.mp empty)
  have present : ¬ ((writeU32Be record.length ++ record ++ rest).isEmpty = true ∧
      (none : Option String).isNone = true) := by
    have long : (writeU32Be record.length).length = 4 := writeU32Be_length _
    cases shape : writeU32Be record.length with
    | nil =>
        rw [shape] at long
        cases long
    | cons byte bytes => simp
  have four : ¬ (writeU32Be record.length ++ record ++ rest).length < 4 := by
    rw [List.append_assoc, List.length_append, writeU32Be_length]
    omega
  have header : (writeU32Be record.length ++ record ++ rest).take 4 = writeU32Be record.length := by
    rw [List.append_assoc]
    exact List.take_left' (writeU32Be_length _)
  have body : (writeU32Be record.length ++ record ++ rest).drop 4 = record ++ rest := by
    rw [List.append_assoc]
    exact List.drop_left' (writeU32Be_length _)
  have enough : ¬ (record ++ rest).length < record.length := by
    rw [List.length_append]
    omega
  have valid : ¬ (record.length = 0 ∨ record.length > maxSnapshotRecordSize) := by omega
  unfold readSnapshotRecord
  rw [if_neg present]
  simp only [Stream.readExact, four, if_false, header, body, ofBigEndian_writeU32Be fits, bind,
    Except.bind, valid, enough, List.take_left' rfl, List.drop_left' rfl, decodes, pure, Except.pure]

theorem readSnapshotRecords_stream {entries : List (Bytes × PersistentEntry)} {records : List Bytes}
    (matched : List.Forall₂ (fun entry record => record.length ≤ maxSnapshotRecordSize ∧
      decodeSnapshotEntry record = .ok entry) entries records) (fuel : Nat)
    (enough : records.length < fuel) :
    readSnapshotRecords fuel ⟨recordStream records, none⟩ = .ok entries := by
  induction matched generalizing fuel with
  | nil =>
      cases fuel with
      | zero => cases enough
      | succ fuel => rfl
  | @cons entry record entries records here _ rest =>
      cases fuel with
      | zero => cases enough
      | succ fuel =>
          have stream : recordStream (record :: records) =
              writeU32Be record.length ++ record ++ recordStream records := List.flatMap_cons
          rw [stream, readSnapshotRecords, readSnapshotRecord_cons here.1 here.2]
          simp only [bind, Except.bind]
          rw [rest fuel (by simpa using enough)]
          rfl

/-- A snapshot that the server writes is read back: its watermark and its entries. -/
theorem snapshotFile_reads {entries : List (Bytes × DataEntry)} {watermark : Nat} {file : Bytes}
    (gzip : GzipRoundTrips) (written : snapshotFile entries watermark = .ok file)
    (bounded : watermark < 2 ^ 64)
    (roundTrips : ∀ entry ∈ entries, EntryRoundTrips entry.1 (.ofDataEntry entry.2)) :
    inspectSnapshot (some file) = .ok (.versioned watermark) ∧
      snapshotEntries file = .ok (entries.map (fun entry => (entry.1, .ofDataEntry entry.2))) := by
  obtain ⟨records, listed, rfl⟩ := snapshotFile_ok written
  have opened : Stream.open (Platform.gzip ((snapshotHeader watermark).flatMap String.utf8EncodeChar ++
      recordStream records)) = ⟨(snapshotHeader watermark).flatMap String.utf8EncodeChar ++
        recordStream records, none⟩ := by
    rw [Stream.open, gzip]
  have header := readBoundedUtf8Line_header bounded (recordStream records)
  have matched : List.Forall₂ (fun entry record => record.length ≤ maxSnapshotRecordSize ∧
      decodeSnapshotEntry record = .ok entry)
      (entries.map (fun entry => (entry.1, PersistentEntry.ofDataEntry entry.2))) records := by
    clear written opened header
    induction listed with
    | nil => exact .nil
    | cons encoded _ rest =>
        refine .cons ⟨encodeSnapshotEntry_bounds encoded, roundTrips _ List.mem_cons_self _ encoded⟩
          (rest (fun entry member => roundTrips entry (List.mem_cons_of_mem _ member)))
  constructor
  · simp only [inspectSnapshot, opened, header, bind, Except.bind, orError,
      parseMetadataHeader_header bounded]
  · simp only [snapshotEntries, opened, header, bind, Except.bind, orError]
    exact readSnapshotRecords_stream matched _ (by have := recordStream_length records; omega)

/-- Loading a snapshot that the server wrote installs its entries. -/
theorem loadSnapshotEntries_file {entries : List (Bytes × DataEntry)} {watermark : Nat} {file : Bytes}
    (store : ShardedStore) (gzip : GzipRoundTrips) (written : snapshotFile entries watermark = .ok file)
    (bounded : watermark < 2 ^ 64)
    (roundTrips : ∀ entry ∈ entries, EntryRoundTrips entry.1 (.ofDataEntry entry.2)) :
    loadSnapshotEntries store (some file) (.versioned watermark) =
      .ok (installSnapshotEntries store (entries.map (fun entry => (entry.1, .ofDataEntry entry.2)))) := by
  simp only [loadSnapshotEntries, (snapshotFile_reads gzip written bounded roundTrips).2, bind,
    Except.bind, pure, Except.pure]

end Snapshots

end OnyxDB.Persistence.Recovery
