import OnyxDB.Library.BigEndian
import OnyxDB.Engine.Platform
import OnyxDB.Persistence.Model

/-! Framing of binlog records: an outer length, then `ONX4`, the embedded length, the sequence, the
committed-effect payload and a checksum over all of it but the outer length. -/

namespace OnyxDB.Persistence.Record
open OnyxDB.Library.BigEndian OnyxDB.Engine OnyxDB.Engine.Value OnyxDB.Persistence.Model

/-- `ONX4`. -/
def binlogRecordMagic : Bytes := [79, 78, 88, 52]

/-- `ONX3`. -/
def checksumlessBinlogRecordMagic : Bytes := [79, 78, 88, 51]

/-- `ONX2`. -/
def previousBinlogRecordMagic : Bytes := [79, 78, 88, 50]

def binlogChecksumSize : Nat := 4

def binlogRecordLengthSize : Nat := 4

def maxBinlogRecordSize : Nat := 512 * 1024 * 1024 + 1024

def maxSnapshotRecordSize : Nat := 512 * 1024 * 1024 + 1024

def writeU32Be (value : Nat) : Bytes := toBigEndian 4 value

def writeU64Be (value : Nat) : Bytes := toBigEndian 8 value

/-- Reads a big-endian number of `width` bytes and returns the bytes after it. -/
def readBe (width : Nat) (bytes : Bytes) : Option (Nat × Bytes) :=
  if bytes.length < width then none
  else some (ofBigEndian (bytes.take width), bytes.drop width)

def readU32Be (bytes : Bytes) : Option (Nat × Bytes) := readBe 4 bytes

def readU64Be (bytes : Bytes) : Option (Nat × Bytes) := readBe 8 bytes

theorem readBe_toBigEndian {width value : Nat} (fits : value < 256 ^ width) (rest : Bytes) :
    readBe width (toBigEndian width value ++ rest) = some (value, rest) := by
  have long : ¬ (toBigEndian width value ++ rest).length < width := by
    simp
  rw [readBe, if_neg long]
  rw [List.take_left' (toBigEndian_length width value),
    List.drop_left' (toBigEndian_length width value), ofBigEndian_toBigEndian_of_lt fits]

@[simp]
theorem writeU32Be_length (value : Nat) : (writeU32Be value).length = 4 := toBigEndian_length 4 value

@[simp]
theorem writeU64Be_length (value : Nat) : (writeU64Be value).length = 8 := toBigEndian_length 8 value

theorem readU32Be_writeU32Be {value : Nat} (fits : value < 2 ^ 32) (rest : Bytes) :
    readU32Be (writeU32Be value ++ rest) = some (value, rest) :=
  readBe_toBigEndian (lt_of_lt_of_eq fits (by norm_num)) rest

theorem readU64Be_writeU64Be {value : Nat} (fits : value < 2 ^ 64) (rest : Bytes) :
    readU64Be (writeU64Be value ++ rest) = some (value, rest) :=
  readBe_toBigEndian (lt_of_lt_of_eq fits (by norm_num)) rest

/-- Length of an `ONX4` record. The source also guards the additions and the conversion to `u32`
against overflow, which the format limit already excludes. -/
def versionedBinlogRecordLength (sequence effectRecordLength : Nat) : Except PersistenceError Nat :=
  if sequence = 0 then
    .error (.new "Versioned binlog records require a non-zero sequence")
  else
    let recordLength := binlogRecordMagic.length + binlogRecordLengthSize + 8 + effectRecordLength +
      binlogChecksumSize
    if recordLength > maxBinlogRecordSize then
      .error (.new "Binlog record exceeds the format limit")
    else .ok recordLength

def versionedBinlogRecordBody (sequence : Nat) (effectRecord : Bytes) (recordLength : Nat) : Bytes :=
  binlogRecordMagic ++ writeU32Be recordLength ++ writeU64Be sequence ++ effectRecord

def framedVersionedBinlogRecordLength (effectRecordLength : Nat) : Except PersistenceError Nat := do
  let recordLength ← versionedBinlogRecordLength 1 effectRecordLength
  return recordLength + binlogRecordLengthSize

theorem versionedBinlogRecordLength_eq {sequence length : Nat} (positive : sequence ≠ 0)
    (bounded : 20 + length ≤ maxBinlogRecordSize) :
    versionedBinlogRecordLength sequence length = .ok (20 + length) := by
  have total : binlogRecordMagic.length + binlogRecordLengthSize + 8 + length + binlogChecksumSize =
      20 + length := by
    simp only [binlogRecordMagic, binlogRecordLengthSize, binlogChecksumSize, List.length_cons,
      List.length_nil]
    omega
  rw [versionedBinlogRecordLength, if_neg positive, total, if_neg (by omega)]

theorem versionedBinlogRecordLength_ok {sequence length recordLength : Nat}
    (accepted : versionedBinlogRecordLength sequence length = .ok recordLength) :
    sequence ≠ 0 ∧ 20 + length ≤ maxBinlogRecordSize ∧ recordLength = 20 + length := by
  unfold versionedBinlogRecordLength at accepted
  split at accepted
  · cases accepted
  next positive =>
    dsimp only at accepted
    split at accepted
    · cases accepted
    next bounded =>
      simp only [binlogRecordMagic, binlogRecordLengthSize, binlogChecksumSize, List.length_cons,
        List.length_nil, Except.ok.injEq] at accepted bounded
      refine ⟨positive, ?_, ?_⟩ <;> omega

inductive BinlogRecordIntegrity where
  | checksummed
  | checksumlessLegacy
  deriving DecidableEq, Repr

structure DecodedBinlogRecord where
  sequence : Nat
  effects : Bytes
  integrity : BinlogRecordIntegrity
  deriving DecidableEq, Repr

/-- The payload of a batch that deletes the key `k`. -/
def deletePayload : Bytes := [0, 0, 0, 1, 2, 0, 0, 0, 1, 107]

variable [Platform]

def encodeVersionedBinlogRecordInto (sequence : Nat) (effectRecord output : Bytes) :
    Except PersistenceError Bytes := do
  let recordLength ← versionedBinlogRecordLength sequence effectRecord.length
  let body := versionedBinlogRecordBody sequence effectRecord recordLength
  return output ++ body ++ writeU32Be (Platform.crc32 body).toNat

def encodeFramedVersionedBinlogRecordInto (sequence : Nat) (effectRecord output : Bytes) :
    Except PersistenceError Bytes := do
  let recordLength ← versionedBinlogRecordLength sequence effectRecord.length
  encodeVersionedBinlogRecordInto sequence effectRecord (output ++ writeU32Be recordLength)

/-- Reads the sequence and the payload of a record, given the bytes from its sequence field on;
`trailer` is the number of bytes after the payload. -/
def decodeSequencedEffects (fields : Bytes) (trailer : Nat) (integrity : BinlogRecordIntegrity) :
    Except PersistenceError DecodedBinlogRecord :=
  match readU64Be fields with
  | none => .error (.new "Truncated versioned binlog record header")
  | some (sequence, rest) =>
      if sequence = 0 then
        .error (.new "Versioned binlog records must have a non-zero sequence")
      else if rest.length < trailer then
        .error (.new "Missing committed-effect payload")
      else
        let effects := rest.take (rest.length - trailer)
        if effects.isEmpty then
          .error (.new "Versioned binlog record contains an empty committed-effect payload")
        else .ok ⟨sequence, effects, integrity⟩

def decodeBinlogRecord (record : Bytes) : Except PersistenceError DecodedBinlogRecord :=
  if binlogRecordMagic.isPrefixOf record then
    let checksumOffset := record.length - binlogChecksumSize
    if checksumOffset < binlogRecordMagic.length + binlogRecordLengthSize + 8 then
      .error (.new "Truncated checksummed binlog record")
    else
      let expectedChecksum := ofBigEndian (record.drop checksumOffset)
      let actualChecksum := (Platform.crc32 (record.take checksumOffset)).toNat
      if actualChecksum ≠ expectedChecksum then
        .error (.new "Binlog record checksum mismatch")
      else
        match readU32Be (record.drop binlogRecordMagic.length) with
        | none => .error (.new "Missing embedded binlog record length")
        | some (embeddedLength, fields) =>
            if embeddedLength ≠ record.length then
              .error (.new s!"Binlog record length mismatch: outer length {record.length}, embedded length {embeddedLength}")
            else decodeSequencedEffects fields binlogChecksumSize .checksummed
  else if checksumlessBinlogRecordMagic.isPrefixOf record then
    decodeSequencedEffects (record.drop checksumlessBinlogRecordMagic.length) 0 .checksumlessLegacy
  else
    let format := if previousBinlogRecordMagic.isPrefixOf record then "ONX2 command records"
      else "legacy command records"
    .error (.new s!"Unsupported unsafe binlog format: {format}")

/-- The bytes of one framed record, without the checks the encoder makes. -/
def framedRecord (sequence : Nat) (effectRecord : Bytes) : Bytes :=
  let recordLength := 20 + effectRecord.length
  let body := versionedBinlogRecordBody sequence effectRecord recordLength
  writeU32Be recordLength ++ (body ++ writeU32Be (Platform.crc32 body).toNat)

/-- The records the encoder accepts. -/
structure Encodable (sequence : Nat) (effectRecord : Bytes) : Prop where
  positive : sequence ≠ 0
  bounded : 20 + effectRecord.length ≤ maxBinlogRecordSize

/-- The encoder appends exactly `framedRecord`, and accepts exactly the `Encodable` records. -/
theorem encodeFramed_eq_ok_iff (sequence : Nat) (effectRecord output result : Bytes) :
    encodeFramedVersionedBinlogRecordInto sequence effectRecord output = .ok result ↔
      Encodable sequence effectRecord ∧ result = output ++ framedRecord sequence effectRecord := by
  constructor
  · intro accepted
    unfold encodeFramedVersionedBinlogRecordInto encodeVersionedBinlogRecordInto at accepted
    cases measured : versionedBinlogRecordLength sequence effectRecord.length with
    | error failure =>
        rw [measured] at accepted
        cases accepted
    | ok recordLength =>
        obtain ⟨positive, bounded, length⟩ := versionedBinlogRecordLength_ok measured
        rw [measured] at accepted
        subst length
        cases accepted
        exact ⟨⟨positive, bounded⟩, by simp [framedRecord]⟩
  · rintro ⟨⟨positive, bounded⟩, rfl⟩
    have measured := versionedBinlogRecordLength_eq positive bounded
    simp [encodeFramedVersionedBinlogRecordInto, encodeVersionedBinlogRecordInto, measured,
      framedRecord, bind, Except.bind, pure, Except.pure]

theorem framedRecord_length (sequence : Nat) (effectRecord : Bytes) :
    (framedRecord sequence effectRecord).length = 24 + effectRecord.length := by
  simp only [framedRecord, versionedBinlogRecordBody, List.length_append, writeU32Be_length,
    writeU64Be_length, binlogRecordMagic, List.length_cons, List.length_nil]
  omega

end OnyxDB.Persistence.Record
