import OnyxDB.Library.Hexadecimal
import OnyxDB.Persistence.Codec
import OnyxDB.Protocol.RespEncoding

/-! Records on a replication connection. A record is a header frame that announces its length, and the
payload in frames of hexadecimal digits behind it. -/

namespace OnyxDB.Replication.ChunkedRecord
open OnyxDB.Engine OnyxDB.Engine.Value OnyxDB.Library.Arrival OnyxDB.Library.Decimal
  OnyxDB.Library.Hexadecimal OnyxDB.Persistence.Model OnyxDB.Persistence.Record OnyxDB.Persistence.Codec
  OnyxDB.Protocol

def replicationChunkSize : Nat := 256 * 1024

def maxReplicationFrameBulkSize : Nat := replicationChunkSize * 2 + 64

section Writing

def encodeReplicationCommand (args : List String) : Bytes := commandFrame (args.map utf8Bytes)

def hexEncode (bytes : Bytes) : String := String.ofList (digits bytes)

def hexDecode (encoded : String) : Except PersistenceError Bytes :=
  if (utf8Bytes encoded).length % 2 ≠ 0 then .error (.new "Hex-encoded payload has an odd length")
  else
    match fromDigits (utf8Bytes encoded) with
    | some bytes => .ok bytes
    | none => .error (.new "Invalid hexadecimal payload")

structure ChunkedReplicationRecord where
  header : List String
  chunkCommand : String
  payload : Bytes
  deriving DecidableEq, Repr

/-- The commands of a record, in the order they are written. -/
def ChunkedReplicationRecord.frames (record : ChunkedReplicationRecord) : List (List String) :=
  record.header ::
    (chunks replicationChunkSize record.payload).map (fun chunk => [record.chunkCommand, hexEncode chunk])

/-- What `write_chunked_replication_record` puts on the connection. -/
def writeChunkedReplicationRecord (record : ChunkedReplicationRecord) : Bytes :=
  record.frames.flatMap encodeReplicationCommand

/-- `to_string` of an unsigned integer. -/
def decimalText (value : Nat) : String := String.ofList (Nat.toDigits 10 value)

variable [Platform]

def encodeReplicationEffect (sequence : Nat) (batch : CommittedBatch) :
    Except PersistenceError ChunkedReplicationRecord :=
  if sequence = 0 then .error (.new "Replication effects require a non-zero sequence")
  else do
    let payload ← encodeCommittedBatch batch
    if payload.length > maxBinlogRecordSize then
      throw (.new "Replication effect exceeds the format limit")
    return {
      header := ["APPLYEFFECT", decimalText sequence, decimalText payload.length]
      chunkCommand := "EFFECTCHUNK"
      payload }

def encodeFullSyncEntry (key : Bytes) (entry : DataEntry) : Except PersistenceError ChunkedReplicationRecord := do
  let payload ← encodeSnapshotEntry key (.ofDataEntry entry)
  return { header := ["FULLSYNCENTRY", decimalText payload.length], chunkCommand := "FULLSYNCCHUNK", payload }

end Writing

section Reading

/-- The limits of `read_replication_command`. -/
def replicationReadLimits : RESPReadLimits where
  maxArrayLen := 4
  maxBulkLen := maxReplicationFrameBulkSize
  maxInlineLen := 1024
  maxFrameLen := maxReplicationFrameBulkSize + 4096

/-- A frame of a connection that neither side lets time out. -/
def readReplicationCommand : Reading UInt8 IoError (Option (List String)) :=
  readCommandWithLimits replicationReadLimits

def upstreamUnavailable (message : String) : PersistenceError := { message, upstreamUnavailable := true }

def upstreamIoPersistenceError (context : String) (error : IoError) : PersistenceError where
  message := context ++ ": " ++ error.message
  upstreamUnavailable := decide (error.kind ≠ .invalidData)

/-- A frame that has to come: the texts are for a connection that is closed and for one that fails. -/
def readReplicationFrame (disconnected context : String) : Reading UInt8 PersistenceError (List String) :=
  fun reader =>
    match readReplicationCommand reader with
    | .pending => .pending
    | .ready (.ok (some frame)) after => .ready (.ok frame) after
    | .ready (.ok none) after => .ready (.error (upstreamUnavailable disconnected)) after
    | .ready (.error error) after => .ready (.error (upstreamIoPersistenceError context error)) after

/-- A piece of a payload that has passed the checks on its frame. -/
structure ReplicationChunk where
  bytes : Bytes
  filled : bytes ≠ []
  within : bytes.length ≤ replicationChunkSize

/-- The checks of `read_chunked_replication_payload` on one frame. -/
def replicationChunk (chunkCommand : String) (frame : List String) : Except PersistenceError ReplicationChunk :=
  match frame with
  | [command, encoded] =>
      if command ≠ chunkCommand then .error (.new "Master sent an unexpected replication chunk frame")
      else do
        let chunk ← hexDecode encoded
        if fits : chunk ≠ [] ∧ chunk.length ≤ replicationChunkSize then return ⟨chunk, fits.1, fits.2⟩
        else throw (.new "Replication chunk length exceeds the protocol limit")
  | _ => .error (.new "Master sent an unexpected replication chunk frame")

def readReplicationChunk (chunkCommand : String) : Reading UInt8 PersistenceError ReplicationChunk := do
  let frame ← readReplicationFrame "Master disconnected during a chunked replication record"
    "Unable to read a replication chunk"
  Reading.lift (replicationChunk chunkCommand frame)

/-- The loop of `read_chunked_replication_payload`; `payload` is what it has read. -/
def readReplicationChunks (expectedLength : Nat) (chunkCommand : String) (payload : Bytes) :
    Reading UInt8 PersistenceError Bytes := fun reader =>
  if _ : payload.length < expectedLength then
    match readReplicationChunk chunkCommand reader with
    | .pending => .pending
    | .ready (.error error) after => .ready (.error error) after
    | .ready (.ok chunk) after =>
        match checkedAdd payload.length chunk.bytes.length with
        | none => .ready (.error (.new "Replication record length overflow")) after
        | some newLength =>
            if newLength > expectedLength then
              .ready (.error (.new "Replication chunks exceed the declared record length")) after
            else readReplicationChunks expectedLength chunkCommand (payload ++ chunk.bytes) after
  else .ready (.ok payload) reader
termination_by expectedLength - payload.length
decreasing_by
  have long := List.length_pos_iff.mpr chunk.filled
  rw [List.length_append]
  omega

def readChunkedReplicationPayload (expectedLength maximumLength : Nat) (chunkCommand : String) :
    Reading UInt8 PersistenceError Bytes :=
  if expectedLength = 0 ∨ expectedLength > maximumLength then
    Reading.fail (.new "Replication record length exceeds the format limit")
  else readReplicationChunks expectedLength chunkCommand []

/-- `parse` of a `u64` or of a `usize`. -/
def parseNumber (message text : String) : Except PersistenceError Nat :=
  orError message (parseUnsigned (2 ^ 64) text.toList)

variable [Platform]

def decodeReplicationEffect (sequence : String) (encoded : Bytes) :
    Except PersistenceError (Nat × CommittedBatch) := do
  let sequence ← parseNumber "Invalid replication effect sequence" sequence
  if sequence = 0 then throw (.new "Replication effects require a non-zero sequence")
  else return (sequence, ← decodeCommittedBatch encoded)

def readReplicationEffect (header : List String) : Reading UInt8 PersistenceError (Nat × CommittedBatch) :=
  match header with
  | [command, sequence, length] =>
      if command ≠ "APPLYEFFECT" then
        Reading.fail (.new "Master sent an unexpected replication effect frame")
      else do
        let expectedLength ← Reading.lift (parseNumber "Invalid replication effect length" length)
        let payload ← readChunkedReplicationPayload expectedLength maxBinlogRecordSize "EFFECTCHUNK"
        Reading.lift (decodeReplicationEffect sequence payload)
  | _ => Reading.fail (.new "Master sent an unexpected replication effect frame")

/-- What `read_full_sync_entry` does once it has a frame. -/
def readFullSyncPayload (header : List String) : Reading UInt8 PersistenceError (Bytes × PersistentEntry) :=
  match header with
  | [command, length] =>
      if command ≠ "FULLSYNCENTRY" then
        Reading.fail (.new "Master sent an unexpected full synchronization frame")
      else do
        let expectedLength ← Reading.lift (parseNumber "Invalid full synchronization entry length" length)
        let payload ← readChunkedReplicationPayload expectedLength maxSnapshotRecordSize "FULLSYNCCHUNK"
        Reading.lift (decodeSnapshotEntry payload)
  | _ => Reading.fail (.new "Master sent an unexpected full synchronization frame")

def readFullSyncEntry : Reading UInt8 PersistenceError (Bytes × PersistentEntry) := do
  let header ← readReplicationFrame "Master disconnected during full synchronization"
    "Unable to read full synchronization entry"
  readFullSyncPayload header

end Reading

end OnyxDB.Replication.ChunkedRecord
