import Mathlib.Data.List.DropRight
import OnyxDB.Library.Decimal
import OnyxDB.Persistence.Codec
import OnyxDB.Store.ShardedStore

/-! Snapshot files: a gzip stream of a header line with the watermark and of length-prefixed entries. -/

namespace OnyxDB.Persistence.Snapshot
open OnyxDB.Engine OnyxDB.Engine.Value OnyxDB.Library.BigEndian OnyxDB.Library.Decimal OnyxDB.Store
  OnyxDB.Persistence.Codec OnyxDB.Persistence.Model OnyxDB.Persistence.Record

def snapshotMagic : List Char := "ONYXSNAP".toList

def snapshotVersion : Nat := 2

def maxSnapshotMetadataSize : Nat := 4096

inductive SnapshotFormat where
  | missing
  | legacy
  | versioned (watermark : Nat)
  deriving DecidableEq, Repr

/-- What a buffered decoder has still to deliver, and the error that then ends it if there is one. -/
structure Stream where
  bytes : Bytes
  failure : Option String

def Stream.open [Platform] (file : Bytes) : Stream :=
  ⟨(Platform.gunzip file).1, (Platform.gunzip file).2⟩

def Stream.fail {α : Type} (stream : Stream) (otherwise : String) : Except PersistenceError α :=
  .error (.new (stream.failure.getD otherwise))

/-- `read_exact`. -/
def Stream.readExact (stream : Stream) (count : Nat) : Except PersistenceError (Bytes × Stream) :=
  if stream.bytes.length < count then stream.fail "failed to fill whole buffer"
  else .ok (stream.bytes.take count, { stream with bytes := stream.bytes.drop count })

def newline : UInt8 := 10

/-- `read_until` on at most `limit` bytes: the bytes up to and with the first newline. -/
def Stream.readUntilNewline (stream : Stream) (limit : Nat) : Except PersistenceError (Bytes × Stream) :=
  let window := stream.bytes.take limit
  let line := window.takeWhile (fun byte => byte != newline)
  if line.length < window.length then
    .ok (line ++ [newline], { stream with bytes := stream.bytes.drop (line.length + 1) })
  else if window.length < limit ∧ stream.failure.isSome then stream.fail ""
  else .ok (window, { stream with bytes := stream.bytes.drop window.length })

/-- Removes the carriage returns and newlines at the end of a line. -/
def trimLineEnd (line : List Char) : List Char :=
  line.rdropWhile (fun char => char == '\r' || char == '\n')

def readBoundedUtf8Line (stream : Stream) (maximumSize : Nat) :
    Except PersistenceError (Option (List Char) × Stream) := do
  let (bytes, stream) ← stream.readUntilNewline (maximumSize + 1)
  if bytes.isEmpty then return (none, stream)
  if bytes.length > maximumSize then
    throw (.new s!"Snapshot line exceeds the {maximumSize} byte limit")
  let line ← orError "Snapshot contains invalid UTF-8" (decodeUtf8 bytes)
  return (some (trimLineEnd line), stream)

def parseMetadataHeader (firstLine : List Char) : Except PersistenceError SnapshotFormat :=
  if !snapshotMagic.isPrefixOf firstLine then .ok .legacy
  else
    match firstLine.splitOn '\t' with
    | [magic, version, watermark] => do
        if magic ≠ snapshotMagic then throw (.new "Malformed snapshot metadata header")
        let version ← orError "Invalid snapshot format version" (parseUnsigned (2 ^ 8) version)
        if version ≠ snapshotVersion then
          throw (.new s!"Unsupported snapshot format version: {version}")
        let watermark ← orError "Invalid snapshot sequence watermark" (parseUnsigned (2 ^ 64) watermark)
        return .versioned watermark
    | _ => .error (.new "Malformed snapshot metadata header")

variable [Platform]

def inspectSnapshot : Option Bytes → Except PersistenceError SnapshotFormat
  | none => .ok .missing
  | some file => do
      let (line, _) ← readBoundedUtf8Line (.open file) maxSnapshotMetadataSize
      let firstLine ← orError "Snapshot is empty" line
      parseMetadataHeader firstLine

/-- Reads one entry; `none` at the end of the stream. -/
def readSnapshotRecord (stream : Stream) :
    Except PersistenceError (Option (Bytes × PersistentEntry) × Stream) := do
  if stream.bytes.isEmpty ∧ stream.failure.isNone then return (none, stream)
  let (lengthBytes, stream) ← stream.readExact 4
  let recordLength := ofBigEndian lengthBytes
  if recordLength = 0 ∨ recordLength > maxSnapshotRecordSize then
    throw (.new s!"Invalid snapshot record length: {recordLength}")
  let (record, stream) ← stream.readExact recordLength
  let entry ← decodeSnapshotEntry record
  return (some entry, stream)

/-- `is_expired`: the clock is read only if there is an expiry. -/
def isExpired (store : ShardedStore) (entry : PersistentEntry) : Bool × ShardedStore :=
  match entry.expiresAt with
  | none => (false, store)
  | some expiry =>
      let (now, store) := store.unixSeconds
      (decide (now ≥ expiry), store)

def installSnapshotEntry (store : ShardedStore) (key : Bytes) (entry : PersistentEntry) : ShardedStore :=
  match isExpired store entry with
  | (true, store) => store
  | (false, store) => (store.setValue key entry.value entry.expiresAt).2

/-- The entries of a stream. Every record takes at least five bytes, so `fuel` of the stream's length
is enough. -/
def readSnapshotRecords : Nat → Stream → Except PersistenceError (List (Bytes × PersistentEntry))
  | 0, _ => .ok []
  | fuel + 1, stream => do
      match ← readSnapshotRecord stream with
      | (none, _) => return []
      | (some entry, stream) =>
          let rest ← readSnapshotRecords fuel stream
          return entry :: rest

/-- The entries of a snapshot file. The source installs each entry as it reads it, into a staging
store that is dropped when a later entry is invalid. -/
def snapshotEntries (file : Bytes) : Except PersistenceError (List (Bytes × PersistentEntry)) := do
  let (header, stream) ← readBoundedUtf8Line (.open file) maxSnapshotMetadataSize
  let _ ← orError "Snapshot metadata header is missing" header
  readSnapshotRecords (stream.bytes.length + 1) stream

def installSnapshotEntries (store : ShardedStore) (entries : List (Bytes × PersistentEntry)) :
    ShardedStore :=
  entries.foldl (fun store entry => installSnapshotEntry store entry.1 entry.2) store

/-- Loads a snapshot into `store`. A legacy snapshot has been refused before. -/
def loadSnapshotEntries (store : ShardedStore) (file : Option Bytes) (format : SnapshotFormat) :
    Except PersistenceError ShardedStore :=
  match format, file with
  | .versioned _, some file => do
      let entries ← snapshotEntries file
      return installSnapshotEntries store entries
  | _, _ => .ok store

def snapshotHeader (watermark : Nat) : List Char :=
  snapshotMagic ++ '\t' :: Nat.toDigits 10 snapshotVersion ++ '\t' :: Nat.toDigits 10 watermark ++ ['\n']

def appendSnapshotRecord (stream : Bytes) (entry : Bytes × DataEntry) : Except PersistenceError Bytes := do
  let record ← encodeSnapshotEntry entry.1 (.ofDataEntry entry.2)
  let recordLength ← collectionCount record.length "Snapshot entry exceeds the format limit"
  return stream ++ writeU32Be recordLength ++ record

/-- The contents of the file `write_snapshot_file` creates. -/
def snapshotFile (entries : List (Bytes × DataEntry)) (watermark : Nat) : Except PersistenceError Bytes := do
  let stream ← entries.foldlM appendSnapshotRecord
    ((snapshotHeader watermark).flatMap String.utf8EncodeChar)
  return Platform.gzip stream

end OnyxDB.Persistence.Snapshot
