import OnyxDB.Persistence.Record

/-! The codec of snapshot entries and committed batches. Readers return what they read together with
the bytes after it, in the place of the source's running offset. -/

namespace OnyxDB.Persistence.Codec
open OnyxDB.Engine OnyxDB.Engine.Value OnyxDB.Library.BigEndian OnyxDB.Persistence.Model
  OnyxDB.Persistence.Record

def checkedU32Length (length : Nat) (description : String) : Except PersistenceError Nat :=
  if length < 2 ^ 32 then .ok length
  else .error (.new (description ++ " exceeds the format limit"))

/-- `u32::try_from` on the size of a collection. -/
def collectionCount (length : Nat) (tooLarge : String) : Except PersistenceError Nat :=
  if length < 2 ^ 32 then .ok length else .error (.new tooLarge)

def appendSnapshotBytes (record bytes : Bytes) : Except PersistenceError Bytes := do
  let length ← checkedU32Length bytes.length "Snapshot value"
  return record ++ writeU32Be length ++ bytes

def appendHashField (record : Bytes) (field : Sigma fun _ : Bytes => Bytes) :
    Except PersistenceError Bytes := do
  let record ← appendSnapshotBytes record field.1
  appendSnapshotBytes record field.2

/-- The tag and the payload of a value. -/
def appendSnapshotValue [Platform] (record : Bytes) : OnyxValue → Except PersistenceError Bytes
  | .blob value => appendSnapshotBytes (record ++ [1]) value
  | .int value => .ok (record ++ [2] ++ writeU64Be value.toUInt64.toNat)
  | .float value => .ok (record ++ [3] ++ writeU64Be value.bits.toNat)
  | .list values => do
      let count ← collectionCount values.length "Snapshot list is too large"
      values.foldlM appendSnapshotBytes (record ++ [4] ++ writeU32Be count)
  | .hash values => do
      let count ← collectionCount values.entries.length "Snapshot hash is too large"
      values.entries.foldlM appendHashField (record ++ [5] ++ writeU32Be count)
  | .set values => do
      let count ← collectionCount values.members.length "Snapshot set is too large"
      values.members.foldlM appendSnapshotBytes (record ++ [6] ++ writeU32Be count)
  | .json value => appendSnapshotBytes (record ++ [7]) (utf8Bytes (Platform.jsonToString value))
  | .vector values => do
      let count ← collectionCount values.length "Snapshot vector is too large"
      return record ++ [8] ++ writeU32Be count ++
        values.flatMap (fun value => writeU32Be value.bits.toNat)

def encodeSnapshotEntry [Platform] (key : Bytes) (entry : PersistentEntry) :
    Except PersistenceError Bytes := do
  let record ← appendSnapshotBytes [] key
  let record ← appendSnapshotValue (record ++ writeU64Be (entry.expiresAt.getD 0)) entry.value
  if record.length > maxSnapshotRecordSize then
    throw (.new "Snapshot entry exceeds the format limit")
  return record

def readSnapshotBytes (record : Bytes) : Option (Bytes × Bytes) := do
  let (length, rest) ← readU32Be record
  if rest.length < length then none
  else some (rest.take length, rest.drop length)

def readSnapshotValues : Nat → Bytes → Except PersistenceError (List Bytes × Bytes)
  | 0, record => .ok ([], record)
  | count + 1, record =>
      match readSnapshotBytes record with
      | none => .error (.new "Invalid snapshot collection value")
      | some (value, rest) => do
          let (values, rest) ← readSnapshotValues count rest
          return (value :: values, rest)

/-- The closure `read_values` of the decoder. -/
def readValues (record : Bytes) : Except PersistenceError (List Bytes × Bytes) :=
  match readU32Be record with
  | none => .error (.new "Invalid snapshot collection count")
  | some (count, rest) =>
      if count > rest.length / 4 then
        .error (.new "Snapshot collection count exceeds the record bounds")
      else readSnapshotValues count rest

def readHashFields : Nat → HashMap → Bytes → Except PersistenceError (HashMap × Bytes)
  | 0, values, record => .ok (values, record)
  | count + 1, values, record =>
      match readSnapshotBytes record with
      | none => .error (.new "Invalid snapshot hash field")
      | some (field, rest) =>
          match readSnapshotBytes rest with
          | none => .error (.new "Invalid snapshot hash value")
          | some (value, rest) => readHashFields count (values.insert field value).2 rest

def readComponents : Nat → Bytes → List F32
  | 0, _ => []
  | count + 1, bytes => ⟨UInt32.ofNat (ofBigEndian (bytes.take 4))⟩ :: readComponents count (bytes.drop 4)

/-- Turns a missing piece of a record into its error. -/
def orError {α : Type} (message : String) : Option α → Except PersistenceError α
  | some value => .ok value
  | none => .error (.new message)

def decodeSnapshotValue [Platform] (valueType : UInt8) (record : Bytes) :
    Except PersistenceError (OnyxValue × Bytes) :=
  match valueType with
  | 1 => do
      let (value, rest) ← orError "Invalid snapshot blob" (readSnapshotBytes record)
      return (.blob value, rest)
  | 2 => do
      let (value, rest) ← orError "Invalid snapshot integer" (readU64Be record)
      return (.int (UInt64.ofNat value).toInt64, rest)
  | 3 => do
      let (bits, rest) ← orError "Invalid snapshot float" (readU64Be record)
      return (.float ⟨UInt64.ofNat bits⟩, rest)
  | 4 => do
      let (values, rest) ← readValues record
      return (.list values, rest)
  | 5 => do
      let (count, rest) ← orError "Invalid snapshot hash count" (readU32Be record)
      if count > rest.length / 8 then
        throw (.new "Snapshot hash count exceeds the record bounds")
      let (values, rest) ← readHashFields count ∅ rest
      return (.hash values, rest)
  | 6 => do
      let (values, rest) ← readValues record
      return (.set (values.foldl (fun set member => (set.insert member).2) .empty), rest)
  | 7 => do
      let (text, rest) ← orError "Invalid snapshot JSON value" (readSnapshotBytes record)
      match Platform.jsonFromSlice text with
      | .ok value => return (.json value, rest)
      | .error message => throw (.new message)
  | 8 => do
      let (count, rest) ← orError "Invalid snapshot vector count" (readU32Be record)
      if rest.length < count * 4 then throw (.new "Invalid snapshot vector")
      return (.vector (readComponents count rest), rest.drop (count * 4))
  | _ => .error (.new "Unknown snapshot value type")

/-- The creation timestamp the source adds is left out: every caller drops it. -/
def decodeSnapshotEntry [Platform] (record : Bytes) : Except PersistenceError (Bytes × PersistentEntry) := do
  let (key, rest) ← orError "Invalid snapshot key" (readSnapshotBytes record)
  let (expiry, rest) ← orError "Invalid snapshot expiry" (readU64Be rest)
  let (valueType, rest) ← orError "Missing snapshot value type" (rest.head?.map (·, rest.tail))
  let (value, rest) ← decodeSnapshotValue valueType rest
  if rest ≠ [] then throw (.new "Trailing bytes in snapshot entry")
  return (key, ⟨value, if expiry = 0 then none else some expiry⟩)

def effectPut : UInt8 := 1

def effectDelete : UInt8 := 2

def appendEffect [Platform] (encoded : Bytes) : CommittedEffect → Except PersistenceError Bytes
  | .put key entry => do
      let record ← encodeSnapshotEntry key entry
      appendSnapshotBytes (encoded ++ [effectPut]) record
  | .delete key => appendSnapshotBytes (encoded ++ [effectDelete]) key

def encodeCommittedBatch [Platform] (batch : CommittedBatch) : Except PersistenceError Bytes := do
  if batch.effects.isEmpty then throw (.new "Committed-effect batch cannot be empty")
  let count ← collectionCount batch.effects.length "Committed-effect batch is too large"
  let encoded ← batch.effects.foldlM appendEffect (writeU32Be count)
  if encoded.length > maxBinlogRecordSize then
    throw (.new "Committed-effect batch exceeds the binlog record limit")
  return encoded

def decodeEffects [Platform] : Nat → Bytes → Except PersistenceError (List CommittedEffect × Bytes)
  | 0, encoded => .ok ([], encoded)
  | count + 1, encoded => do
      let (opcode, rest) ← orError "Missing committed-effect opcode" (encoded.head?.map (·, encoded.tail))
      let (payload, rest) ← orError "Invalid committed-effect payload" (readSnapshotBytes rest)
      let effect ← if opcode = effectPut then do
          let (key, entry) ← decodeSnapshotEntry payload
          pure (CommittedEffect.put key entry)
        else if opcode = effectDelete then pure (CommittedEffect.delete payload)
        else throw (.new s!"Unknown committed-effect opcode: {opcode.toNat}")
      let (effects, rest) ← decodeEffects count rest
      return (effect :: effects, rest)

def decodeCommittedBatch [Platform] (encoded : Bytes) : Except PersistenceError CommittedBatch := do
  let (count, rest) ← orError "Missing committed-effect count" (readU32Be encoded)
  if count = 0 then throw (.new "Committed-effect batch cannot be empty")
  if count > rest.length / 5 then throw (.new "Committed-effect count exceeds the record bounds")
  let (effects, rest) ← decodeEffects count rest
  if rest ≠ [] then throw (.new "Trailing bytes in committed-effect batch")
  CommittedBatch.new effects

end OnyxDB.Persistence.Codec
