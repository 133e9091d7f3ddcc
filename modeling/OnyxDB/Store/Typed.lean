import OnyxDB.Engine.Operation
import OnyxDB.Library.LossyText
import OnyxDB.Protocol.Response
import OnyxDB.Store.Glob
import OnyxDB.Store.JsonPath
import OnyxDB.Store.ShardedStore

/-! Typed operations of the store. Each one is an operation of the engine with a closure on the value; the
closures are named here so that what they do to a value can be stated without the engine. -/

namespace OnyxDB.Store
open OnyxDB.Library OnyxDB.Library.Decimal OnyxDB.Engine OnyxDB.Engine.Value OnyxDB.Protocol

abbrev StoreM := StateM ShardedStore

/-- `String::from_utf8_lossy`. -/
def fromUtf8Lossy (bytes : Bytes) : String := String.ofList (LossyText.decodeLossy bytes)

/-- `str::parse::<i64>`. -/
def parseI64 (text : String) : Option Int64 := (parseSigned (2 ^ 63) text.toList).map Int64.ofInt

/-- `str::parse::<u64>`. -/
def parseU64 (text : String) : Option Nat := parseUnsigned (2 ^ 64) text.toList

def u64SaturatingAdd (first second : Nat) : Nat := min (first + second) (2 ^ 64 - 1)

def i64CheckedAdd (first second : Int64) : Option Int64 :=
  let sum := first.toInt + second.toInt
  if -2 ^ 63 ≤ sum ∧ sum < 2 ^ 63 then some (Int64.ofInt sum) else none

section Closures

/-- A string or integer value as text. -/
def valueText : OnyxValue → Except StoreError String
  | .blob bytes => .ok (fromUtf8Lossy bytes)
  | .int value => .ok (integerText value)
  | _ => .error .wrongType

def notAnInteger : String := "ERR value is not an integer"

def incrementOverflows : String := "ERR increment or decrement would overflow"

/-- The integer a value stands for. -/
def currentInteger : OnyxValue → Except String Int64
  | .int value => .ok value
  | .blob bytes =>
      match (fromUtf8 bytes).bind parseI64 with
      | some value => .ok value
      | none => .error notAnInteger
  | _ => .error notAnInteger

def incremented (delta : Int64) (value : OnyxValue) : Except String Int64 × OnyxValue :=
  match currentInteger value with
  | .error message => (.error message, value)
  | .ok current =>
      match i64CheckedAdd current delta with
      | none => (.error incrementOverflows, value)
      | some sum => (.ok sum, .int sum)

def appended (suffix : String) (value : OnyxValue) : Except StoreError Nat × OnyxValue :=
  match valueText value with
  | .error error => (.error error, value)
  | .ok text => (.ok (utf8Bytes (text ++ suffix)).length, .blob (utf8Bytes (text ++ suffix)))

def exchanged (newValue : String) (entry : DataEntry) (existed : Bool) :
    Except StoreError (Option String) × DataEntry :=
  match valueText entry.value with
  | .error error => (.error error, entry)
  | .ok old =>
      (.ok (if existed then some old else none),
        { entry with value := .blob (utf8Bytes newValue), expiresAt := none })

def pushedFront (item : Bytes) (value : OnyxValue) : Except StoreError Nat × OnyxValue :=
  match value with
  | .list items => (.ok (items.length + 1), .list (item :: items))
  | other => (.error .wrongType, other)

def pushedBack (item : Bytes) (value : OnyxValue) : Except StoreError Nat × OnyxValue :=
  match value with
  | .list items => (.ok (items.length + 1), .list (items ++ [item]))
  | other => (.error .wrongType, other)

/-- Keeps the entry unless its collection has become empty. -/
def keepUnless {α : Type} (empty : Bool) (result : α) : EntryMutation α :=
  if empty then .delete result else .keep result

def poppedFront (value : OnyxValue) : EntryMutation (Except StoreError (Option String)) × OnyxValue :=
  match value with
  | .list (item :: items) => (keepUnless items.isEmpty (.ok (some (fromUtf8Lossy item))), .list items)
  | .list [] => (.keep (.ok none), .list [])
  | other => (.keep (.error .wrongType), other)

def poppedBack (value : OnyxValue) : EntryMutation (Except StoreError (Option String)) × OnyxValue :=
  match value with
  | .list items =>
      match items.getLast? with
      | some item =>
          (keepUnless items.dropLast.isEmpty (.ok (some (fromUtf8Lossy item))), .list items.dropLast)
      | none => (.keep (.ok none), .list items)
  | other => (.keep (.error .wrongType), other)

/-- The bound of a range that a negative index counts from the end. -/
def normalizeIndex (length index : Int) : Int := if index < 0 then max (length + index) 0 else index

def listRange (start stop : Int) (value : OnyxValue) : Except StoreError (List String) :=
  match value with
  | .list items =>
      let length : Int := items.length
      if length = 0 then .ok []
      else
        let first := normalizeIndex length start
        let last := normalizeIndex length stop
        if first > length - 1 ∨ first > last then .ok []
        else
          let last := if last > length - 1 then length - 1 else last
          .ok (((items.take (last.toNat + 1)).drop first.toNat).map fromUtf8Lossy)
  | _ => .error .wrongType

def listLength : OnyxValue → Except StoreError Nat
  | .list items => .ok items.length
  | _ => .error .wrongType

def fieldSet (field content : Bytes) (value : OnyxValue) : Except StoreError Bool × OnyxValue :=
  match value with
  | .hash fields => (.ok (HashMap.insert fields field content).1.isNone, .hash (HashMap.insert fields field content).2)
  | other => (.error .wrongType, other)

def fieldGet (field : Bytes) : OnyxValue → Except StoreError (Option String)
  | .hash fields => .ok ((fields.lookup field).map fromUtf8Lossy)
  | _ => .error .wrongType

def allFields : OnyxValue → Except StoreError (List (String × String))
  | .hash fields => .ok (fields.entries.map (fun field => (fromUtf8Lossy field.1, fromUtf8Lossy field.2)))
  | _ => .error .wrongType

def fieldRemoved (field : Bytes) (value : OnyxValue) : EntryMutation (Except StoreError Bool) × OnyxValue :=
  match value with
  | .hash fields =>
      let (previous, fields) := HashMap.remove fields field
      (keepUnless (previous.isSome && fields.entries.isEmpty) (.ok previous.isSome), .hash fields)
  | other => (.keep (.error .wrongType), other)

def memberAdded (member : Bytes) (value : OnyxValue) : Except StoreError Bool × OnyxValue :=
  match value with
  | .set members => (.ok (members.insert member).1, .set (members.insert member).2)
  | other => (.error .wrongType, other)

def allMembers : OnyxValue → Except StoreError (List String)
  | .set members => .ok (members.members.map fromUtf8Lossy)
  | _ => .error .wrongType

def memberRemoved (member : Bytes) (value : OnyxValue) : EntryMutation (Except StoreError Bool) × OnyxValue :=
  match value with
  | .set members =>
      let (removed, members) := members.remove member
      (keepUnless (removed && members.members.isEmpty) (.ok removed), .set members)
  | other => (.keep (.error .wrongType), other)

def memberPresent (member : Bytes) : OnyxValue → Except StoreError Bool
  | .set members => .ok (decide (member ∈ members.members))
  | _ => .error .wrongType

/-- Replaces a whole document. -/
def documentReplaced (newValue : Json) (value : OnyxValue) : Except String Unit × OnyxValue :=
  match value with
  | .json _ => (.ok (), .json newValue)
  | other => (.error StoreError.wrongType.message, other)

/-- Removes a whole document. -/
def documentRemoved (value : OnyxValue) : EntryMutation (Except String Bool) × OnyxValue :=
  match value with
  | .json _ => (.delete (.ok true), value)
  | other => (.keep (.error StoreError.wrongType.message), other)

/-- Edits a document; a value of another type is left alone and reported by `none`. -/
def documentEdited {α : Type} (edit : Json → α × Json) (value : OnyxValue) : Option α × OnyxValue :=
  match value with
  | .json root => (some (edit root).1, .json (edit root).2)
  | other => (none, other)

/-- Reads a document. -/
def documentRead {α : Type} (inspect : Json → α) : OnyxValue → Except String α
  | .json root => .ok (inspect root)
  | _ => .error StoreError.wrongType.message

def jsonTypeName : Json → String
  | .null => "null"
  | .bool _ => "boolean"
  | .number _ => "number"
  | .string _ => "string"
  | .array _ => "array"
  | .object _ => "object"

def arrayLength : Json → Option Nat
  | .array items => some items.length
  | _ => none

def objectKeys : Json → Option (List String)
  | .object fields => some (fields.map Prod.fst)
  | _ => none

def valueTypeName : OnyxValue → String
  | .blob _ => "string"
  | .int _ => "int"
  | .float _ => "float"
  | .list _ => "list"
  | .hash _ => "hash"
  | .set _ => "set"
  | .json _ => "json"
  | .vector _ => "vector"

end Closures

namespace ShardedStore

def now : StoreM Nat := fun store => store.unixSeconds

variable [Platform]

/-- Runs an operation of the engine. -/
def perform {α : Type} (operation : Operation α) : StoreM α := fun store => store.run operation.run

def set (key value : String) : StoreM Unit := do
  let _ ← perform (.set (utf8Bytes key) (.blob (utf8Bytes value)) none)

def get (key : String) : StoreM (Except StoreError (Option String)) := do
  match ← perform (.read (utf8Bytes key) (fun entry => valueText entry.value)) with
  | some (.ok text) => return .ok (some text)
  | some (.error error) => return .error error
  | none => return .ok none

def delete (key : String) : StoreM Bool := perform (.delete (utf8Bytes key))

def existsKey (key : String) : StoreM Bool := do
  return (← perform (.peek (utf8Bytes key))).isSome

def expireAt (key : String) (timestamp : Nat) : StoreM Bool := perform (.setExpiry (utf8Bytes key) timestamp)

def expire (key : String) (seconds : Nat) : StoreM Bool := do
  expireAt key (u64SaturatingAdd (← now) seconds)

/-- The seconds left; the clock is read again while the entry is inspected. -/
def ttl (key : String) : StoreM Int64 := do
  match ← perform (.read (utf8Bytes key) DataEntry.expiresAt) with
  | none => return -2
  | some none => return -1
  | some (some expiry) =>
      let remaining := expiry - (← now)
      if remaining = 0 then return -2
      else return Int64.ofNat (min remaining (2 ^ 63 - 1))

def incrby (key : String) (delta : Int64) : StoreM (Except String Int64) :=
  perform (.updateOrInsert (utf8Bytes key) (.int 0) (incremented delta))

def incr (key : String) : StoreM (Except String Int64) := incrby key 1

def append (key suffix : String) : StoreM (Except StoreError Nat) :=
  perform (.updateOrInsert (utf8Bytes key) (.blob []) (appended suffix))

def strlen (key : String) : StoreM (Except StoreError Nat) := do
  return (← get key).map (fun value => value.elim 0 (fun text => (utf8Bytes text).length))

def getset (key newValue : String) : StoreM (Except StoreError (Option String)) :=
  perform (.updateEntryOrInsertWithPresence (utf8Bytes key) (.blob []) (exchanged newValue))

def setnx (key value : String) : StoreM Bool :=
  perform (.setIfAbsent (utf8Bytes key) (.blob (utf8Bytes value)))

def lpush (key item : String) : StoreM (Except StoreError Nat) :=
  perform (.updateOrInsert (utf8Bytes key) (.list []) (pushedFront (utf8Bytes item)))

def rpush (key item : String) : StoreM (Except StoreError Nat) :=
  perform (.updateOrInsert (utf8Bytes key) (.list []) (pushedBack (utf8Bytes item)))

def lpop (key : String) : StoreM (Except StoreError (Option String)) := do
  return (← perform (.updateIfExistsWithAction (utf8Bytes key) poppedFront)).getD (.ok none)

def rpop (key : String) : StoreM (Except StoreError (Option String)) := do
  return (← perform (.updateIfExistsWithAction (utf8Bytes key) poppedBack)).getD (.ok none)

/-- Reads the value of a key, with an answer for a missing one. -/
def inspect {α ε : Type} (key : String) (missing : α) (look : OnyxValue → Except ε α) :
    StoreM (Except ε α) := do
  return (← perform (.read (utf8Bytes key) (fun entry => look entry.value))).getD (.ok missing)

def lrange (key : String) (start stop : Int64) : StoreM (Except StoreError (List String)) :=
  inspect key [] (listRange start.toInt stop.toInt)

def llen (key : String) : StoreM (Except StoreError Nat) := inspect key 0 listLength

def hset (key field value : String) : StoreM (Except StoreError Bool) :=
  perform (.updateOrInsert (utf8Bytes key) (.hash ∅) (fieldSet (utf8Bytes field) (utf8Bytes value)))

def hget (key field : String) : StoreM (Except StoreError (Option String)) :=
  inspect key none (fieldGet (utf8Bytes field))

def hgetall (key : String) : StoreM (Except StoreError (List (String × String))) := inspect key [] allFields

def hdel (key field : String) : StoreM (Except StoreError Bool) := do
  return (← perform (.updateIfExistsWithAction (utf8Bytes key) (fieldRemoved (utf8Bytes field)))).getD (.ok false)

def hkeys (key : String) : StoreM (Except StoreError (List String)) := do
  return (← hgetall key).map (List.map Prod.fst)

def hvals (key : String) : StoreM (Except StoreError (List String)) := do
  return (← hgetall key).map (List.map Prod.snd)

def sadd (key member : String) : StoreM (Except StoreError Bool) :=
  perform (.updateOrInsert (utf8Bytes key) (.set .empty) (memberAdded (utf8Bytes member)))

def smembers (key : String) : StoreM (Except StoreError (List String)) := inspect key [] allMembers

def srem (key member : String) : StoreM (Except StoreError Bool) := do
  return (← perform (.updateIfExistsWithAction (utf8Bytes key) (memberRemoved (utf8Bytes member)))).getD (.ok false)

def sismember (key member : String) : StoreM (Except StoreError Bool) :=
  inspect key false (memberPresent (utf8Bytes member))

def invalidPath : String := "ERR invalid JSON path"

def missingDocument : String := "ERR key does not exist: use JSON.SET key $ \x7b...\x7d to create it"

def unreachablePath : String :=
  "ERR path not reachable (intermediate element missing or index out of bounds)"

def jsonSet (key path : String) (newValue : Json) : StoreM (Except String Unit) :=
  match parseJsonPath path with
  | none => return .error invalidPath
  | some [] =>
      perform (.updateOrInsertWithPresence (utf8Bytes key) (.json .null)
        (fun value _ => documentReplaced newValue value))
  | some segments => do
      match ← perform (.updateIfExists (utf8Bytes key)
          (documentEdited (fun root => setJsonPath root segments newValue))) with
      | some (some true) => return .ok ()
      | some (some false) => return .error unreachablePath
      | some none => return .error StoreError.wrongType.message
      | none => return .error missingDocument

/-- Reads the node a path addresses. -/
def jsonRead {α : Type} (key path : String) (look : Json → Option α) : StoreM (Except String (Option α)) :=
  match parseJsonPath path with
  | none => return .error invalidPath
  | some segments =>
      inspect key none (documentRead (fun root => (getJsonPath root segments).bind look))

def jsonGet (key path : String) : StoreM (Except String (Option String)) :=
  jsonRead key path (fun node => some (Platform.jsonToString node))

def jsonDel (key path : String) : StoreM (Except String Bool) :=
  match parseJsonPath path with
  | none => return .error invalidPath
  | some [] => do
      return (← perform (.updateIfExistsWithAction (utf8Bytes key) documentRemoved)).getD (.ok false)
  | some segments => do
      match ← perform (.updateIfExists (utf8Bytes key)
          (documentEdited (fun root => deleteJsonPath root segments))) with
      | some (some deleted) => return .ok deleted
      | some none => return .error StoreError.wrongType.message
      | none => return .ok false

def jsonType (key path : String) : StoreM (Except String (Option String)) :=
  jsonRead key path (fun node => some (jsonTypeName node))

/-- Edits a document in place where the edit may fail. -/
def jsonEdit {α : Type} (key path : String) (edit : List JsonPathSegment → Json → Except String α × Json) :
    StoreM (Except String α) :=
  match parseJsonPath path with
  | none => return .error invalidPath
  | some segments => do
      match ← perform (.updateIfExists (utf8Bytes key) (documentEdited (edit segments))) with
      | some (some result) => return result
      | some none => return .error StoreError.wrongType.message
      | none => return .error missingDocument

def jsonNumincrby (key path : String) (delta : F64) : StoreM (Except String F64) :=
  jsonEdit key path (fun segments root => numincrbyJsonPath root segments delta)

def jsonArrappend (key path : String) (newValue : Json) : StoreM (Except String Nat) :=
  jsonEdit key path (fun segments root => arrappendJsonPath root segments newValue)

def jsonArrlen (key path : String) : StoreM (Except String (Option Nat)) := jsonRead key path arrayLength

def jsonObjkeys (key path : String) : StoreM (Except String (Option (List String))) :=
  jsonRead key path objectKeys

def rename (oldKey newKey : String) : StoreM Bool := perform (.rename (utf8Bytes oldKey) (utf8Bytes newKey))

def copy (source target : String) : StoreM Bool := perform (.copy (utf8Bytes source) (utf8Bytes target))

def valueType (key : String) : StoreM (Option String) :=
  perform (.read (utf8Bytes key) (fun entry => valueTypeName entry.value))

def allKeys : StoreM (List String) := do
  return (← perform .allKeys).map fromUtf8Lossy

def keysMatching (pattern : String) : StoreM (List String) := do
  let keys ← allKeys
  if pattern = "*" ∨ pattern.isEmpty then return keys
  else return keys.filter (globMatch pattern)

/-- `require_expiry` from the condition `NX` or `XX`. -/
def expireConditional (key : String) (seconds : Nat) (condition : String) : StoreM Bool :=
  match condition with
  | "NX" => require false
  | "XX" => require true
  | _ => return false
where
  require (expiry : Bool) : StoreM Bool := do
    perform (.setExpiryConditional (utf8Bytes key) (u64SaturatingAdd (← now) seconds) (some expiry))

end ShardedStore

end OnyxDB.Store
