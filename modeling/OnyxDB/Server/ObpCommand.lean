import OnyxDB.Coordinator.Process
import OnyxDB.Library.Decimal
import OnyxDB.Protocol.Obp

/-! Commands of the binary protocol: a frame is executed, mutations through the commit coordinator, and the
result is sent back as the text that Rust's `Debug` gives it. -/

namespace OnyxDB.Server
open OnyxDB.Library.Decimal OnyxDB.Engine OnyxDB.Engine.Value OnyxDB.Store OnyxDB.Protocol OnyxDB.Protocol.Obp
  OnyxDB.Coordinator OnyxDB.Persistence.Model

section Debug

/-- The `Debug` texts of the values that other crates and the floating point types print. -/
class Rendering where
  /-- `bytes::Bytes`. -/
  debugBytes : Bytes → Bytes
  /-- `serde_json::Value`. -/
  debugJson : Json → Bytes
  debugFloat : F64 → Bytes
  debugComponent : F32 → Bytes

/-- The width of a byte in a byte string literal. -/
def escapedWidth (byte : UInt8) : Nat :=
  if byte ∈ [10, 13, 9, 92, 34, 0] then 2
  else if 0x20 ≤ byte ∧ byte < 0x7F then 1
  else 4

/-- The length of a byte string literal. -/
def literalLength (bytes : Bytes) : Nat := 3 + (bytes.map escapedWidth).sum

def joined (items : List Bytes) : Bytes := (utf8Bytes ", ").intercalate items

def joinedLength (lengths : List Nat) : Nat := lengths.sum + 2 * (lengths.length - 1)

variable [Rendering]

/-- `Bytes` print themselves as byte string literals. -/
def PrintsLiterals : Prop := ∀ bytes, (Rendering.debugBytes bytes).length = literalLength bytes

def debugField (field : Sigma fun _ : Bytes => Bytes) : Bytes :=
  Rendering.debugBytes field.1 ++ utf8Bytes ": " ++ Rendering.debugBytes field.2

/-- `format!("{:?}", value)`. -/
def debugValue : OnyxValue → Bytes
  | .blob bytes => utf8Bytes "Blob(" ++ Rendering.debugBytes bytes ++ utf8Bytes ")"
  | .int value => utf8Bytes "Int(" ++ utf8Bytes (toString value.toInt) ++ utf8Bytes ")"
  | .float value => utf8Bytes "Float(" ++ Rendering.debugFloat value ++ utf8Bytes ")"
  | .list items => utf8Bytes "List([" ++ joined (items.map Rendering.debugBytes) ++ utf8Bytes "])"
  | .hash fields => utf8Bytes "Hash(\x7b" ++ joined (fields.entries.map debugField) ++ utf8Bytes "\x7d)"
  | .set members => utf8Bytes "Set(\x7b" ++ joined (members.members.map Rendering.debugBytes) ++ utf8Bytes "\x7d)"
  | .json document => utf8Bytes "Json(" ++ Rendering.debugJson document ++ utf8Bytes ")"
  | .vector components =>
      utf8Bytes "Vector([" ++ joined (components.map Rendering.debugComponent) ++ utf8Bytes "])"

/-- How long a value is as text. -/
def debugLength : OnyxValue → Nat
  | .blob bytes => 6 + literalLength bytes
  | .int value => 5 + (utf8Bytes (toString value.toInt)).length
  | .float value => 7 + (Rendering.debugFloat value).length
  | .list items => 8 + joinedLength (items.map literalLength)
  | .hash fields =>
      8 + joinedLength (fields.entries.map (fun field => literalLength field.1 + 2 + literalLength field.2))
  | .set members => 7 + joinedLength (members.members.map literalLength)
  | .json document => 6 + (Rendering.debugJson document).length
  | .vector components =>
      10 + joinedLength (components.map (fun component => (Rendering.debugComponent component).length))

end Debug

section Execution

/-- The users of the server and their passwords. -/
abbrev Users := AList (fun _ : String => String)

def authRequired (users : Users) : Bool := !users.entries.isEmpty

def checkCredentials (users : Users) (username password : String) : Bool :=
  users.lookup username == some password

def fromUtf8 (bytes : Bytes) : Option String := (decodeUtf8 bytes).map String.ofList

/-- The credentials of an authentication: a password or a user and a password. -/
def obpCredentials : List Bytes → Option (String × String)
  | user :: password :: _ => (fromUtf8 user).bind (fun user => (fromUtf8 password).map (user, ·))
  | [password] => (fromUtf8 password).map ("default", ·)
  | [] => none

/-- The requests that share the commit group of a request. -/
structure Companions where
  before : List MasterCommitOperation
  after : List MasterCommitOperation

def commitQueueMemoryBytes : Nat := 64 * 1024 * 1024

variable [Platform] [Process]

/-- `submit`: the request goes through the queue in some group, and its completion comes back. -/
def submit (append : AppendBatches) (companions : Companions) (operation : MasterCommitOperation)
    (server : Coordinator.Server) : Completion × Coordinator.Server :=
  if max operation.estimatedBytes 1 > commitQueueMemoryBytes then
    (.error (.new "Commit request exceeds the coordinator memory budget"), server)
  else
    let (completions, server) :=
      processCommitGroup append (companions.before ++ operation :: companions.after) server
    (completions.getD companions.before.length
      (.error { message := "Master commit coordinator dropped the outcome", indeterminate := true }), server)

/-- `execute_obp_set` and `execute_obp_delete`. -/
def executeObpMutation (append : AppendBatches) (companions : Companions) (operation : MasterCommitOperation)
    (server : Coordinator.Server) : Except PersistenceError ObpMutationResult × Coordinator.Server :=
  let (completion, server) := submit append companions operation server
  match completion with
  | .ok (.obp result) => (.ok result, server)
  | .ok _ =>
      (.error { message := "Master commit coordinator returned a mismatched OBP outcome", indeterminate := true },
        server)
  | .error error => (.error error, server)

def misconfMessage (error : PersistenceError) : String :=
  if "MISCONF ".toList.isPrefixOf error.message.toList then error.message
  else s!"MISCONF mutation persistence failed: {error.message}"

variable [Rendering]

def mutationPayload : Except PersistenceError ObpMutationResult → Bytes
  | .ok (.value value) => debugValue value
  | .ok (.error message) => utf8Bytes message
  | .error error => utf8Bytes (misconfMessage error)

/-- The commands of an authenticated client: the payload of the response. -/
def executeObpData (append : AppendBatches) (companions : Companions) (cmd : UInt8) (args : List Bytes)
    (server : Coordinator.Server) : Bytes × Coordinator.Server :=
  if cmd = 0x01 then
    match args with
    | key :: _ =>
        let (entry, store) := server.store.getEntry key
        (debugValue ((entry.map DataEntry.value).getD (.blob [])), { server with store := store })
    | [] => (debugValue (.blob []), server)
  else if cmd = 0x02 then
    match args with
    | key :: value :: _ =>
        let (result, server) := executeObpMutation append companions (.obpSet key value) server
        (mutationPayload result, server)
    | _ => (debugValue (.blob (utf8Bytes "ERR")), server)
  else if cmd = 0x03 then
    match args with
    | key :: _ =>
        let (result, server) := executeObpMutation append companions (.obpDelete key) server
        (mutationPayload result, server)
    | [] => (debugValue (.int 0), server)
  else if cmd = 0xF0 then (debugValue (.blob (utf8Bytes "PONG")), server)
  else (debugValue (.blob (utf8Bytes "ERR unknown command")), server)

/-- A response to a frame. -/
def respond (frame : OBPFrame) (payload : Bytes) : OBPFrame := ⟨0x00, 0, frame.correlationId, [], some payload⟩

def executeObpCommand (append : AppendBatches) (users : Users) (replicaMode : Bool) (companions : Companions)
    (frame : OBPFrame) (authenticated : Bool) (server : Coordinator.Server) :
    OBPFrame × Bool × Coordinator.Server :=
  if frame.cmd = 0x10 then
    let ok := authRequired users &&
      (obpCredentials frame.args).any (fun credentials => checkCredentials users credentials.1 credentials.2)
    (respond frame (utf8Bytes (if ok then "OK" else "WRONGPASS")), authenticated || ok, server)
  else if !authenticated then (respond frame (utf8Bytes "NOAUTH authentication required"), authenticated, server)
  else if replicaMode ∧ (frame.cmd = 0x02 ∨ frame.cmd = 0x03) then
    (respond frame (utf8Bytes "READONLY this instance is a read-only replica"), authenticated, server)
  else
    let (payload, server) := executeObpData append companions frame.cmd frame.args server
    (respond frame payload, authenticated, server)

/-- One turn of the connection loop: the bytes written for a frame, or none when the connection is given up. -/
def serveFrame (append : AppendBatches) (users : Users) (replicaMode : Bool) (companions : Companions)
    (frame : OBPFrame) (authenticated : Bool) (server : Coordinator.Server) :
    Option Bytes × Bool × Coordinator.Server :=
  let (response, authenticated, server) :=
    executeObpCommand append users replicaMode companions frame authenticated server
  match response.encode [] with
  | .ok _ out => (some out, authenticated, server)
  | .error _ _ => (none, authenticated, server)

end Execution

end OnyxDB.Server
