import OnyxDB.Replication.Session

/-! A replica reads one replication connection: it answers the handshake, builds a staging store or continues from its
sequence, and applies the effects that follow. It trusts nothing it is sent: every boundary is compared with its own. -/

namespace OnyxDB.Replication.Stream
open OnyxDB.Library.Decimal OnyxDB.Engine OnyxDB.Engine.Value OnyxDB.Store OnyxDB.Protocol
  OnyxDB.Persistence.Model OnyxDB.Persistence.Commit OnyxDB.Coordinator OnyxDB.Replication.ChunkedRecord

section Markers

inductive ReplicaSyncHandshake where
  | full (replid sequence entryCount : Nat)
  | continues (replid requestedSequence : Nat)
  deriving DecidableEq, Repr

def parseReplid (text : String) : Except PersistenceError Nat := do
  let replid ← parseNumber "Invalid master replication ID" text
  if replid = 0 then throw (.new "Master replication ID must be non-zero") else return replid

def parseReplicaSyncHandshake : List String → Except PersistenceError ReplicaSyncHandshake
  | ["+FULLRESYNC3", replid, sequence, entryCount] => do
      let replid ← parseReplid replid
      let sequence ← parseNumber "Invalid full synchronization sequence" sequence
      let entryCount ← parseNumber "Invalid full synchronization entry count" entryCount
      if entryCount > maxKeys then
        throw (.new "Full synchronization entry count exceeds the configured key limit")
      else return .full replid sequence entryCount
  | ["+CONTINUE3", replid, sequence] => do
      let replid ← parseReplid replid
      let requestedSequence ← parseNumber "Invalid partial synchronization sequence" sequence
      return .continues replid requestedSequence
  | _ => .error (.new "Unexpected or malformed replication handshake")

def isAuthenticationRejection (frame : List String) : Bool :=
  frame.head?.any (fun value => makeAsciiUppercase value = "-NOAUTH" || makeAsciiUppercase value = "-WRONGPASS")

def parseReplicaSyncDone (marker : List String) (expectedReplid : Nat) : Except PersistenceError Nat :=
  match marker with
  | ["+SYNCDONE3", replid, sequence] => do
      let replid ← parseNumber "Invalid completion replication ID" replid
      if replid ≠ expectedReplid then
        throw (.new "Synchronization completion replication ID does not match the handshake")
      else parseNumber "Invalid synchronization completion sequence" sequence
  | _ => .error (.new "Missing or malformed synchronization completion marker")

/-- Whether a frame is a heartbeat; one that is has to carry the sequence the replica has installed. -/
def parseUpstreamHeartbeat (frame : List String) (installedSequence : Nat) : Except PersistenceError Bool :=
  if frame.head? ≠ some "REPLCONF" then .ok false
  else
    match frame with
    | [_, "PING", sequence] => do
        let heartbeatSequence ← parseNumber "Master sent an invalid heartbeat sequence" sequence
        if heartbeatSequence ≠ installedSequence then
          throw (.new s!"Replication heartbeat sequence mismatch: installed {installedSequence}, received {heartbeatSequence}")
        else return true
    | _ => .error (.new "Master sent a malformed replication heartbeat")

end Markers

section Replicas

/-- How storage answers when a marker or a baseline is to be installed. -/
inductive Storage where
  | done
  | refused (error : PersistenceError)
  | lost (error : PersistenceError)

/-- A process that follows a master. `stopRequested` stands for a promotion that has begun and for the request to
stop; the last two fields are those of the replica task, the others those of the process. -/
structure Replica where
  server : Server
  replicationReady : Bool
  upstreamReplid : Nat
  stopRequested : Bool
  localReplid : Nat
  localOffset : Nat

/-- Where the replica task is on its connection. -/
inductive Reception where
  | handshake (knownReplid startingOffset : Nat)
  | entries (replid sequence remaining : Nat) (seenKeys : List Bytes) (staging : ShardedStore)
  | missing (replid : Nat)
  | live (replid : Nat)

namespace Replica

def unavailable (replica : Replica) : PersistenceError := .new replica.server.runtime.unavailableMessage

def withRuntime (replica : Replica) (runtime : CommitRuntime) : Replica :=
  { replica with server := { replica.server with runtime } }

/-- `mark_persistence_failed`. -/
def markPersistenceFailed (replica : Replica) (message : String) : Replica :=
  { replica.withRuntime (replica.server.runtime.markPersistenceFailed message) with replicationReady := false }

/-- `enter_persistence_fail_stop_with_boundary`. -/
def enterFailStop (replica : Replica) (message : String) : Replica :=
  { replica.withRuntime (replica.server.runtime.enterFailStop message) with
    replicationReady := false
    stopRequested := true }

def promotionStarted (doing : String) : PersistenceError :=
  .new s!"Replica promotion started before full synchronization could {doing}"

def beginFullSyncReception (storage : Storage) (replica : Replica) : Except PersistenceError Unit × Replica :=
  if replica.stopRequested then (.error (promotionStarted "begin"), replica)
  else if !replica.server.runtime.acceptingWrites then (.error replica.unavailable, replica)
  else
    match storage with
    | .done => (.ok (), { replica with replicationReady := false, upstreamReplid := 0 })
    | .refused error | .lost error =>
        (.error error, replica.markPersistenceFailed s!"Unable to invalidate the previous replica baseline before full synchronization: {error.message}")

/-- `Persistence::install_baseline`. -/
def installBaseline (runtime : CommitRuntime) (sequence : Nat) : CommitRuntime :=
  { runtime with replOffset := sequence, backlog := [] }

variable [Platform]

def installFullSync (storage : Storage) (replid sequence : Nat) (staging : ShardedStore) (replica : Replica) :
    Except PersistenceError Unit × Replica :=
  if replid = 0 then (.error (.new "Full synchronization requires a non-zero replication ID"), replica)
  else if replica.stopRequested then (.error (promotionStarted "be installed"), replica)
  else if !replica.server.runtime.acceptingWrites then (.error replica.unavailable, replica)
  else
    match storage with
    | .done =>
        (.ok (), { replica with
          server := ⟨replica.server.store.replaceAll staging.rawEntries.1,
            installBaseline replica.server.runtime sequence⟩
          upstreamReplid := replid
          replicationReady := true })
    | .refused error => (.error error, { replica with replicationReady := false })
    | .lost error => (.error error, replica.enterFailStop error.message)

def sequenceMismatch (expected received : Nat) : PersistenceError :=
  .new s!"Replication sequence mismatch: expected {expected}, received {received}"

/-- `persist_and_apply_replica_effect`, which keeps the commit boundary until the effect is applied. -/
def persistAndApplyEffect (append : AppendBatches) (sequence : Nat) (batch : CommittedBatch) (replica : Replica) :
    Except PersistenceError Unit × Replica :=
  let runtime := replica.server.runtime
  if !runtime.acceptingWrites then (.error replica.unavailable, replica)
  else if !replica.replicationReady then
    (.error (.new "Replica has no installed durable synchronization baseline"), replica)
  else
    match checkedNext runtime.replOffset with
    | none => (.error (.new "Replica sequence is exhausted"), replica)
    | some expected =>
        if sequence ≠ expected then (.error (sequenceMismatch expected sequence), replica)
        else
          match runtime.acceptNextBatches append [(sequence, batch)] with
          | .ok runtime =>
              (.ok (), { replica with server := ⟨applyCommittedBatch replica.server.store batch, runtime⟩ })
          | .error error =>
              if error.indeterminate then
                (.error error, replica.enterFailStop
                  s!"Replicated effect persistence is indeterminate at sequence {sequence}: {error.message}")
              else
                (.error error, replica.markPersistenceFailed
                  s!"Unable to persist replicated effect at sequence {sequence}: {error.message}")

def unexpectedEffect : PersistenceError := .new "Master sent an unexpected replication effect frame"

def invalidEntry (message : String) : PersistenceError :=
  .new s!"Master sent an invalid full synchronization entry: {message}"

/-- An effect that the task has read and installs. -/
def receiveEffect (append : AppendBatches) (frame : Frame) (reception : Reception) (replica : Replica) :
    Except PersistenceError Reception × Replica :=
  match frame with
  | .effect sequence batch =>
      match replica.persistAndApplyEffect append sequence batch with
      | (.ok _, after) => (.ok reception, { after with localOffset := sequence })
      | (.error error, after) => (.error error, after)
  | _ => (.error unexpectedEffect, replica)

/-- The first frame of a connection. -/
def receiveHandshake (storage : Storage) (words : List String) (knownReplid startingOffset : Nat)
    (replica : Replica) : Except PersistenceError Reception × Replica :=
  if isAuthenticationRejection words then
    (.error (.new "Master requires valid upstream replication credentials"), replica)
  else
    match parseReplicaSyncHandshake words with
    | .error error => (.error error, replica)
    | .ok (.full replid sequence entryCount) =>
        match replica.beginFullSyncReception storage with
        | (.error error, after) => (.error error, after)
        | (.ok _, after) =>
            (.ok (.entries replid sequence entryCount [] (.new replica.server.store.engine.clock)),
              { after with localReplid := 0, localOffset := 0 })
    | .ok (.continues replid requestedSequence) =>
        if replid ≠ knownReplid ∨ requestedSequence ≠ startingOffset then
          (.error (.new "Master returned a partial synchronization boundary that does not match the request"),
            replica)
        else (.ok (.missing replid), replica)

/-- The marker behind the last entry of a full synchronization. -/
def receiveCompletion (storage : Storage) (words : List String) (replid sequence : Nat) (staging : ShardedStore)
    (replica : Replica) : Except PersistenceError Reception × Replica :=
  match parseReplicaSyncDone words replid with
  | .error error => (.error error, replica)
  | .ok done =>
      if done ≠ sequence then
        (.error (.new "Full synchronization completion sequence does not match its snapshot boundary"), replica)
      else
        match replica.installFullSync storage replid sequence staging with
        | (.error error, after) => (.error error, after)
        | (.ok _, after) => (.ok (.live replid), { after with localReplid := replid, localOffset := sequence })

/-- What the replica task makes of the next frame on its connection; after an error it gives the connection up. -/
def receive (storage : Storage) (append : AppendBatches) (frame : Frame) (words : List String)
    (reception : Reception) (replica : Replica) : Except PersistenceError Reception × Replica :=
  match reception with
  | .handshake knownReplid startingOffset => replica.receiveHandshake storage words knownReplid startingOffset
  | .entries replid sequence 0 _ staging => replica.receiveCompletion storage words replid sequence staging
  | .entries replid sequence (remaining + 1) seenKeys staging =>
      match frame with
      | .entry key stored =>
          if key ∈ seenKeys then
            (.error (.new "Master sent a duplicate key in the full synchronization snapshot"), replica)
          else
            (.ok (.entries replid sequence remaining (key :: seenKeys)
              (applyCommittedEffect staging (.put key (.ofDataEntry stored)))), replica)
      | _ => (.error (invalidEntry "Master sent an unexpected full synchronization frame"), replica)
  | .missing replid =>
      if words.head? = some "+SYNCDONE3" then
        match parseReplicaSyncDone words replid with
        | .error error => (.error error, replica)
        | .ok done =>
            if done ≠ replica.localOffset then
              (.error (.new "Partial synchronization completion sequence does not match the installed sequence"), replica)
            else (.ok (.live replid), { replica with localReplid := replid, localOffset := done })
      else replica.receiveEffect append frame (.missing replid)
  | .live replid =>
      match parseUpstreamHeartbeat words replica.localOffset with
      | .error error => (.error error, replica)
      | .ok true => (.ok (.live replid), replica)
      | .ok false => replica.receiveEffect append frame (.live replid)

end Replica

end Replicas

end OnyxDB.Replication.Stream
