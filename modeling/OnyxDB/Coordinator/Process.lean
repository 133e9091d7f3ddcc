import OnyxDB.Coordinator.Group

/-! Processing of one commit group: the requests are prepared one after another, their batches numbered and
handed to storage in one append, and every request is answered. -/

namespace OnyxDB.Coordinator
open OnyxDB.Engine OnyxDB.Engine.Value OnyxDB.Store OnyxDB.Protocol OnyxDB.Command
  OnyxDB.Persistence.Model OnyxDB.Persistence.Commit

def backlogCapacity : Nat := 10000

/-- What the coordinator uses of the commit runtime: the durable offset, the flags of a failure with its
reason, the batches storage has acknowledged, and what replicas are sent. -/
structure CommitRuntime where
  replOffset : Nat
  acceptingWrites : Bool
  failStopStarted : Bool
  failure : Option String
  appended : List (Nat × CommittedBatch)
  backlog : List (Nat × CommittedBatch)
  published : List (Nat × CommittedBatch)

/-- The append of storage, given what it has acknowledged before. -/
abbrev AppendBatches := List (Nat × CommittedBatch) → List (Nat × CommittedBatch) → Except PersistenceError Unit

def sequenceExhausted : PersistenceError := .new "Persistence sequence is exhausted"

/-- `checked_add(1)` on a sequence. -/
def checkedNext (sequence : Nat) : Option Nat := if sequence + 1 < 2 ^ 64 then some (sequence + 1) else none

namespace CommitRuntime

def nextSequence (runtime : CommitRuntime) : Except PersistenceError Nat :=
  match checkedNext runtime.replOffset with
  | some sequence => .ok sequence
  | none => .error sequenceExhausted

/-- The check that a group continues the sequence. -/
def checkNumbering : Option Nat → List (Nat × CommittedBatch) → Except PersistenceError Unit
  | _, [] => .ok ()
  | none, _ :: _ => .error sequenceExhausted
  | some expected, (sequence, _) :: rest =>
      if sequence ≠ expected then
        .error (.new s!"Persistence sequence mismatch: expected {expected}, received {sequence}")
      else checkNumbering (checkedNext expected) rest

def acceptNextBatches (runtime : CommitRuntime) (append : AppendBatches)
    (batches : List (Nat × CommittedBatch)) : Except PersistenceError CommitRuntime :=
  match batches.getLast? with
  | none => .error (.new "A persistence group must contain at least one committed batch")
  | some last => do
      let expected ← runtime.nextSequence
      checkNumbering (some expected) batches
      append runtime.appended batches
      return { runtime with replOffset := last.1, appended := runtime.appended ++ batches }

def pushBacklog (backlog : List (Nat × CommittedBatch)) (entry : Nat × CommittedBatch) :
    List (Nat × CommittedBatch) :=
  let backlog := backlog ++ [entry]
  backlog.drop (backlog.length - backlogCapacity)

def publish (runtime : CommitRuntime) (batches : List (Nat × CommittedBatch)) : CommitRuntime :=
  { runtime with
    backlog := batches.foldl pushBacklog runtime.backlog
    published := runtime.published ++ batches }

def persistAndPublishMasterBatches (runtime : CommitRuntime) (append : AppendBatches)
    (batches : List (Nat × CommittedBatch)) : Except PersistenceError CommitRuntime := do
  let runtime ← runtime.acceptNextBatches append batches
  return runtime.publish batches

/-- The first failure is the one that is reported. -/
def noteFailure (runtime : CommitRuntime) (message : String) : CommitRuntime :=
  { runtime with failure := runtime.failure.or (some message), acceptingWrites := false }

def markPersistenceFailed (runtime : CommitRuntime) (message : String) : CommitRuntime :=
  runtime.noteFailure message

def enterFailStop (runtime : CommitRuntime) (message : String) : CommitRuntime :=
  { runtime.noteFailure message with failStopStarted := true }

def unavailableMessage (runtime : CommitRuntime) : String :=
  match runtime.failure with
  | some reason => s!"MISCONF persistence is unavailable: {reason}"
  | none => "MISCONF persistence is unavailable"

end CommitRuntime

/-- The batches under the sequences after `sequence`. -/
def numberBatches : Nat → List CommittedBatch → Option (List (Nat × CommittedBatch))
  | _, [] => some []
  | sequence, batch :: batches =>
      (checkedNext sequence).bind (fun next => (numberBatches next batches).map ((next, batch) :: ·))

def copyPersistenceError (error : PersistenceError) : PersistenceError :=
  { message := error.message, indeterminate := error.indeterminate }

structure Server where
  store : ShardedStore
  runtime : CommitRuntime

/-- What a request is answered with. -/
abbrev Completion := Except PersistenceError MasterCommitResponse

def rejectRequests (requests : List MasterCommitOperation) (error : PersistenceError) : List Completion :=
  requests.map (fun _ => .error (copyPersistenceError error))

def completePrepared (prepared : List PreparedMasterCommit) : List Completion :=
  prepared.map (fun pending =>
    .ok (if pending.batches.isEmpty then pending.response else pending.response.markCommitted))

def groupFailure (kind : String) (first last : Nat) (error : PersistenceError) : String :=
  s!"Master commit group persistence {kind} for sequences {first} through {last}: {error.message}"

variable [Platform]

def rollbackPrepared (prepared : List PreparedMasterCommit) : StoreM Unit :=
  restoreAll (prepared.flatMap PreparedMasterCommit.rollbacks)

variable [Process]

/-- The requests of a group, each prepared on what the earlier ones left. -/
def prepareRequests : List MasterCommitOperation → List PreparedMasterCommit →
    StoreM (Except PersistenceError (List PreparedMasterCommit))
  | [], prepared => return .ok prepared
  | request :: requests, prepared => do
      match ← prepareRequest request with
      | .ok pending => prepareRequests requests (prepared ++ [pending])
      | .error error =>
          rollbackPrepared prepared
          return .error error

/-- The outcome of storage for a prepared group. -/
def concludeGroup (append : AppendBatches) (requests : List MasterCommitOperation)
    (prepared : List PreparedMasterCommit) (server : Server) : List Completion × Server :=
  let batches := prepared.flatMap PreparedMasterCommit.batches
  match numberBatches server.runtime.replOffset batches with
  | none =>
      let (_, store) := rollbackPrepared prepared server.store
      (rejectRequests requests sequenceExhausted,
        ⟨store, server.runtime.markPersistenceFailed sequenceExhausted.message⟩)
  | some [] => (completePrepared prepared, server)
  | some (first :: rest) =>
      match server.runtime.persistAndPublishMasterBatches append (first :: rest) with
      | .ok runtime => (completePrepared prepared, { server with runtime := runtime })
      | .error error =>
          let last := (first :: rest).getLastD first
          if error.indeterminate then
            let reason := groupFailure "is indeterminate" first.1 last.1 error
            (rejectRequests requests error, { server with runtime := server.runtime.enterFailStop reason })
          else
            let reason := groupFailure "failed" first.1 last.1 error
            let (_, store) := rollbackPrepared prepared server.store
            (rejectRequests requests error, ⟨store, server.runtime.markPersistenceFailed reason⟩)

def processCommitGroup (append : AppendBatches) (requests : List MasterCommitOperation) (server : Server) :
    List Completion × Server :=
  if server.runtime.failStopStarted || !server.runtime.acceptingWrites then
    (rejectRequests requests (.new server.runtime.unavailableMessage), server)
  else
    match prepareRequests requests [] server.store with
    | (.error error, store) =>
        (rejectRequests requests error, ⟨store, server.runtime.markPersistenceFailed error.message⟩)
    | (.ok prepared, store) => concludeGroup append requests prepared { server with store := store }

end OnyxDB.Coordinator
