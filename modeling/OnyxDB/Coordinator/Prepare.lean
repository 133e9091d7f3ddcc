import OnyxDB.Command.Execution
import OnyxDB.Persistence.Commit

/-! Preparation of requests by the commit coordinator: a request is executed on the store, admitted, and its
committed effects are derived from the images of the keys it may have changed. What is needed to undo it
stays with the prepared request. -/

namespace OnyxDB.Coordinator
open OnyxDB.Engine OnyxDB.Engine.Value OnyxDB.Store OnyxDB.Protocol OnyxDB.Command
  OnyxDB.Persistence.Model OnyxDB.Persistence.Commit

inductive ObpMutationResult where
  | value (value : OnyxValue)
  | error (message : String)

inductive MasterCommitOperation where
  | command (arguments : List String)
  | commandGroup (commands : List (List String))
  | transaction (commands : List (List String))
  | obpSet (key value : Bytes)
  | obpDelete (key : Bytes)

inductive MasterCommitResponse where
  | command (outcome : CommandOutcome)
  | commandGroup (outcomes : List CommandOutcome)
  | transaction (response : RESPValue)
  | obp (result : ObpMutationResult)

def markOutcome (outcome : CommandOutcome) : CommandOutcome := { outcome with mutation := .committed }

def MasterCommitResponse.markCommitted : MasterCommitResponse → MasterCommitResponse
  | .command outcome => .command (markOutcome outcome)
  | .commandGroup outcomes => .commandGroup (outcomes.map (fun outcome =>
      if outcome.mutation = .tentative then markOutcome outcome else outcome))
  | response => response

structure PreparedCommandOperation where
  outcome : CommandOutcome
  batch : Option CommittedBatch
  rollback : Option MutationRollback

/-- A prepared request; its completion channel is the position it has in its group. -/
structure PreparedMasterCommit where
  response : MasterCommitResponse
  batches : List CommittedBatch
  rollbacks : List MutationRollback

namespace PreparedMasterCommit

def withoutMutation (response : MasterCommitResponse) : PreparedMasterCommit := ⟨response, [], []⟩

def withMutation (response : MasterCommitResponse) (batch : CommittedBatch) (rollback : MutationRollback) :
    PreparedMasterCommit :=
  ⟨response, [batch], [rollback]⟩

def withMutations (response : MasterCommitResponse) (batches : List CommittedBatch)
    (rollbacks : List MutationRollback) : PreparedMasterCommit :=
  ⟨response, batches, rollbacks⟩

end PreparedMasterCommit

/-- The keys a transaction has changed so far, and what they held when it first came to them. -/
structure Baseline where
  images : Images
  changedKeys : List Bytes

def Baseline.empty : Baseline := ⟨∅, []⟩

/-- Notes a key the first time it is seen. -/
def Baseline.note (baseline : Baseline) (key : Bytes) (image : Option DataEntry) : Baseline :=
  if key ∈ baseline.changedKeys then baseline
  else ⟨baseline.images.insert key image, baseline.changedKeys ++ [key]⟩

def Baseline.noteAffected (baseline : Baseline) (keys : List Bytes) (before : Images) : Baseline :=
  keys.foldl (fun baseline key => baseline.note key ((before.lookup key).getD none)) baseline

def Baseline.noteEvicted (baseline : Baseline) (evicted : List (Bytes × DataEntry)) : Baseline :=
  evicted.foldl (fun baseline entry => baseline.note entry.1 (some entry.2)) baseline

/-- `changed_keys.sort()`. -/
def sortKeys (keys : List Bytes) : List Bytes := keys.mergeSort (fun first second => decide (first ≤ second))

/-- The counters of the process that `INFO` tells beside the store. -/
class Process where
  role : String
  startTime : Nat
  activeConnections : Nat
  totalCommands : Nat
  cacheHits : Nat
  cacheMisses : Nat
  hitRatePercent : String

/-- The name a policy is printed with. -/
def debugPolicy : EvictionPolicy → String
  | .noEviction => "NoEviction"
  | .allKeysLru => "AllKeysLru"
  | .volatileLru => "VolatileLru"
  | .allKeysRandom => "AllKeysRandom"
  | .volatileRandom => "VolatileRandom"

variable [Platform]

section StoreCalls

def beginMutation (keys : List Bytes) : StoreM MutationAttempt := fun store => store.beginMutation keys

def admitAttempt (attempt : MutationAttempt) (protectedKeys : List Bytes) :
    StoreM (Except AdmissionError MutationAttempt) :=
  fun store => store.admitMutation attempt protectedKeys

def rollback (attempt : MutationAttempt) : StoreM Unit := fun store => ((), store.rollback attempt)

def restore (undo : MutationRollback) : StoreM Unit := fun store => ((), undo.restore store)

def derive (keys : List Bytes) (before : Images) (evicted : List (Bytes × DataEntry)) :
    StoreM (Option CommittedBatch) :=
  fun store => deriveCommittedBatch store keys before evicted

end StoreCalls

variable [Process]

def infoResponse : StoreM RESPValue := do
  let time ← ShardedStore.now
  let stats ← (fun store => store.stats : StoreM OnyxEngine.EngineStats)
  let usedMemory ← (fun store => store.usedMemoryBytes : StoreM Nat)
  let store ← get
  let lines := [s!"role:{Process.role}", s!"uptime_seconds:{time - Process.startTime}",
    s!"connected_keys:{stats.totalKeys}", s!"max_keys:{maxKeys}",
    s!"active_connections:{Process.activeConnections}", s!"total_commands:{Process.totalCommands}",
    s!"cache_hits:{Process.cacheHits}", s!"cache_misses:{Process.cacheMisses}",
    s!"hit_rate_percent:{Process.hitRatePercent}", s!"used_memory_bytes:{usedMemory}",
    s!"maxmemory_bytes:{store.maxmemoryBytes}", s!"maxmemory_policy:{debugPolicy store.maxmemoryPolicy}"]
  return .bulkString (some ("\\n".intercalate lines))

/-- `execute_command` of the server, which answers `INFO` itself. -/
def executeServerCommand (arguments : List String) : StoreM CommandOutcome := do
  if arguments.head? = some "INFO" then return ⟨← infoResponse, .notRequested⟩
  else executeCommand arguments

def derivationFailed : String := "Committed effect derivation became empty after admission"

def prepareCommandOperation (arguments : List String) :
    StoreM (Except PersistenceError PreparedCommandOperation) := do
  let keys := affectedKeys arguments
  let attempt ← beginMutation keys
  let outcome ← executeServerCommand arguments
  match ← derive keys attempt.beforeEntries [] with
  | none => return .ok ⟨{ outcome with mutation := .noChange }, none, none⟩
  | some _ =>
      match ← admitAttempt attempt keys with
      | .error error =>
          rollback attempt
          return .ok ⟨⟨.error error.message, .noChange⟩, none, none⟩
      | .ok attempt =>
          match ← derive keys attempt.beforeEntries attempt.evictedEntries with
          | none =>
              rollback attempt
              return .error (.new derivationFailed)
          | some batch => return .ok ⟨outcome, some batch, some attempt.intoRollback⟩

def prepareCommand (arguments : List String) : StoreM (Except PersistenceError PreparedMasterCommit) := do
  match ← prepareCommandOperation arguments with
  | .error error => return .error error
  | .ok prepared =>
      match prepared.batch, prepared.rollback with
      | some batch, some undo => return .ok (.withMutation (.command prepared.outcome) batch undo)
      | _, _ => return .ok (.withoutMutation (.command prepared.outcome))

/-- Undoes mutations, the latest first. -/
def restoreAll : List MutationRollback → StoreM Unit
  | [] => return ()
  | undo :: rest => do
      restoreAll rest
      restore undo

/-- The loop over the commands of a group, with what the earlier ones have left. -/
def prepareCommands : List (List String) → PreparedMasterCommit → List CommandOutcome →
    StoreM (Except PersistenceError PreparedMasterCommit)
  | [], prepared, outcomes =>
      return .ok (.withMutations (.commandGroup outcomes) prepared.batches prepared.rollbacks)
  | arguments :: commands, prepared, outcomes => do
      match ← prepareCommandOperation arguments with
      | .error error =>
          restoreAll prepared.rollbacks
          return .error error
      | .ok next =>
          prepareCommands commands
            { prepared with
              batches := prepared.batches ++ next.batch.toList
              rollbacks := prepared.rollbacks ++ next.rollback.toList }
            (outcomes ++ [next.outcome])

def prepareCommandGroup (commands : List (List String)) :
    StoreM (Except PersistenceError PreparedMasterCommit) :=
  prepareCommands commands (.withoutMutation (.commandGroup [])) []

/-- One command of a transaction. -/
def prepareMember (baseline : Baseline) (arguments : List String) : StoreM (RESPValue × Baseline) := do
  if !isWriteCommand (argument arguments 0) then
    return ((← executeServerCommand arguments).response, baseline)
  else
    let keys := affectedKeys arguments
    let attempt ← beginMutation keys
    let baseline := baseline.noteAffected keys attempt.beforeEntries
    let outcome ← executeServerCommand arguments
    match ← derive keys attempt.beforeEntries [] with
    | none => return (outcome.response, baseline)
    | some _ =>
        match ← admitAttempt attempt keys with
        | .ok attempt => return (outcome.response, baseline.noteEvicted attempt.evictedEntries)
        | .error error =>
            rollback attempt
            return (.error error.message, baseline)

def prepareMembers : List (List String) → Baseline → StoreM (List RESPValue × Baseline)
  | [], baseline => return ([], baseline)
  | arguments :: commands, baseline => do
      let (response, baseline) ← prepareMember baseline arguments
      let (responses, baseline) ← prepareMembers commands baseline
      return (response :: responses, baseline)

def prepareTransaction (commands : List (List String)) : StoreM PreparedMasterCommit := do
  let (results, baseline) ← prepareMembers commands .empty
  let response := MasterCommitResponse.transaction (.array results)
  match ← derive (sortKeys baseline.changedKeys) baseline.images [] with
  | none => return .withoutMutation response
  | some batch => return .withMutation response batch (.fromBaseline baseline.images)

def obpOk : MasterCommitResponse := .obp (.value (.blob (utf8Bytes "OK")))

def prepareObpSet (key value : Bytes) : StoreM (Except PersistenceError PreparedMasterCommit) := do
  let keys := [key]
  let attempt ← beginMutation keys
  let _ ← ShardedStore.perform (.set key (.blob value) none)
  match ← derive keys attempt.beforeEntries [] with
  | none => return .ok (.withoutMutation obpOk)
  | some _ =>
      match ← admitAttempt attempt keys with
      | .error error =>
          rollback attempt
          return .ok (.withoutMutation (.obp (.error error.message)))
      | .ok attempt =>
          match ← derive keys attempt.beforeEntries attempt.evictedEntries with
          | none =>
              rollback attempt
              return .error (.new "OBP committed effect derivation failed after admission")
          | some batch => return .ok (.withMutation obpOk batch attempt.intoRollback)

def prepareObpDelete (key : Bytes) : StoreM PreparedMasterCommit := do
  let attempt ← beginMutation [key]
  let deleted ← ShardedStore.perform (.delete key)
  let response := MasterCommitResponse.obp (.value (.int (if deleted then 1 else 0)))
  if deleted then return .withMutation response ⟨[.delete key]⟩ attempt.intoRollback
  else return .withoutMutation response

def prepareRequest : MasterCommitOperation → StoreM (Except PersistenceError PreparedMasterCommit)
  | .command arguments => prepareCommand arguments
  | .commandGroup commands => prepareCommandGroup commands
  | .transaction commands => return .ok (← prepareTransaction commands)
  | .obpSet key value => prepareObpSet key value
  | .obpDelete key => return .ok (← prepareObpDelete key)

end OnyxDB.Coordinator
