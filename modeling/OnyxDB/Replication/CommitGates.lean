import OnyxDB.Library.Guards
import OnyxDB.Replication.Consistency

/-! The gates of a master. A commit group changes the store before storage has answered; what keeps others from seeing
that are the write gate and, under it, the visibility gate. A stage stands between two statements of a task's source,
and the gates it holds are the guards that are alive there. -/

namespace OnyxDB.Replication.Observers
open OnyxDB.Library OnyxDB.Library.Guards OnyxDB.Engine OnyxDB.Engine.Value OnyxDB.Store OnyxDB.Protocol
  OnyxDB.Command OnyxDB.Persistence.Model OnyxDB.Persistence.Commit OnyxDB.Coordinator

inductive Gate where
  | write
  | visibility

/-- What a task takes the commit boundary for: a commit group, the capture of a compaction, or `enter_fail_stop`. -/
inductive Purpose where
  | group (requests : List MasterCommitOperation)
  | capture
  | stop (message : String)

/-- Where a task stands: a client that reads, a task on its way to the commit boundary and behind it, or the handler of
`SYNC3` at its capture. -/
inductive Stage where
  | idle
  | reading
  | asking (purpose : Purpose)
  | waiting (purpose : Purpose)
  | entered (purpose : Purpose)
  | committing (requests rest : List MasterCommitOperation) (prepared : List PreparedMasterCommit)
  | capturing (watermark : Nat)
  | dumping
  | dumped (sequence : Nat)

/-- The write gate is a mutex; the visibility gate is shared by the readers. -/
def holds : Stage → Gate → Hold
  | .waiting _, .write | .dumping, .write | .dumped _, .write => .alone
  | .entered _, _ | .committing .., _ | .capturing _, _ => .alone
  | .reading, .visibility => .shared
  | _, _ => .free

/-- The task is in the middle of a commit group. -/
def Stage.commits : Stage → Prop
  | .committing .. => True
  | _ => False

/-- A master with its tasks, and the stage at which a task has entered fail-stop and left its guard of the visibility
gate behind for good. -/
structure Master where
  server : Coordinator.Server
  retained : Option Stage
  stage : Nat → Stage

def Master.started (server : Coordinator.Server) : Master := ⟨server, none, fun _ => .idle⟩

def Master.shut (master : Master) (gate : Gate) : Prop := gate = .visibility ∧ master.retained.isSome = true

/-- The guard that is left behind fences the mutations of a group. -/
def Master.fences (master : Master) : Prop := ∃ stage, master.retained = some stage ∧ stage.commits

section Steps
variable [Platform] [Process]

/-- What a task does at its stage: the server and the stage it leaves, and whether it retains the visibility guard. -/
inductive Action : Coordinator.Server → Stage → Coordinator.Server → Stage → Bool → Prop where
  | observe {server : Coordinator.Server} : Action server .idle server .reading false
  | read {server : Coordinator.Server} (arguments : List String)
      (reads : isWriteCommand (argument arguments 0) = false) :
      Action server .reading { server with store := (executeServerCommand arguments server.store).2 } .reading false
  | obpGet {server : Coordinator.Server} (key : Bytes) :
      Action server .reading { server with store := (server.store.getEntry key).2 } .reading false
  | leave {server : Coordinator.Server} : Action server .reading server .idle false
  | request {server : Coordinator.Server} (requests : List MasterCommitOperation)
      (available : server.available = true) : Action server .idle server (.asking (.group requests)) false
  | compact {server : Coordinator.Server} : Action server .idle server (.asking .capture) false
  /-- `enter_fail_stop`, which announces itself before it has any gate. -/
  | announce {server : Coordinator.Server} (message : String) :
      Action server .idle { server with runtime := { server.runtime with failStopStarted := true } }
        (.asking (.stop message)) false
  | lock {server : Coordinator.Server} {purpose : Purpose} :
      Action server (.asking purpose) server (.waiting purpose) false
  | enter {server : Coordinator.Server} {purpose : Purpose} :
      Action server (.waiting purpose) server (.entered purpose) false
  /-- The write budget does not allow progress. -/
  | retry {server : Coordinator.Server} {purpose : Purpose} (budgeted : purpose ≠ .capture) :
      Action server (.entered purpose) server (.asking purpose) false
  | begin {server : Coordinator.Server} {requests : List MasterCommitOperation}
      (accepting : server.runtime.acceptingWrites = true) :
      Action server (.entered (.group requests)) server (.committing requests requests []) false
  | refuse {server : Coordinator.Server} {requests : List MasterCommitOperation}
      (refusing : server.runtime.acceptingWrites = false) :
      Action server (.entered (.group requests)) server .idle false
  | prepare {server : Coordinator.Server} {requests rest : List MasterCommitOperation}
      {request : MasterCommitOperation} {prepared : List PreparedMasterCommit} {pending : PreparedMasterCommit}
      {store : ShardedStore} (preparation : prepareRequest request server.store = (.ok pending, store)) :
      Action server (.committing requests (request :: rest) prepared) { server with store }
        (.committing requests rest (prepared ++ [pending])) false
  | unprepared {server : Coordinator.Server} {requests rest : List MasterCommitOperation}
      {request : MasterCommitOperation} {prepared : List PreparedMasterCommit} {error : PersistenceError}
      {store : ShardedStore} (preparation : prepareRequest request server.store = (.error error, store)) :
      Action server (.committing requests (request :: rest) prepared)
        ⟨(rollbackPrepared prepared store).2, server.runtime.markPersistenceFailed error.message⟩ .idle false
  | conclude {server : Coordinator.Server} {requests : List MasterCommitOperation}
      {prepared : List PreparedMasterCommit} (append : AppendBatches) :
      Action server (.committing requests [] prepared) (concludeGroup append requests prepared server).2 .idle
        (groupIndeterminate append prepared server)
  /-- The task of a group is dropped, and its guard with it. -/
  | interrupt {server : Coordinator.Server} {requests rest : List MasterCommitOperation}
      {prepared : List PreparedMasterCommit} (message : String) :
      Action server (.committing requests rest prepared) { server with runtime := server.runtime.enterFailStop message }
        .idle true
  | watermark {server : Coordinator.Server} :
      Action server (.entered .capture) server (.capturing server.runtime.replOffset) false
  | capture {server : Coordinator.Server} {watermark : Nat} :
      Action server (.capturing watermark) { server with store := server.store.rawEntries.2 } .idle false
  /-- Sealing the active file fails. -/
  | unsealed {server : Coordinator.Server} {watermark : Nat} : Action server (.capturing watermark) server .idle false
  | sealLost {server : Coordinator.Server} {watermark : Nat} (message : String) :
      Action server (.capturing watermark) { server with runtime := server.runtime.enterFailStop message } .idle true
  | stop {server : Coordinator.Server} {message : String} :
      Action server (.entered (.stop message)) { server with runtime := server.runtime.enterFailStop message } .idle
        true
  | dump {server : Coordinator.Server} : Action server .idle server .dumping false
  | sequence {server : Coordinator.Server} :
      Action server .dumping server (.dumped server.runtime.replOffset) false
  | ship {server : Coordinator.Server} {sequence : Nat} :
      Action server (.dumped sequence) { server with store := server.store.rawEntries.2 } .idle false

/-- One task acts, where the gates let it, or expired keys are collected, for which no gate is needed. -/
inductive MasterStep : Master → Master → Prop where
  | act {master : Master} {server : Coordinator.Server} {task : Nat} {next : Stage} {retains : Bool}
      (action : Action master.server (master.stage task) server next retains)
      (may : MayGo holds master.shut master.stage task next) :
      MasterStep master ⟨server, master.retained.or (bif retains then some (master.stage task) else none),
        Function.update master.stage task next⟩
  | collect {master : Master} :
      MasterStep master { master with
        server := { master.server with store := (ShardedStore.perform .gcExpired master.server.store).2 } }

/-- The runs of a master. The wall clock stands still during a step and moves on between the steps. -/
inductive MasterRun (start : Nat) (origin : Coordinator.Server) : Nat → Master → Prop where
  | start : MasterRun start origin start (.started origin)
  | step {time : Nat} {master after : Master} (run : MasterRun start origin time master)
      (next : MasterStep master after) : MasterRun start origin time after
  | elapse {time later : Nat} {master : Master} (run : MasterRun start origin time master) {clock : Clock}
      (fixed : clock.Fixed later) (order : time ≤ later) :
      MasterRun start origin later { master with
        server := { master.server with store := ShardedStore.withClock master.server.store clock } }

inductive Observer where
  | client
  | compaction
  | fullSync

/-- What an observer has before it where it stands: a sequence, and the content it reads, takes into a snapshot, or
ships. -/
inductive Observes (time : Nat) (master : Master) :
    Observer → Nat → (Bytes → Option PersistentEntry) → Prop where
  | client {task : Nat} (reads : master.stage task = .reading) :
      Observes time master .client master.server.runtime.replOffset (master.server.store.view time)
  | compaction {task watermark : Nat} (captures : master.stage task = .capturing watermark) :
      Observes time master .compaction watermark (visible time (History.listed master.server.store.rawEntries.1))
  | fullSync {task sequence : Nat} (ships : master.stage task = .dumped sequence) :
      Observes time master .fullSync sequence (visible time (History.listed master.server.store.rawEntries.1))

end Steps

end OnyxDB.Replication.Observers
