import OnyxDB.Coordinator.Process
import OnyxDB.Library.Semaphore
import OnyxDB.Library.Trace

/-! The way of a request through the coordinator. Clients wait for memory and then for a slot of the channel; the
worker takes what has arrived in groups and answers each request once. Clients and worker run beside each other, a
client may go away at any point, and the worker may end before its queue is empty. -/

namespace OnyxDB.Coordinator
open OnyxDB.Library OnyxDB.Engine OnyxDB.Engine.Value OnyxDB.Store OnyxDB.Protocol OnyxDB.Command
  OnyxDB.Persistence.Model OnyxDB.Persistence.Commit

def commitQueueCapacity : Nat := 1024
def commitQueueMemoryBytes : Nat := 64 * 1024 * 1024
def commitQueueMemoryUnitBytes : Nat := 4 * 1024

/-- The units of memory there are. -/
def commitQueueMemoryUnits : Nat := commitQueueMemoryBytes / commitQueueMemoryUnitBytes

section Metrics

inductive CommitGroupResult where
  | completed
  | rejected
  | indeterminate
  deriving DecidableEq

/-- The counters, apart from those of times. Adding to one wraps around. -/
structure CommitCoordinatorMetrics where
  requestsTotal : UInt64 := 0
  queueDepth : UInt64 := 0
  queueDepthMax : UInt64 := 0
  groupsTotal : UInt64 := 0
  groupsCompletedTotal : UInt64 := 0
  groupsRejectedTotal : UInt64 := 0
  groupsIndeterminateTotal : UInt64 := 0
  groupsInterruptedTotal : UInt64 := 0
  groupsInProgress : UInt64 := 0
  groupRequestsTotal : UInt64 := 0
  groupRequestsMax : UInt64 := 0
  groupInputBytesTotal : UInt64 := 0
  groupInputBytesMax : UInt64 := 0
  logicalBatchesTotal : UInt64 := 0

namespace CommitCoordinatorMetrics

def enterQueue (metrics : CommitCoordinatorMetrics) : CommitCoordinatorMetrics :=
  let depth := metrics.queueDepth + 1
  { metrics with queueDepth := depth, queueDepthMax := max metrics.queueDepthMax depth }

def leaveQueue (metrics : CommitCoordinatorMetrics) : CommitCoordinatorMetrics :=
  { metrics with queueDepth := metrics.queueDepth - 1 }

/-- `CommitGroupMeasurement::start`. -/
def start (metrics : CommitCoordinatorMetrics) (requests inputBytes : Nat) : CommitCoordinatorMetrics :=
  let requests := UInt64.ofNat requests
  let inputBytes := UInt64.ofNat inputBytes
  { metrics with
    groupsTotal := metrics.groupsTotal + 1
    groupsInProgress := metrics.groupsInProgress + 1
    groupRequestsTotal := metrics.groupRequestsTotal + requests
    groupRequestsMax := max metrics.groupRequestsMax requests
    groupInputBytesTotal := metrics.groupInputBytesTotal + inputBytes
    groupInputBytesMax := max metrics.groupInputBytesMax inputBytes }

def recordEnd (metrics : CommitCoordinatorMetrics) : CommitCoordinatorMetrics :=
  { metrics with groupsInProgress := metrics.groupsInProgress - 1 }

/-- `CommitGroupMeasurement::finish`. -/
def finish (metrics : CommitCoordinatorMetrics) (result : CommitGroupResult) (logicalBatches : Nat) :
    CommitCoordinatorMetrics :=
  let metrics := { metrics with logicalBatchesTotal := metrics.logicalBatchesTotal + UInt64.ofNat logicalBatches }
  match result with
  | .completed => { metrics with groupsCompletedTotal := metrics.groupsCompletedTotal + 1 }.recordEnd
  | .rejected => { metrics with groupsRejectedTotal := metrics.groupsRejectedTotal + 1 }.recordEnd
  | .indeterminate => { metrics with groupsIndeterminateTotal := metrics.groupsIndeterminateTotal + 1 }.recordEnd

/-- A measurement that is dropped before it is finished. -/
def interrupt (metrics : CommitCoordinatorMetrics) : CommitCoordinatorMetrics :=
  { metrics with groupsInterruptedTotal := metrics.groupsInterruptedTotal + 1 }.recordEnd

end CommitCoordinatorMetrics

end Metrics

section Submissions

/-- A call of `submit`, told from others by its number. -/
structure Submission where
  number : Nat
  operation : MasterCommitOperation

/-- The units of memory an operation is charged with. -/
def MasterCommitOperation.units (operation : MasterCommitOperation) : Nat :=
  (max operation.estimatedBytes 1 + commitQueueMemoryUnitBytes - 1) / commitQueueMemoryUnitBytes

def MasterCommitOperation.outsideLimit : MasterCommitOperation → Bool
  | .commandGroup commands => commands.isEmpty || decide (maxCommitGroupLogicalMutations < commands.length)
  | _ => false

/-- What `submit` checks before it waits. -/
def MasterCommitOperation.check (operation : MasterCommitOperation) : Except PersistenceError Nat :=
  if operation.outsideLimit then .error (.new "Commit command group exceeds the coordinator limit")
  else if max operation.estimatedBytes 1 > commitQueueMemoryBytes then
    .error (.new "Commit request exceeds the coordinator memory budget")
  else if operation.units < 2 ^ 32 then .ok operation.units
  else .error (.new "Commit request memory accounting overflow")

def Submission.units (submission : Submission) : Nat := submission.operation.units

/-- How a submission comes to its end. -/
inductive Settlement where
  | refused (error : PersistenceError)
  | withdrawn
  | turnedAway
  | shutDown
  | dropped
  | answered (completion : Completion)

/-- What `submit` returns. A client that has gone away gets nothing. -/
def Settlement.outcome : Settlement → Option Completion
  | .refused error => some (.error error)
  | .withdrawn => none
  | .turnedAway => some (.error (.new "Master commit coordinator is unavailable"))
  | .shutDown => some (.error (.new "Master commit coordinator is shutting down"))
  | .dropped =>
      some (.error { message := "Master commit coordinator dropped the outcome", indeterminate := true })
  | .answered completion => some completion

end Submissions

section Model

/-- Where the worker is: it waits for a request, fills a group, has filled it, waits for the commit boundary, holds it
and works on the group, owes its answers, turns the group away because the runtime is gone, or has ended. -/
inductive Worker where
  | idle
  | filling (requests : List Submission) (logicalMutations inputBytes : Nat)
  | filled (requests : List Submission)
  | awaiting (requests : List Submission)
  | committing (requests : List Submission)
  | answering (owed : List (Submission × Completion)) (result : CommitGroupResult) (logicalBatches : Nat)
  | rejecting (requests : List Submission)
  | gone

/-- The requests that the worker holds. -/
def Worker.requests : Worker → List Submission
  | .idle | .gone => []
  | .filling requests _ _ | .filled requests | .awaiting requests | .committing requests | .rejecting requests =>
      requests
  | .answering owed _ _ => owed.map Prod.fst

/-- Whether the worker is in a group whose measurement has been started. -/
def Worker.measures : Worker → Bool
  | .awaiting _ | .committing _ | .answering _ _ _ => true
  | _ => false

/-- The worker waits for the commit boundary, which a full segment catalog, a pending rollover or a spent write budget
may withhold. -/
def Worker.awaits : Worker → Bool
  | .awaiting _ => true
  | _ => false

/-- The worker waits for something else to happen, and so may be ended. It lets others run before it fills a group. -/
def Worker.suspended : Worker → Bool
  | .idle | .filling [_] _ _ | .awaiting _ | .committing _ => true
  | _ => false

structure CommitQueue where
  memory : Semaphore Submission
  slots : Semaphore Submission
  channel : List Submission
  deferred : Option Submission
  worker : Worker
  /-- Requests in the channel that their senders have not counted yet. -/
  uncounted : Nat
  metrics : CommitCoordinatorMetrics

namespace CommitQueue

/-- `MasterCommitCoordinator::start`. -/
def start : CommitQueue where
  memory := .new commitQueueMemoryUnits
  slots := .new commitQueueCapacity
  channel := []
  deferred := none
  worker := .idle
  uncounted := 0
  metrics := {}

/-- The requests that the worker has not put into a group yet. -/
def queued (queue : CommitQueue) : List Submission :=
  queue.slots.waiting ++ queue.slots.granted ++ (queue.channel ++ queue.deferred.toList)

/-- The requests that hold memory. -/
def holding (queue : CommitQueue) : List Submission := queue.queued ++ queue.worker.requests

/-- A request is dropped before the worker has put it into a group. -/
def abandon (queue : CommitQueue) (submission : Submission) : CommitQueue :=
  { queue with
    memory := queue.memory.release submission.units
    metrics := queue.metrics.leaveQueue }

/-- The worker ends: its group is interrupted, and with the receiver what was in the channel is dropped. -/
def close (queue : CommitQueue) : CommitQueue :=
  let unread := queue.channel ++ queue.deferred.toList
  { queue with
    memory := queue.memory.release (Semaphore.demand Submission.units (unread ++ queue.worker.requests))
    channel := []
    deferred := none
    worker := .gone
    metrics :=
      let metrics := CommitCoordinatorMetrics.leaveQueue^[unread.length] queue.metrics
      if queue.worker.measures then metrics.interrupt else metrics }

/-- What is dropped when the worker ends. -/
def lost (queue : CommitQueue) : List Submission :=
  queue.worker.requests ++ (queue.deferred.toList ++ queue.channel)

end CommitQueue

def groupInputBytes (requests : List Submission) : Nat :=
  requests.foldl (fun total request => saturatingAdd total request.operation.estimatedBytes) 0

variable [Platform] [Process]

/-- What is counted of a group: its result, and the batches that were handed to storage. -/
def commitGroupResult (append : AppendBatches) (requests : List MasterCommitOperation) (server : Server) :
    CommitGroupResult × Nat :=
  if server.runtime.failStopStarted || !server.runtime.acceptingWrites then (.rejected, 0)
  else
    match prepareRequests requests [] server.store with
    | (.error _, _) => (.rejected, 0)
    | (.ok prepared, _) =>
        match numberBatches server.runtime.replOffset (prepared.flatMap PreparedMasterCommit.batches) with
        | none => (.rejected, 0)
        | some [] => (.completed, 0)
        | some (first :: rest) =>
            match server.runtime.persistAndPublishMasterBatches append (first :: rest) with
            | .ok _ => (.completed, (first :: rest).length)
            | .error error =>
                (if error.indeterminate then .indeterminate else .rejected, (first :: rest).length)

/-- A group as it was processed: what storage does, the server the group met, and the requests. -/
structure ProcessedGroup where
  append : AppendBatches
  server : Server
  requests : List Submission

namespace ProcessedGroup

def operations (group : ProcessedGroup) : List MasterCommitOperation := group.requests.map Submission.operation

def completions (group : ProcessedGroup) : List Completion :=
  (processCommitGroup group.append group.operations group.server).1

def answers (group : ProcessedGroup) : List (Submission × Completion) := group.requests.zip group.completions

def result (group : ProcessedGroup) : CommitGroupResult × Nat :=
  commitGroupResult group.append group.operations group.server

end ProcessedGroup

inductive QueueEvent where
  | asked (submission : Submission)
  | sent (submission : Submission)
  | processed (group : ProcessedGroup)
  | settled (submission : Submission) (settlement : Settlement)

/-- The steps of clients and worker, with what happens in each. The server that a group meets is whatever the rest of
the process has made of it. -/
inductive QueueStep : CommitQueue → List QueueEvent → CommitQueue → Prop where
  | ask {queue : CommitQueue} (submission : Submission) {units : Nat}
      (passes : submission.operation.check = .ok units) :
      QueueStep queue [.asked submission] { queue with memory := queue.memory.ask submission }
  | refuse {queue : CommitQueue} (submission : Submission) {error : PersistenceError}
      (fails : submission.operation.check = .error error) :
      QueueStep queue [.asked submission, .settled submission (.refused error)] queue
  | grantMemory {queue : CommitQueue} {memory : Semaphore Submission}
      (grants : queue.memory.grant Submission.units = some memory) : QueueStep queue [] { queue with memory }
  | enterQueue {queue : CommitQueue} {submission : Submission} {early late : List Submission}
      (given : queue.memory.granted = early ++ submission :: late) :
      QueueStep queue [] { queue with
        memory := { queue.memory with granted := early ++ late }
        slots := queue.slots.ask submission
        metrics := queue.metrics.enterQueue }
  | grantSlot {queue : CommitQueue} {slots : Semaphore Submission}
      (grants : queue.slots.grant (fun _ => 1) = some slots) : QueueStep queue [] { queue with slots }
  | send {queue : CommitQueue} {submission : Submission} {early late : List Submission} (alive : queue.worker ≠ .gone)
      (given : queue.slots.granted = early ++ submission :: late) :
      QueueStep queue [.sent submission] { queue with
        slots := { queue.slots with granted := early ++ late }
        channel := queue.channel ++ [submission]
        uncounted := queue.uncounted + 1 }
  | count {queue : CommitQueue} {others : Nat} (counting : queue.uncounted = others + 1) :
      QueueStep queue [] { queue with
        uncounted := others
        metrics := { queue.metrics with requestsTotal := queue.metrics.requestsTotal + 1 } }
  /-- A client goes away while it waits for memory, or before it has noticed that it has it. -/
  | leaveLine {queue : CommitQueue} {submission : Submission} {early late : List Submission}
      (waiting : queue.memory.waiting = early ++ submission :: late) :
      QueueStep queue [.settled submission .withdrawn]
        { queue with memory := { queue.memory with waiting := early ++ late } }
  | leaveGranted {queue : CommitQueue} {submission : Submission} {early late : List Submission}
      (given : queue.memory.granted = early ++ submission :: late) :
      QueueStep queue [.settled submission .withdrawn] { queue with
        memory := { queue.memory with granted := early ++ late }.release submission.units }
  /-- A client that waits for a slot goes away, or finds that the worker has ended. -/
  | leaveSlotLine {queue : CommitQueue} {submission : Submission} {early late : List Submission}
      {settlement : Settlement} (waiting : queue.slots.waiting = early ++ submission :: late)
      (why : settlement = .withdrawn ∨ (settlement = .turnedAway ∧ queue.worker = .gone)) :
      QueueStep queue [.settled submission settlement]
        { queue.abandon submission with slots := { queue.slots with waiting := early ++ late } }
  | leaveSlot {queue : CommitQueue} {submission : Submission} {early late : List Submission}
      {settlement : Settlement} (given : queue.slots.granted = early ++ submission :: late)
      (why : settlement = .withdrawn ∨ (settlement = .turnedAway ∧ queue.worker = .gone)) :
      QueueStep queue [.settled submission settlement]
        { queue.abandon submission with slots := { queue.slots with granted := early ++ late }.release 1 }
  | resume {queue : CommitQueue} {first : Submission} (idle : queue.worker = .idle)
      (left : queue.deferred = some first) :
      QueueStep queue [] { queue with
        deferred := none
        worker := .filling [first] first.operation.logicalMutationUpperBound first.operation.estimatedBytes
        metrics := queue.metrics.leaveQueue }
  | receive {queue : CommitQueue} {first : Submission} {rest : List Submission} (idle : queue.worker = .idle)
      (nothing : queue.deferred = none) (arrived : queue.channel = first :: rest) :
      QueueStep queue [] { queue with
        slots := queue.slots.release 1
        channel := rest
        worker := .filling [first] first.operation.logicalMutationUpperBound first.operation.estimatedBytes
        metrics := queue.metrics.leaveQueue }
  | fill {queue : CommitQueue} {request : Submission} {requests rest : List Submission}
      {logicalMutations inputBytes : Nat} (filling : queue.worker = .filling requests logicalMutations inputBytes)
      (room : requests.length < maxCommitGroupRequests) (arrived : queue.channel = request :: rest)
      (mutations : saturatingAdd logicalMutations request.operation.logicalMutationUpperBound ≤
        maxCommitGroupLogicalMutations)
      (bytes : saturatingAdd inputBytes request.operation.estimatedBytes ≤ maxCommitGroupInputBytes) :
      QueueStep queue [] { queue with
        slots := queue.slots.release 1
        channel := rest
        worker := .filling (requests ++ [request])
          (saturatingAdd logicalMutations request.operation.logicalMutationUpperBound)
          (saturatingAdd inputBytes request.operation.estimatedBytes)
        metrics := queue.metrics.leaveQueue }
  | defer {queue : CommitQueue} {request : Submission} {requests rest : List Submission}
      {logicalMutations inputBytes : Nat} (filling : queue.worker = .filling requests logicalMutations inputBytes)
      (room : requests.length < maxCommitGroupRequests) (arrived : queue.channel = request :: rest)
      (beyond : saturatingAdd logicalMutations request.operation.logicalMutationUpperBound >
          maxCommitGroupLogicalMutations ∨
        saturatingAdd inputBytes request.operation.estimatedBytes > maxCommitGroupInputBytes) :
      QueueStep queue [] { queue with
        slots := queue.slots.release 1
        channel := rest
        deferred := some request
        worker := .filled requests }
  | full {queue : CommitQueue} {requests : List Submission} {logicalMutations inputBytes : Nat}
      (filling : queue.worker = .filling requests logicalMutations inputBytes)
      (enough : ¬ requests.length < maxCommitGroupRequests ∨ queue.channel = []) :
      QueueStep queue [] { queue with worker := .filled requests }
  /-- Writes have ended before the group asks for the boundary. -/
  | turnDown {queue : CommitQueue} {requests : List Submission} (filled : queue.worker = .filled requests)
      (append : AppendBatches) (server : Server)
      (closed : (server.runtime.failStopStarted || !server.runtime.acceptingWrites) = true) :
      QueueStep queue [.processed ⟨append, server, requests⟩] { queue with
        worker := .answering (ProcessedGroup.mk append server requests).answers
          (ProcessedGroup.mk append server requests).result.1 (ProcessedGroup.mk append server requests).result.2
        metrics := queue.metrics.start requests.length (groupInputBytes requests) }
  | commit {queue : CommitQueue} {requests : List Submission} (filled : queue.worker = .filled requests) :
      QueueStep queue [] { queue with
        worker := .awaiting requests
        metrics := queue.metrics.start requests.length (groupInputBytes requests) }
  /-- `acquire_commit_boundary` returns, as soon as the rest of the process lets it. -/
  | enter {queue : CommitQueue} {requests : List Submission} (awaiting : queue.worker = .awaiting requests) :
      QueueStep queue [] { queue with worker := .committing requests }
  | process {queue : CommitQueue} {requests : List Submission} (committing : queue.worker = .committing requests)
      (append : AppendBatches) (server : Server) :
      QueueStep queue [.processed ⟨append, server, requests⟩] { queue with
        worker := .answering (ProcessedGroup.mk append server requests).answers
          (ProcessedGroup.mk append server requests).result.1 (ProcessedGroup.mk append server requests).result.2 }
  | answer {queue : CommitQueue} {submission : Submission} {completion : Completion}
      {owed : List (Submission × Completion)} {result : CommitGroupResult} {logicalBatches : Nat}
      (answering : queue.worker = .answering ((submission, completion) :: owed) result logicalBatches) :
      QueueStep queue [.settled submission (.answered completion)] { queue with
        memory := queue.memory.release submission.units
        worker := .answering owed result logicalBatches }
  | finish {queue : CommitQueue} {result : CommitGroupResult} {logicalBatches : Nat}
      (answering : queue.worker = .answering [] result logicalBatches) :
      QueueStep queue [] { queue with worker := .idle, metrics := queue.metrics.finish result logicalBatches }
  /-- The runtime is gone. -/
  | lose {queue : CommitQueue} {requests : List Submission} (filled : queue.worker = .filled requests) :
      QueueStep queue [] { queue with worker := .rejecting requests }
  | reject {queue : CommitQueue} {submission : Submission} {requests : List Submission}
      (rejecting : queue.worker = .rejecting (submission :: requests)) :
      QueueStep queue [.settled submission .shutDown] { queue with
        memory := queue.memory.release submission.units
        worker := .rejecting requests }
  | stop {queue : CommitQueue} (rejecting : queue.worker = .rejecting []) :
      QueueStep queue (queue.lost.map (QueueEvent.settled · .dropped)) queue.close
  /-- The worker is ended, or fails, where it waits. -/
  | die {queue : CommitQueue} (suspended : queue.worker.suspended = true) :
      QueueStep queue (queue.lost.map (QueueEvent.settled · .dropped)) queue.close

/-- What the clients and the worker have come to after a run, with the run's events. -/
def QueueRun (events : List QueueEvent) (queue : CommitQueue) : Prop :=
  ∃ labels, Trace QueueStep .start labels queue ∧ labels.flatten = events

theorem QueueRun.snoc {past events : List QueueEvent} {queue after : CommitQueue} (run : QueueRun past queue)
    (step : QueueStep queue events after) : QueueRun (past ++ events) after := by
  obtain ⟨labels, trace, rfl⟩ := run
  refine ⟨labels ++ [events], trace.snoc step, ?_⟩
  rw [List.flatten_append, List.flatten_singleton]

/-- What holds at the start and is kept by every step holds after every run. -/
@[elab_as_elim]
theorem QueueRun.keeps {holds : List QueueEvent → CommitQueue → Prop} {events : List QueueEvent}
    {queue : CommitQueue} (run : QueueRun events queue) (initially : holds [] .start)
    (step : ∀ past before events after, holds past before → QueueStep before events after →
      holds (past ++ events) after) : holds events queue := by
  obtain ⟨labels, trace, rfl⟩ := run
  have kept := trace.accumulates step initially
  rwa [List.nil_append] at kept

end Model

end OnyxDB.Coordinator
