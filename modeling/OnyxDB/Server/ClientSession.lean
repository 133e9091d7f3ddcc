import OnyxDB.Coordinator.GroupAnswers
import OnyxDB.Library.Rounds
import OnyxDB.Replication.Session

/-! The connection of a client that speaks RESP: it authenticates, queues a transaction, and has its commands
executed, consecutive writes together. Replies are written to a buffer, which is flushed unless more input is at
hand. -/

namespace OnyxDB.Server
open OnyxDB.Library OnyxDB.Library.Arrival OnyxDB.Engine OnyxDB.Engine.Value OnyxDB.Store OnyxDB.Protocol
  OnyxDB.Command OnyxDB.Coordinator OnyxDB.Persistence.Model

section Queue

def maxTransactionCommands : Nat := 1024
def maxTransactionBytes : Nat := 16 * 1024 * 1024

structure TransactionQueue where
  commands : List (List String) := []
  encodedBytes : Nat := 0
  failed : Bool := false

namespace TransactionQueue

def countLimit : String := "ERR transaction queue command limit exceeded"
def byteLimit : String := "ERR transaction queue byte limit exceeded"

/-- What a command counts for, as long as it can be counted. -/
def commandBytes (command : List String) : Option Nat :=
  command.foldlM (fun total argument => checkedAdd total (saturatingAdd (utf8Bytes argument).length 16)) 16

def refuse (queue : TransactionQueue) (message : String) : Except String Unit × TransactionQueue :=
  (.error message, { queue with failed := true })

def enqueue (queue : TransactionQueue) (command : List String) : Except String Unit × TransactionQueue :=
  if queue.failed then (.error "ERR transaction queue is already invalid", queue)
  else if queue.commands.length ≥ maxTransactionCommands then queue.refuse countLimit
  else
    match (commandBytes command).bind (checkedAdd queue.encodedBytes) with
    | none => queue.refuse byteLimit
    | some projectedBytes =>
        if projectedBytes > maxTransactionBytes then queue.refuse byteLimit
        else (.ok (), { queue with encodedBytes := projectedBytes, commands := queue.commands ++ [command] })

end TransactionQueue

end Queue

section Node

/-- What a master knows of a replica. -/
structure ReplicaStatus where
  addr : String
  lastAckOffset : Nat
  lastAckTime : Nat

/-- What the connections share. The counters wrap around. -/
structure Node where
  server : Coordinator.Server
  isReplica : Bool
  startTime : Nat
  activeConnections : UInt64
  totalCommands : UInt64
  cacheHits : UInt64
  cacheMisses : UInt64
  replicaStatuses : List ReplicaStatus
  /-- The subscribers of each channel, by their numbers. -/
  subscriptions : AList (fun _ : String => List Nat)
  /-- What has been sent to the subscribers. -/
  published : List (String × String)

/-- What a session uses of the rest of the server: its configuration, storage, the operations that are not those of
a session, and the text of a floating point quotient. -/
class Surroundings where
  users : Users
  append : AppendBatches
  compactStore : Node → Except PersistenceError Unit × Node
  prepareReplicaPromotion : Node → Except PersistenceError Unit × Node
  /-- `format!("{:.1}", (hits as f64 / (hits + misses) as f64) * 100.0)`. -/
  percentText : UInt64 → UInt64 → String

export Surroundings (users append compactStore prepareReplicaPromotion percentText)

def Node.count (node : Node) (commands : Nat) : Node :=
  { node with totalCommands := node.totalCommands + UInt64.ofNat commands }

def eqIgnoreAsciiCase (first second : String) : Bool := makeAsciiUppercase first == makeAsciiUppercase second

variable [Surroundings]

/-- The counters as `INFO` finds them. -/
@[reducible]
def Node.process (node : Node) : Process where
  role := if node.isReplica then "replica" else "master"
  startTime := node.startTime
  activeConnections := node.activeConnections.toNat
  totalCommands := node.totalCommands.toNat
  cacheHits := node.cacheHits.toNat
  cacheMisses := node.cacheMisses.toNat
  hitRatePercent :=
    if node.cacheHits + node.cacheMisses > 0 then percentText node.cacheHits node.cacheMisses else "0.0"

end Node

section Execution
variable [Platform] [Surroundings]

/-- `execute_command` on the store of a node. -/
def executeCommandOn (arguments : List String) (node : Node) : RESPValue × Node :=
  let (outcome, store) := @executeServerCommand _ node.process arguments node.server.store
  (outcome.response, { node with server := { node.server with store := store } })

/-- A call of the commit coordinator that has it for itself. -/
def callCoordinator (operation : MasterCommitOperation) (node : Node) : Completion × Node :=
  match operation.check with
  | .error error => (.error error, node)
  | .ok _ =>
      let (completions, server) := @processCommitGroup _ node.process append [operation] node.server
      (completions.headD
          (.error { message := "Master commit coordinator dropped the outcome", indeterminate := true }),
        { node with server := server })

def executeOrderedCommand (arguments : List String) (node : Node) : RESPValue × Node :=
  if !isWriteCommand (argument arguments 0) then executeCommandOn arguments node
  else
    let (completion, node) := callCoordinator (.command arguments) node
    match MasterCommitCoordinator.executeCommand completion with
    | .ok outcome => (outcome.response, node)
    | .error error => (.error (misconfMessage error), node)

def executeOrderedCommands (commands : List (List String)) (node : Node) : List RESPValue × Node :=
  let (completion, node) := callCoordinator (.commandGroup commands) node
  match MasterCommitCoordinator.executeCommands completion with
  | .ok outcomes => (outcomes.map CommandOutcome.response, node)
  | .error error => (commands.map (fun _ => .error (misconfMessage error)), node)

def readOnly : RESPValue := .error "READONLY this instance is a read-only replica"

/-- The commands of a transaction that the coordinator does not see, one after another. -/
def executeEach (execute : List String → Node → RESPValue × Node) :
    List (List String) → Node → List RESPValue × Node
  | [], node => ([], node)
  | arguments :: commands, node =>
      let (response, node) := execute arguments node
      let (responses, node) := executeEach execute commands node
      (response :: responses, node)

def executeTransaction (commands : List (List String)) (node : Node) : RESPValue × Node :=
  if !commands.any (fun arguments => arguments.head?.any isWriteCommand) then
    let (responses, node) := executeEach executeCommandOn commands node
    (.array responses, node)
  else if node.isReplica then
    let (responses, node) := executeEach
      (fun arguments node =>
        if isWriteCommand (argument arguments 0) then (readOnly, node) else executeCommandOn arguments node)
      commands node
    (.array responses, node)
  else
    let (completion, node) := callCoordinator (.transaction commands) node
    match MasterCommitCoordinator.executeTransaction completion with
    | .ok response => (response, node)
    | .error error =>
        if "MISCONF ".toList.isPrefixOf error.message.toList then (.error error.message, node)
        else (.error s!"MISCONF transaction persistence failed: {error.message}", node)

/-- The lines that `INFO` ends with for the replicas. -/
def replicaLines (offset : Nat) : Nat → List ReplicaStatus → StoreM String
  | _, [] => return ""
  | index, status :: statuses => do
      let lag := offset - status.lastAckOffset
      let lastAckSecsAgo := (← ShardedStore.now) - status.lastAckTime
      let rest ← replicaLines offset (index + 1) statuses
      return s!"\nslave{index}:addr={status.addr},offset={status.lastAckOffset}" ++
        s!",lag={lag},last_ack_secs_ago={lastAckSecsAgo}" ++ rest

/-- What `INFO` says of replication. -/
def replicationInfo (node : Node) : String × Node :=
  let offset := node.server.runtime.replOffset
  let maxLag := ((node.replicaStatuses.map (fun status => offset - status.lastAckOffset)).max?).getD 0
  let (lines, store) := replicaLines offset 0 node.replicaStatuses node.server.store
  (s!"\nmaster_repl_offset:{offset}\nconnected_replicas:{node.replicaStatuses.length}" ++
      s!"\nmax_replica_lag:{maxLag}" ++ lines,
    { node with server := { node.server with store := store } })

def extendInfo (command : String) : RESPValue × Node → RESPValue × Node
  | (.bulkString (some text), node) =>
      if eqIgnoreAsciiCase command "INFO" then
        let (more, node) := replicationInfo node
        (.bulkString (some (text ++ more)), node)
      else (.bulkString (some text), node)
  | answer => answer

/-- The cache counters take every bulk reply to a read for a hit or a miss. -/
def countCache (command : String) (response : RESPValue) (node : Node) : Node :=
  if isWriteCommand command then node
  else
    match response with
    | .bulkString none => { node with cacheMisses := node.cacheMisses + 1 }
    | .bulkString (some _) => { node with cacheHits := node.cacheHits + 1 }
    | _ => node

/-- A command that is neither the session's own nor committed in a pipeline. -/
def executeNormal (arguments : List String) (node : Node) : RESPValue × Node :=
  let command := argument arguments 0
  if command = "SAVE" then
    match compactStore node with
    | (.ok _, node) => (.simpleString "OK", node)
    | (.error error, node) => (.error s!"ERR snapshot failed: {error.message}", node)
  else if node.isReplica && isWriteCommand command then (readOnly, node)
  else if node.isReplica && eqIgnoreAsciiCase command "REPLICAOF" &&
      (arguments[1]?).any (eqIgnoreAsciiCase · "no") && (arguments[2]?).any (eqIgnoreAsciiCase · "one") then
    match prepareReplicaPromotion (node.count 1) with
    | (.ok _, node) => (.simpleString "OK", node)
    | (.error error, node) => (.error s!"MISCONF promotion failed: {error.message}", node)
  else
    let (response, node) := extendInfo command (executeOrderedCommand arguments (node.count 1))
    (response, countCache command response node)

end Execution

section Session

/-- What a connection knows of its client, and the node it works on. -/
structure ClientState where
  authenticated : Bool
  transaction : Option TransactionQueue
  node : Node

/-- How a connection leaves the command loop by a command. -/
inductive Departure where
  | subscribed (channels : List String)
  | replicates (request : Replication.Stream.SyncRequest)
  | refused

/-- What a command is answered with, and whether the answer is flushed in any case. -/
structure Reaction where
  replies : List RESPValue
  prompt : Bool
  state : ClientState
  departure : Option Departure

/-- The reply of a command of the session itself. -/
def answered (reply : RESPValue) (state : ClientState) : Reaction := ⟨[reply], true, state, none⟩

/-- The connection is closed behind the reply. -/
def dismissed (message : String) (state : ClientState) : Reaction := ⟨[.error message], true, state, some .refused⟩

def noAuth : String := "NOAUTH authentication required. Use AUTH password"

variable [Surroundings]

/-- `AUTH password` or `AUTH username password`. -/
def authenticate (arguments : List String) (state : ClientState) : Reaction :=
  let (username, password) :=
    if arguments.length ≥ 3 then (argument arguments 1, argument arguments 2) else ("default", argument arguments 1)
  if !authRequired users then answered (.error "ERR no password configured on this server") state
  else if checkCredentials users username password then
    answered (.simpleString "OK") { state with authenticated := true }
  else answered (.error "WRONGPASS invalid username or password") state

def multi (state : ClientState) : Reaction :=
  match state.transaction with
  | some _ => answered (.error "ERR MULTI calls cannot be nested") state
  | none => answered (.simpleString "OK") { state with transaction := some {} }

def discard (state : ClientState) : Reaction :=
  match state.transaction with
  | some _ => answered (.simpleString "OK") { state with transaction := none }
  | none => answered (.error "ERR DISCARD without an active transaction (use MULTI first)") state

def enqueueCommand (arguments : List String) (queue : TransactionQueue) (state : ClientState) : Reaction :=
  let (accepted, queue) := queue.enqueue arguments
  let state := { state with transaction := some queue }
  match accepted with
  | .ok _ => answered (.simpleString "QUEUED") state
  | .error message => answered (.error message) state

def publish (arguments : List String) (state : ClientState) : Reaction :=
  let channel := argument arguments 1
  let receiverCount := ((state.node.subscriptions.lookup channel).getD []).length
  answered (Command.count receiverCount)
    { state with node := { state.node with published := state.node.published ++ [(channel, argument arguments 2)] } }

/-- `SYNC3`: a master takes the request of a replica. -/
def synchronize (arguments : List String) (state : ClientState) : Reaction :=
  if state.node.isReplica then dismissed "ERR chained replication is not supported" state
  else
    match Replication.Stream.parseSync3 arguments with
    | .error message => dismissed message state
    | .ok request => ⟨[], false, state, some (.replicates request)⟩

variable [Platform]

def exec (state : ClientState) : Reaction :=
  match state.transaction with
  | none => answered (.error "ERR EXEC without an active transaction (use MULTI first)") state
  | some queue =>
      let state := { state with transaction := none }
      if queue.failed then
        answered (.error "EXECABORT transaction discarded because its queue limit was exceeded") state
      else
        let (response, node) := executeTransaction queue.commands state.node
        answered response { state with node := node }

/-- What becomes of a command that is not committed in a pipeline. -/
def react (arguments : List String) (state : ClientState) : Reaction :=
  let command := argument arguments 0
  if eqIgnoreAsciiCase command "AUTH" then authenticate arguments state
  else if !state.authenticated then answered (.error noAuth) state
  else if eqIgnoreAsciiCase command "MULTI" then multi state
  else if eqIgnoreAsciiCase command "DISCARD" then discard state
  else if eqIgnoreAsciiCase command "EXEC" then exec state
  else
    match state.transaction with
    | some queue => enqueueCommand arguments queue state
    | none =>
        if command = "PUBLISH" then publish arguments state
        else if command = "SUBSCRIBE" then ⟨[], false, state, some (.subscribed arguments.tail)⟩
        else if command = "SYNC" then
          dismissed "ERR replication protocol version 3 is required; use SYNC3" state
        else if command = "SYNC3" then synchronize arguments state
        else
          let (response, node) := executeNormal arguments state.node
          ⟨[response], false, { state with node := node }, none⟩

/-- Whether write commands are collected from the buffer. -/
def ClientState.pipelines (state : ClientState) : Bool :=
  state.authenticated && state.transaction.isNone && !state.node.isReplica

/-- The write commands of a pipeline. -/
def commitPipeline (commands : List (List String)) (state : ClientState) : List RESPValue × ClientState :=
  let (responses, node) := executeOrderedCommands commands (state.node.count commands.length)
  (responses, { state with node := node })

end Session

section Loop

/-- What the loop over the buffer collects: the commands, whether the reply to what follows will be flushed with
theirs, and the error that follows. -/
structure Collected where
  commands : List (List String)
  reader : Reader UInt8
  bufferedCompleteBarrier : Bool
  protocolError : Option IoError

/-- The loop over the buffer, with room for `slots` more commands. -/
def collectWrites : Nat → List (List String) → Reader UInt8 → Collected
  | 0, commands, reader => ⟨commands, reader, false, none⟩
  | slots + 1, commands, reader =>
      match decodeBufferedCommand reader.buffer clientRespLimits with
      | .error error => ⟨commands, reader, true, some error⟩
      | .ok none => ⟨commands, reader, false, none⟩
      | .ok (some (next, consumed)) =>
          if next.isEmpty then ⟨commands, reader, false, none⟩
          else if !writes (normalize next) then ⟨commands, reader, true, none⟩
          else collectWrites slots (commands ++ [normalize next]) (reader.consume consumed)

theorem collectWrites_grouped (slots : Nat) (commands : List (List String)) (reader : Reader UInt8) :
    groupBuffered slots commands reader = ((collectWrites slots commands reader).commands,
      (collectWrites slots commands reader).reader, (collectWrites slots commands reader).protocolError) := by
  induction slots generalizing commands reader with
  | zero => rfl
  | succ slots rest =>
      unfold groupBuffered collectWrites
      cases decodeBufferedCommand reader.buffer clientRespLimits with
      | error error => rfl
      | ok found =>
          cases found with
          | none => rfl
          | some pair =>
              obtain ⟨next, consumed⟩ := pair
              simp only
              by_cases empty : next.isEmpty = true
              · rw [if_pos empty, if_pos empty]
              · rw [if_neg empty, if_neg empty]
                by_cases other : (!writes (normalize next)) = true
                · rw [if_pos other, if_pos other]
                · rw [if_neg other, if_neg other]
                  exact rest _ _

theorem collectWrites_shortens (slots : Nat) (commands : List (List String)) (reader : Reader UInt8) :
    (collectWrites slots commands reader).reader.stream.length ≤ reader.stream.length := by
  have shorter := groupBuffered_shortens slots commands reader
  rw [collectWrites_grouped] at shorter
  exact shorter

structure Connection where
  state : ClientState
  reader : Reader UInt8
  /-- The replies that have been written, and how many of them have been flushed. -/
  replies : List RESPValue
  flushed : Nat
  bufferedProtocolError : Option IoError

/-- How the command loop ends, if it does not wait for input. -/
inductive SessionEnding where
  | waiting
  | closed
  | protocolError (error : IoError)
  | left (departure : Departure)

abbrev Round := Turn Connection (Connection × SessionEnding)

namespace Connection

def write (connection : Connection) (replies : List RESPValue) : Connection :=
  { connection with replies := connection.replies ++ replies }

def flush (connection : Connection) : Connection := { connection with flushed := connection.replies.length }

/-- The reply to input that is not a command. -/
def protocolErrorReply (error : IoError) : RESPValue := .error s!"ERR Protocol error: {error.message}"

def fail (connection : Connection) (error : IoError) : Round :=
  .ended ((connection.write [protocolErrorReply error]).flush, .protocolError error)

variable [Surroundings] [Platform]

/-- The commands that have been collected are committed together. -/
def commit (connection : Connection) (collected : Collected) : Connection :=
  let (responses, state) := commitPipeline collected.commands connection.state
  let connection :=
    { connection with
      state := state
      reader := collected.reader
      bufferedProtocolError := collected.protocolError }.write responses
  if collected.bufferedCompleteBarrier then connection else connection.flush

/-- A command that is handled by itself. -/
def handle (connection : Connection) (arguments : List String) : Round :=
  let reaction := react arguments connection.state
  let connection := { connection with state := reaction.state }.write reaction.replies
  match reaction.departure with
  | some departure => .ended (if reaction.prompt then connection.flush else connection, .left departure)
  | none =>
      .again (if reaction.prompt || connection.reader.buffer.isEmpty then connection.flush else connection)

/-- One round of the loop. -/
def round (connection : Connection) : Round :=
  match connection.bufferedProtocolError with
  | some error => connection.fail error
  | none =>
      match readCommandWithLimits clientRespLimits connection.reader with
      | .pending => .ended (connection, .waiting)
      | .ready (.error error) reader => { connection with reader := reader }.fail error
      | .ready (.ok none) reader => .ended ({ connection with reader := reader }.flush, .closed)
      | .ready (.ok (some arguments)) reader =>
          if arguments.isEmpty then .again { connection with reader := reader }
          else if connection.state.pipelines && writes (normalize arguments) then
            .again (connection.commit
              (collectWrites (maxPipelinedCommitCommands - 1) [normalize arguments] reader))
          else { connection with reader := reader }.handle (normalize arguments)

theorem commit_reader (connection : Connection) (collected : Collected) :
    (connection.commit collected).reader = collected.reader := by
  unfold commit
  simp only
  split <;> rfl

/-- A command that does not end the loop leaves the input to the next round. -/
theorem handle_again {connection next : Connection} {arguments : List String}
    (turn : connection.handle arguments = .again next) :
    (react arguments connection.state).departure = none ∧ next.reader = connection.reader := by
  unfold handle at turn
  simp only at turn
  cases left : (react arguments connection.state).departure with
  | some departure =>
      rw [left] at turn
      cases turn
  | none =>
      rw [left] at turn
      cases turn
      refine ⟨rfl, ?_⟩
      split <;> rfl

theorem round_shortens {connection next : Connection} (turn : connection.round = .again next) :
    next.reader.stream.length < connection.reader.stream.length := by
  unfold round at turn
  split at turn
  · cases turn
  · split at turn
    · cases turn
    · cases turn
    · cases turn
    next arguments reader read =>
      have shorter := readCommand_shortens read
      split at turn
      · cases turn
        exact shorter
      · split at turn
        · cases turn
          rw [commit_reader]
          exact Nat.lt_of_le_of_lt (collectWrites_shortens _ _ _) shorter
        · rw [(handle_again turn).2]
          exact shorter

/-- The command loop of `handle_client`. -/
def commandLoop : Loop Connection (Connection × SessionEnding) where
  round := round
  rank := fun connection => connection.reader.stream.length
  falls := round_shortens

/-- All that is done with the input there is. -/
def serve (connection : Connection) : Connection × SessionEnding := commandLoop.run connection

end Connection

end Loop

end OnyxDB.Server
