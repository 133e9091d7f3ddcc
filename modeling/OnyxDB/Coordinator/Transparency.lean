import OnyxDB.Coordinator.Preparation
import OnyxDB.Coordinator.Process
import OnyxDB.Engine.Reference

/-! Grouping is transparent: while storage accepts every append and the clock stands still, clients, storage and
the store see the same whether requests are committed in groups or one command and one transaction at a time. -/

namespace OnyxDB.Coordinator
open OnyxDB.Library OnyxDB.Engine OnyxDB.Engine.Value OnyxDB.Store OnyxDB.Protocol OnyxDB.Command
  OnyxDB.Persistence.Model OnyxDB.Persistence.Commit

section Answers

/-- The commands and transactions a request carries. -/
def MasterCommitOperation.singles : MasterCommitOperation → List MasterCommitOperation
  | .commandGroup commands => commands.map .command
  | request => [request]

/-- What a client is told about one command or transaction. -/
inductive Answer where
  | resp (value : RESPValue)
  | obp (result : ObpMutationResult)
  | failed (error : PersistenceError)

def MasterCommitResponse.answers : MasterCommitResponse → List Answer
  | .command outcome => [.resp outcome.response]
  | .commandGroup outcomes => outcomes.map (fun outcome => .resp outcome.response)
  | .transaction response => [.resp response]
  | .obp result => [.obp result]

/-- A request that fails fails for all it carries. -/
def MasterCommitOperation.answers (request : MasterCommitOperation) : Completion → List Answer
  | .ok response => response.answers
  | .error error => request.singles.map (fun _ => .failed error)

theorem markCommitted_answers (response : MasterCommitResponse) :
    response.markCommitted.answers = response.answers := by
  cases response with
  | commandGroup outcomes =>
      simp only [MasterCommitResponse.markCommitted, MasterCommitResponse.answers, List.map_map]
      apply List.map_congr_left
      intro outcome _
      simp only [Function.comp]
      split <;> rfl
  | command => rfl
  | transaction => rfl
  | obp => rfl

end Answers

section Numbering

/-- The batches under the sequences after `sequence`, when there are enough of them. -/
def numbered : Nat → List CommittedBatch → List (Nat × CommittedBatch)
  | _, [] => []
  | sequence, batch :: batches => (sequence + 1, batch) :: numbered (sequence + 1) batches

theorem numbered_append (sequence : Nat) (first second : List CommittedBatch) :
    numbered sequence (first ++ second) =
      numbered sequence first ++ numbered (sequence + first.length) second := by
  induction first generalizing sequence with
  | nil => rfl
  | cons batch first rest =>
      rw [List.cons_append, numbered, numbered, rest, List.length_cons, List.cons_append,
        Nat.add_assoc, Nat.add_comm 1]

theorem checkedNext_fits {sequence : Nat} (fits : sequence + 1 < 2 ^ 64) :
    checkedNext sequence = some (sequence + 1) :=
  if_pos fits

theorem numberBatches_fits {sequence : Nat} {batches : List CommittedBatch}
    (fits : sequence + batches.length < 2 ^ 64) :
    numberBatches sequence batches = some (numbered sequence batches) := by
  induction batches generalizing sequence with
  | nil => rfl
  | cons batch batches rest =>
      rw [List.length_cons] at fits
      rw [numberBatches, checkedNext_fits (by omega), Option.bind_some, rest (by omega), Option.map_some, numbered]

theorem numberBatches_some {sequence : Nat} {batches : List CommittedBatch} {entries : List (Nat × CommittedBatch)}
    (given : numberBatches sequence batches = some entries) :
    entries = numbered sequence batches ∧ (batches ≠ [] → sequence + batches.length < 2 ^ 64) := by
  induction batches generalizing sequence entries with
  | nil =>
      cases given
      exact ⟨rfl, fun filled => absurd rfl filled⟩
  | cons batch batches rest =>
      rw [numberBatches] at given
      obtain ⟨next, succeeds, given⟩ := Option.bind_eq_some_iff.mp given
      obtain ⟨later, numbers, rfl⟩ := Option.map_eq_some_iff.mp given
      unfold checkedNext at succeeds
      obtain ⟨fits, same⟩ := Option.ite_none_right_eq_some.mp succeeds
      obtain rfl := Option.some.inj same
      obtain ⟨rfl, room⟩ := rest numbers
      refine ⟨rfl, fun _ => ?_⟩
      cases batches with
      | nil => exact fits
      | cons second batches =>
          have further := room (by simp)
          simp only [List.length_cons] at further ⊢
          omega

theorem checkNumbering_fits {sequence : Nat} {batches : List CommittedBatch}
    (fits : sequence + batches.length < 2 ^ 64) :
    CommitRuntime.checkNumbering (checkedNext sequence) (numbered sequence batches) = .ok () := by
  induction batches generalizing sequence with
  | nil =>
      unfold numbered CommitRuntime.checkNumbering
      rfl
  | cons batch batches rest =>
      rw [List.length_cons] at fits
      rw [checkedNext_fits (by omega), numbered, CommitRuntime.checkNumbering, if_neg (by simp)]
      exact rest (by omega)

theorem numbered_last (sequence : Nat) (batch : CommittedBatch) (batches : List CommittedBatch) :
    ∃ last, (numbered sequence (batch :: batches)).getLast? = some (sequence + batches.length + 1, last) := by
  induction batches generalizing sequence batch with
  | nil => exact ⟨batch, rfl⟩
  | cons next batches rest =>
      obtain ⟨last, ended⟩ := rest (sequence + 1) next
      have shape : numbered (sequence + 1) (next :: batches) =
          (sequence + 1 + 1, next) :: numbered (sequence + 1 + 1) batches := rfl
      have place : sequence + 1 + batches.length + 1 = sequence + (next :: batches).length + 1 := by
        rw [List.length_cons]
        omega
      rw [numbered, shape, List.getLast?_cons_cons, ← shape, ended, place]
      exact ⟨last, rfl⟩

/-- The runtime after storage has acknowledged some batches. -/
def CommitRuntime.advance (runtime : CommitRuntime) (batches : List CommittedBatch) : CommitRuntime :=
  { runtime with
    replOffset := runtime.replOffset + batches.length
    appended := runtime.appended ++ numbered runtime.replOffset batches
    backlog := (numbered runtime.replOffset batches).foldl CommitRuntime.pushBacklog runtime.backlog
    published := runtime.published ++ numbered runtime.replOffset batches }

theorem advance_nil (runtime : CommitRuntime) : runtime.advance [] = runtime := by
  simp [CommitRuntime.advance, numbered]

/-- Batches acknowledged in two appends are acknowledged as in one. -/
theorem advance_append (runtime : CommitRuntime) (first second : List CommittedBatch) :
    (runtime.advance first).advance second = runtime.advance (first ++ second) := by
  simp only [CommitRuntime.advance, numbered_append, List.length_append, List.append_assoc, List.foldl_append,
    Nat.add_assoc]

/-- Numbered batches are handed to storage, whose answer decides. -/
theorem persistAndPublish_eq (append : AppendBatches) {runtime : CommitRuntime} {batch : CommittedBatch}
    {batches : List CommittedBatch} (fits : runtime.replOffset + (batch :: batches).length < 2 ^ 64) :
    runtime.persistAndPublishMasterBatches append (numbered runtime.replOffset (batch :: batches)) =
      (append runtime.appended (numbered runtime.replOffset (batch :: batches))).map
        (fun _ => runtime.advance (batch :: batches)) := by
  obtain ⟨last, ended⟩ := numbered_last runtime.replOffset batch batches
  have next : checkedNext runtime.replOffset = some (runtime.replOffset + 1) := by
    rw [List.length_cons] at fits
    exact checkedNext_fits (by omega)
  have numbering := checkNumbering_fits fits
  rw [next] at numbering
  simp only [CommitRuntime.persistAndPublishMasterBatches, CommitRuntime.acceptNextBatches, ended,
    CommitRuntime.nextSequence, next, bind, Except.bind, numbering]
  cases append runtime.appended (numbered runtime.replOffset (batch :: batches)) <;> rfl

theorem persistAndPublish_advance {append : AppendBatches} (accepts : ∀ log group, append log group = .ok ())
    {runtime : CommitRuntime} {batch : CommittedBatch} {batches : List CommittedBatch}
    (fits : runtime.replOffset + (batch :: batches).length < 2 ^ 64) :
    runtime.persistAndPublishMasterBatches append (numbered runtime.replOffset (batch :: batches)) =
      .ok (runtime.advance (batch :: batches)) := by
  rw [persistAndPublish_eq append fits, accepts]
  rfl

end Numbering

variable [Platform] [Process]

section Runs

/-- Requests prepared one after another, none of which fails. -/
inductive Prepares : ShardedStore → List MasterCommitOperation → List PreparedMasterCommit → ShardedStore → Prop where
  | done (store : ShardedStore) : Prepares store [] [] store
  | next {store middle after : ShardedStore} {request : MasterCommitOperation} {pending : PreparedMasterCommit}
      {requests : List MasterCommitOperation} {prepared : List PreparedMasterCommit}
      (first : prepareRequest request store = (.ok pending, middle))
      (rest : Prepares middle requests prepared after) :
      Prepares store (request :: requests) (pending :: prepared) after

theorem Prepares.append {store middle after : ShardedStore} {first second : List MasterCommitOperation}
    {early late : List PreparedMasterCommit} (before : Prepares store first early middle)
    (later : Prepares middle second late after) : Prepares store (first ++ second) (early ++ late) after := by
  induction before with
  | done => exact later
  | next request _ rest => exact .next request (rest later)

theorem Prepares.split {first second : List MasterCommitOperation} {store after : ShardedStore}
    {prepared : List PreparedMasterCommit} (prepares : Prepares store (first ++ second) prepared after) :
    ∃ early late middle, prepared = early ++ late ∧ Prepares store first early middle ∧
      Prepares middle second late after := by
  induction first generalizing store prepared with
  | nil => exact ⟨[], prepared, store, rfl, .done store, prepares⟩
  | cons request first rest =>
      cases prepares with
      | next here later =>
          obtain ⟨early, late, middle, rfl, before, after⟩ := rest later
          exact ⟨_ :: early, late, middle, rfl, .next here before, after⟩

/-- At a clock that stands still every list of requests can be prepared. -/
theorem prepares_all {time : Nat} (requests : List MasterCommitOperation) {store : ShardedStore}
    (fixed : store.engine.clock.Fixed time) :
    ∃ prepared after, Prepares store requests prepared after ∧ after.engine.clock.Fixed time := by
  induction requests generalizing store with
  | nil => exact ⟨[], store, .done store, fixed⟩
  | cons request requests rest =>
      obtain ⟨pending, middle, first, standing⟩ := prepareRequest_settles time request store fixed
      obtain ⟨prepared, after, prepares, last⟩ := rest standing
      exact ⟨pending :: prepared, after, .next first prepares, last⟩

theorem prepareRequests_eq {store after : ShardedStore} {requests : List MasterCommitOperation}
    {prepared : List PreparedMasterCommit} (prepares : Prepares store requests prepared after)
    (before : List PreparedMasterCommit) :
    prepareRequests requests before store = (.ok (before ++ prepared), after) := by
  induction prepares generalizing before with
  | done store =>
      rw [List.append_nil]
      rfl
  | next first _ rest =>
      simp only [prepareRequests, bind, StateT.bind, first]
      rw [rest, List.append_assoc, List.singleton_append]

end Runs

section Groups

/-- Groups processed one after another, with the answers in the order of the commands. -/
def commitGroups (append : AppendBatches) :
    List (List MasterCommitOperation) → Server → List Answer × Server
  | [], server => ([], server)
  | requests :: groups, server =>
      let (completions, server) := processCommitGroup append requests server
      let (answers, server) := commitGroups append groups server
      ((List.zipWith MasterCommitOperation.answers requests completions).flatten ++ answers, server)

/-- Every command and every transaction in a group of its own. -/
def aloneGroups (requests : List MasterCommitOperation) : List (List MasterCommitOperation) :=
  (requests.flatMap MasterCommitOperation.singles).map (fun request => [request])

omit [Platform] [Process] in
theorem aloneGroups_flatten (requests : List MasterCommitOperation) :
    (aloneGroups requests).flatten = requests.flatMap MasterCommitOperation.singles := by
  unfold aloneGroups
  generalize requests.flatMap MasterCommitOperation.singles = singles
  induction singles with
  | nil => rfl
  | cons request singles rest => rw [List.map_cons, List.flatten_cons, rest, List.singleton_append]

def allBatches (prepared : List PreparedMasterCommit) : List CommittedBatch :=
  prepared.flatMap PreparedMasterCommit.batches

def allAnswers (prepared : List PreparedMasterCommit) : List Answer :=
  prepared.flatMap (fun pending => pending.response.answers)

omit [Platform] [Process] in
theorem allBatches_cons (pending : PreparedMasterCommit) (prepared : List PreparedMasterCommit) :
    allBatches (pending :: prepared) = pending.batches ++ allBatches prepared := rfl

omit [Platform] [Process] in
theorem allAnswers_cons (pending : PreparedMasterCommit) (prepared : List PreparedMasterCommit) :
    allAnswers (pending :: prepared) = pending.response.answers ++ allAnswers prepared := rfl

omit [Platform] [Process] in
theorem allBatches_append (early late : List PreparedMasterCommit) :
    allBatches (early ++ late) = allBatches early ++ allBatches late := List.flatMap_append

omit [Platform] [Process] in
theorem allAnswers_append (early late : List PreparedMasterCommit) :
    allAnswers (early ++ late) = allAnswers early ++ allAnswers late := List.flatMap_append

theorem completePrepared_answers {store after : ShardedStore} {requests : List MasterCommitOperation}
    {prepared : List PreparedMasterCommit} (prepares : Prepares store requests prepared after) :
    (List.zipWith MasterCommitOperation.answers requests (completePrepared prepared)).flatten =
      allAnswers prepared := by
  unfold completePrepared allAnswers
  induction prepares with
  | done => rfl
  | @next _ _ _ request pending _ _ _ _ rest =>
      simp only [List.map_cons, List.zipWith_cons_cons, List.flatten_cons, List.flatMap_cons, rest]
      congr 1
      split
      · rfl
      · exact markCommitted_answers pending.response

def Server.available (server : Server) : Bool :=
  !(server.runtime.failStopStarted || !server.runtime.acceptingWrites)

omit [Process] in
theorem concludeGroup_prepared {append : AppendBatches} (accepts : ∀ log group, append log group = .ok ())
    (requests : List MasterCommitOperation) {prepared : List PreparedMasterCommit} {server : Server}
    (fits : server.runtime.replOffset + (allBatches prepared).length < 2 ^ 64) :
    concludeGroup append requests prepared server =
      (completePrepared prepared, ⟨server.store, server.runtime.advance (allBatches prepared)⟩) := by
  have numbering : numberBatches server.runtime.replOffset (prepared.flatMap PreparedMasterCommit.batches) =
      some (numbered server.runtime.replOffset (allBatches prepared)) := numberBatches_fits fits
  simp only [concludeGroup, numbering]
  cases batches : allBatches prepared with
  | nil =>
      rw [advance_nil]
      rfl
  | cons batch rest =>
      rw [batches] at fits
      have persisted := persistAndPublish_advance accepts fits
      rw [numbered] at persisted
      simp only [numbered, persisted]

/-- A group of an available server whose sequences do not run out. -/
theorem processCommitGroup_prepared {append : AppendBatches} (accepts : ∀ log group, append log group = .ok ())
    {server : Server} (available : server.available = true) {requests : List MasterCommitOperation}
    {prepared : List PreparedMasterCommit} {after : ShardedStore}
    (prepares : Prepares server.store requests prepared after)
    (fits : server.runtime.replOffset + (allBatches prepared).length < 2 ^ 64) :
    processCommitGroup append requests server =
      (completePrepared prepared, ⟨after, server.runtime.advance (allBatches prepared)⟩) := by
  rw [Server.available, Bool.not_eq_true'] at available
  unfold processCommitGroup
  rw [available, if_neg (by simp), prepareRequests_eq prepares, List.nil_append]
  exact concludeGroup_prepared accepts requests fits

/-- Groups of an available server: what is seen depends on the requests only. -/
theorem commitGroups_prepared {append : AppendBatches} (accepts : ∀ log group, append log group = .ok ())
    (groups : List (List MasterCommitOperation)) {server : Server} (available : server.available = true)
    {prepared : List PreparedMasterCommit} {after : ShardedStore}
    (prepares : Prepares server.store groups.flatten prepared after)
    (fits : server.runtime.replOffset + (allBatches prepared).length < 2 ^ 64) :
    commitGroups append groups server =
      (allAnswers prepared, ⟨after, server.runtime.advance (allBatches prepared)⟩) := by
  induction groups generalizing server prepared with
  | nil =>
      cases prepares
      unfold commitGroups allAnswers allBatches
      rw [List.flatMap_nil, List.flatMap_nil, advance_nil]
  | cons requests groups rest =>
      rw [List.flatten_cons] at prepares
      obtain ⟨early, late, middle, rfl, before, later⟩ := prepares.split
      rw [allBatches_append, List.length_append] at fits
      have group := processCommitGroup_prepared accepts available before (by omega)
      let next : Server := ⟨middle, server.runtime.advance (allBatches early)⟩
      have room : next.runtime.replOffset + (allBatches late).length < 2 ^ 64 := by
        simp only [next, CommitRuntime.advance]
        omega
      have still : next.available = true := available
      have further := rest still later room
      rw [commitGroups, group]
      simp only [next] at further
      simp only [further, completePrepared_answers before, allAnswers_append, allBatches_append, advance_append]

end Groups

section Singles

/-- A prepared command as a request of its own. -/
theorem prepareCommand_of_operation {arguments : List String} {store after : ShardedStore}
    {operation : PreparedCommandOperation}
    (prepared : prepareCommandOperation arguments store = (.ok operation, after)) :
    ∃ pending, prepareRequest (.command arguments) store = (.ok pending, after) ∧
      pending.batches = operation.batch.toList ∧ pending.response = .command operation.outcome := by
  have paired := prepareCommandOperation_paired prepared
  simp only [prepareRequest, prepareCommand, bind, StateT.bind, prepared]
  cases batch : operation.batch with
  | none => exact ⟨_, rfl, rfl, rfl⟩
  | some batch =>
      cases undo : operation.rollback with
      | none =>
          rw [batch, undo] at paired
          cases paired
      | some undo => exact ⟨_, rfl, rfl, rfl⟩

/-- The commands of a group are prepared as they would be one by one. -/
theorem prepareCommands_singles {time : Nat} (commands : List (List String)) {store after : ShardedStore}
    (fixed : store.engine.clock.Fixed time) {before pending : PreparedMasterCommit}
    {outcomes : List CommandOutcome}
    (group : prepareCommands commands before outcomes store = (.ok pending, after)) :
    ∃ prepared, Prepares store (commands.map .command) prepared after ∧
      pending.batches = before.batches ++ allBatches prepared ∧
      pending.response.answers = outcomes.map (fun outcome => .resp outcome.response) ++ allAnswers prepared := by
  induction commands generalizing store before outcomes with
  | nil =>
      cases group
      exact ⟨[], .done _, (List.append_nil _).symm, (List.append_nil _).symm⟩
  | cons arguments commands rest =>
      obtain ⟨operation, middle, prepared, standing⟩ := prepareCommandOperation_settles time arguments store fixed
      obtain ⟨alone, first, batches, response⟩ := prepareCommand_of_operation prepared
      simp only [prepareCommands, bind, StateT.bind, prepared] at group
      obtain ⟨later, prepares, laterBatches, laterAnswers⟩ := rest standing group
      refine ⟨alone :: later, .next first prepares, ?_, ?_⟩
      · rw [laterBatches, allBatches_cons, batches, List.append_assoc]
      · rw [laterAnswers, allAnswers_cons, response, List.map_append, List.append_assoc]
        rfl

/-- A request is prepared as what it carries would be one by one. -/
theorem prepareRequest_singles {time : Nat} {request : MasterCommitOperation} {store after : ShardedStore}
    (fixed : store.engine.clock.Fixed time) {pending : PreparedMasterCommit}
    (prepared : prepareRequest request store = (.ok pending, after)) :
    ∃ singles, Prepares store request.singles singles after ∧ allBatches singles = pending.batches ∧
      allAnswers singles = pending.response.answers := by
  have itself : ∃ singles, Prepares store [request] singles after ∧ allBatches singles = pending.batches ∧
      allAnswers singles = pending.response.answers :=
    ⟨[pending], .next prepared (.done after), List.flatMap_singleton _ _, List.flatMap_singleton _ _⟩
  cases request with
  | command => exact itself
  | transaction => exact itself
  | obpSet => exact itself
  | obpDelete => exact itself
  | commandGroup commands =>
      obtain ⟨singles, prepares, batches, answers⟩ := prepareCommands_singles commands fixed prepared
      exact ⟨singles, prepares, batches.symm, answers.symm⟩

theorem prepares_singles {time : Nat} {requests : List MasterCommitOperation} {store after : ShardedStore}
    {prepared : List PreparedMasterCommit} (fixed : store.engine.clock.Fixed time)
    (prepares : Prepares store requests prepared after) :
    ∃ singles, Prepares store (requests.flatMap MasterCommitOperation.singles) singles after ∧
      allBatches singles = allBatches prepared ∧ allAnswers singles = allAnswers prepared := by
  induction prepares with
  | done store => exact ⟨[], .done store, rfl, rfl⟩
  | @next store middle after request pending requests prepared first _ rest =>
      obtain ⟨value, same, settled, standing⟩ := prepareRequest_settles time request store fixed
      rw [first] at settled
      cases settled
      obtain ⟨early, before, batches, answers⟩ := prepareRequest_singles fixed first
      obtain ⟨late, later, laterBatches, laterAnswers⟩ := rest standing
      refine ⟨early ++ late, before.append later, ?_, ?_⟩
      · rw [allBatches_append, allBatches_cons, batches, laterBatches]
      · rw [allAnswers_append, allAnswers_cons, answers, laterAnswers]

end Singles

section Transparency

/-- The batches some requests come to when they are prepared on a store one after another. -/
def derivedBatches (requests : List MasterCommitOperation) (store : ShardedStore) : List CommittedBatch :=
  match (prepareRequests requests [] store).1 with
  | .ok prepared => allBatches prepared
  | .error _ => []

theorem derivedBatches_eq {store after : ShardedStore} {requests : List MasterCommitOperation}
    {prepared : List PreparedMasterCommit} (prepares : Prepares store requests prepared after) :
    derivedBatches requests store = allBatches prepared := by
  unfold derivedBatches
  rw [prepareRequests_eq prepares, List.nil_append]

/-- Groups are committed as what they carry would be one by one. -/
def Transparent (append : AppendBatches) (groups : List (List MasterCommitOperation)) (server : Server) : Prop :=
  commitGroups append groups server = commitGroups append (aloneGroups groups.flatten) server

omit [Platform] [Process] in
theorem rejectRequests_answers (requests : List MasterCommitOperation) (error : PersistenceError) :
    (List.zipWith MasterCommitOperation.answers requests (rejectRequests requests error)).flatten =
      (requests.flatMap MasterCommitOperation.singles).map (fun _ => .failed (copyPersistenceError error)) := by
  unfold rejectRequests
  induction requests with
  | nil => rfl
  | cons request requests rest =>
      rw [List.map_cons, List.zipWith_cons_cons, List.flatten_cons, rest, List.flatMap_cons, List.map_append]
      rfl

/-- A server that takes no writes refuses everything and stays as it is. -/
theorem commitGroups_unavailable (append : AppendBatches) (groups : List (List MasterCommitOperation))
    {server : Server} (unavailable : server.available = false) :
    commitGroups append groups server =
      ((groups.flatten.flatMap MasterCommitOperation.singles).map (fun _ =>
        .failed (copyPersistenceError (.new server.runtime.unavailableMessage))), server) := by
  have shut : (server.runtime.failStopStarted || !server.runtime.acceptingWrites) = true := by
    rw [Server.available, Bool.not_eq_false'] at unavailable
    exact unavailable
  induction groups with
  | nil => rfl
  | cons requests groups rest =>
      rw [commitGroups, processCommitGroup, shut, if_pos rfl]
      simp only
      rw [rest, rejectRequests_answers, List.flatten_cons, List.flatMap_append, List.map_append]

omit [Platform] [Process] in
theorem singles_singles (requests : List MasterCommitOperation) :
    (requests.flatMap MasterCommitOperation.singles).flatMap MasterCommitOperation.singles =
      requests.flatMap MasterCommitOperation.singles := by
  rw [List.flatMap_assoc]
  apply List.flatMap_congr
  intro request _
  cases request with
  | commandGroup commands =>
      simp only [MasterCommitOperation.singles, List.flatMap_map]
      exact List.map_eq_flatMap.symm
  | command => rfl
  | transaction => rfl
  | obpSet => rfl
  | obpDelete => rfl

theorem transparent_of_fits {append : AppendBatches} (accepts : ∀ log group, append log group = .ok ())
    {server : Server} {time : Nat} (fixed : server.store.engine.clock.Fixed time)
    {groups : List (List MasterCommitOperation)}
    (fits : server.runtime.replOffset + (derivedBatches groups.flatten server.store).length < 2 ^ 64) :
    Transparent append groups server := by
  unfold Transparent
  cases available : server.available with
  | false =>
      rw [commitGroups_unavailable append groups available,
        commitGroups_unavailable append (aloneGroups groups.flatten) available, aloneGroups_flatten,
        singles_singles]
  | true =>
      obtain ⟨prepared, after, prepares, _⟩ := prepares_all groups.flatten fixed
      obtain ⟨singles, alone, batches, answers⟩ := prepares_singles fixed prepares
      rw [derivedBatches_eq prepares] at fits
      rw [← aloneGroups_flatten] at alone
      rw [commitGroups_prepared accepts groups available prepares fits,
        commitGroups_prepared accepts (aloneGroups groups.flatten) available alone (batches ▸ fits), batches, answers]

/-- The coordinator hands its requests over once and in order, in groups within the bounds, and no matter how
requests are grouped, clients are answered the same, storage is given the same numbered batches and the store
ends the same, as long as the sequences do not run out. -/
theorem grouping_transparent :
    (∀ (alive : Nat → Bool) (receiver : Receiver),
      Distributes receiver.queue alive (runMasterCommitCoordinator alive none receiver)) ∧
    ∀ (append : AppendBatches) (server : Server) (time : Nat) (groups : List (List MasterCommitOperation)),
      (∀ log group, append log group = .ok ()) → server.store.engine.clock.Fixed time →
      server.runtime.replOffset + (derivedBatches groups.flatten server.store).length < 2 ^ 64 →
      Transparent append groups server :=
  ⟨fun alive receiver => runMasterCommitCoordinator_distributes alive none receiver,
    fun _ _ _ _ accepts fixed fits => transparent_of_fits accepts fixed fits⟩

end Transparency

end OnyxDB.Coordinator

namespace OnyxDB.Coordinator
open OnyxDB.Engine OnyxDB.Store OnyxDB.Persistence.Model

/-- Storage that accepts every append. -/
def acceptEverything : AppendBatches := fun _ _ => .ok ()

/-- An empty server whose last acknowledged batch has the given sequence. -/
def emptyServer (sequence : Nat) : Server :=
  ⟨.new (.constant 0), ⟨sequence, true, false, none, [], [], []⟩⟩

def Answer.isFailed : Answer → Bool
  | .failed _ => true
  | _ => false

/-- A master that has just started. -/
@[reducible]
def startedProcess : Process := ⟨"master", 0, 0, 0, 0, 0, "0.0"⟩

def twoSets : List MasterCommitOperation := [.command ["SET", "a", "1"], .command ["SET", "b", "2"]]

/-- With one sequence left a group of two commands fails as a whole, where the first alone succeeds. -/
theorem grouping_opaque_at_exhaustion :
    letI := Reference.platform (fun _ => .error "unsupported")
    letI := startedProcess
    (emptyServer (2 ^ 64 - 2)).store.engine.clock.Fixed 0 ∧
      ¬ Transparent acceptEverything [twoSets] (emptyServer (2 ^ 64 - 2)) := by
  let _ := Reference.platform (fun _ => .error "unsupported")
  let _ := startedProcess
  refine ⟨fun _ => rfl, ?_⟩
  intro transparent
  have answers := congrArg (fun result => result.1.map Answer.isFailed) transparent
  have grouped : (commitGroups acceptEverything [twoSets] (emptyServer (2 ^ 64 - 2))).1.map Answer.isFailed =
      [true, true] := by decide +kernel
  have alone : (commitGroups acceptEverything (aloneGroups [twoSets].flatten)
      (emptyServer (2 ^ 64 - 2))).1.map Answer.isFailed = [false, true] := by decide +kernel
  rw [grouped, alone] at answers
  cases answers

/-- A pipeline of two commands, committed together and one by one. -/
theorem grouping_transparent_pipeline :
    letI := Reference.platform (fun _ => .error "unsupported")
    letI := startedProcess
    Transparent acceptEverything [[.commandGroup [["SET", "a", "1"], ["DEL", "a"]]]] (emptyServer 0) := by
  let _ := Reference.platform (fun _ => .error "unsupported")
  let _ := startedProcess
  exact grouping_transparent.2 acceptEverything (emptyServer 0) 0 _ (fun _ _ => rfl) (fun _ => rfl)
    (by decide +kernel)

end OnyxDB.Coordinator
