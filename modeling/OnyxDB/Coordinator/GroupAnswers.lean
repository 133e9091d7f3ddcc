import OnyxDB.Coordinator.Queue
import OnyxDB.Server.ObpAnswers

/-! A group is answered as one: every request of it with a response of its own kind, or all of them with one error,
which says whether storage may hold the group all the same. -/

namespace OnyxDB.Coordinator
open OnyxDB.Library OnyxDB.Engine OnyxDB.Engine.Value OnyxDB.Store OnyxDB.Protocol OnyxDB.Command
  OnyxDB.Persistence.Model OnyxDB.Persistence.Commit OnyxDB.Server

section Kinds

/-- A response of the kind its request asks for, with one part for each command. -/
inductive Matches : MasterCommitOperation → MasterCommitResponse → Prop where
  | command (arguments : List String) (outcome : CommandOutcome) : Matches (.command arguments) (.command outcome)
  | commandGroup {commands : List (List String)} {outcomes : List CommandOutcome}
      (each : outcomes.length = commands.length) : Matches (.commandGroup commands) (.commandGroup outcomes)
  | transaction {commands : List (List String)} {results : List RESPValue}
      (each : results.length = commands.length) : Matches (.transaction commands) (.transaction (.array results))
  | obpSet (key value : Bytes) (result : ObpMutationResult) : Matches (.obpSet key value) (.obp result)
  | obpDelete (key : Bytes) (result : ObpMutationResult) : Matches (.obpDelete key) (.obp result)

theorem Matches.markCommitted {request : MasterCommitOperation} {response : MasterCommitResponse}
    (matching : Matches request response) : Matches request response.markCommitted := by
  cases matching with
  | command arguments outcome => exact .command arguments _
  | commandGroup each => exact .commandGroup ((List.length_map _).trans each)
  | transaction each => exact .transaction each
  | obpSet key value result => exact .obpSet key value result
  | obpDelete key result => exact .obpDelete key result

/-- What a client makes of the completion it receives: a response of another kind would leave it in doubt. -/
def Completion.expect {α : Type} (kind : String) (select : MasterCommitResponse → Option α) :
    Completion → Except PersistenceError α
  | .error error => .error error
  | .ok response =>
      match select response with
      | some answer => .ok answer
      | none =>
          .error {
            message := s!"Master commit coordinator returned a mismatched {kind} outcome"
            indeterminate := true }

namespace MasterCommitCoordinator

def executeCommand : Completion → Except PersistenceError CommandOutcome :=
  Completion.expect "command" (fun response => match response with | .command outcome => some outcome | _ => none)

def executeCommands : Completion → Except PersistenceError (List CommandOutcome) :=
  Completion.expect "command group"
    (fun response => match response with | .commandGroup outcomes => some outcomes | _ => none)

def executeTransaction : Completion → Except PersistenceError RESPValue :=
  Completion.expect "transaction" (fun response => match response with | .transaction response => some response | _ => none)

/-- `execute_obp_set` and `execute_obp_delete`. -/
def executeObp : Completion → Except PersistenceError ObpMutationResult :=
  Completion.expect "OBP" (fun response => match response with | .obp result => some result | _ => none)

end MasterCommitCoordinator

/-- The error of a result. -/
def failure {ε α : Type} : Except ε α → Option ε
  | .error error => some error
  | .ok _ => none

/-- The error of the call that made a request and got a completion for it. -/
def MasterCommitOperation.callFailure (request : MasterCommitOperation) (completion : Completion) :
    Option PersistenceError :=
  match request with
  | .command _ => failure (MasterCommitCoordinator.executeCommand completion)
  | .commandGroup _ => failure (MasterCommitCoordinator.executeCommands completion)
  | .transaction _ => failure (MasterCommitCoordinator.executeTransaction completion)
  | .obpSet _ _ | .obpDelete _ => failure (MasterCommitCoordinator.executeObp completion)

theorem callFailure_error (request : MasterCommitOperation) (error : PersistenceError) :
    request.callFailure (.error error) = some error := by
  cases request <;> rfl

/-- A response of the kind that was asked for is taken as it is. -/
theorem callFailure_ok {request : MasterCommitOperation} {response : MasterCommitResponse}
    (matching : Matches request response) : request.callFailure (.ok response) = none := by
  cases matching <;> rfl

end Kinds

section Preparation

/-- An error that says that nothing has been stored. -/
def Definitive {α : Type} (result : α → Prop) : Except PersistenceError α → Prop
  | .error error => error.indeterminate = false
  | .ok value => result value

/-- What `prepare_request` comes to. -/
def PreparedFor (request : MasterCommitOperation) : Except PersistenceError PreparedMasterCommit → Prop :=
  Definitive (fun pending => Matches request pending.response)

variable [Platform] [Process]

theorem prepareCommandOperation_definitive (arguments : List String) :
    Yields (prepareCommandOperation arguments) (Definitive (fun _ => True)) := by
  unfold prepareCommandOperation
  refine Yields.after fun attempt => Yields.after fun outcome => Yields.after fun first => ?_
  cases first with
  | none => exact Yields.pure trivial
  | some batch =>
      refine Yields.after fun verdict => ?_
      cases verdict with
      | error error => exact Yields.after fun _ => Yields.pure trivial
      | ok admitted =>
          refine Yields.after fun second => ?_
          cases second with
          | none => exact Yields.after fun _ => Yields.pure rfl
          | some batch => exact Yields.pure trivial

theorem prepareCommand_for (arguments : List String) :
    Yields (prepareCommand arguments) (PreparedFor (.command arguments)) := by
  unfold prepareCommand
  refine (prepareCommandOperation_definitive arguments).bind fun prepared definitive => ?_
  cases prepared with
  | error error => exact Yields.pure definitive
  | ok prepared =>
      obtain ⟨outcome, batch, undo⟩ := prepared
      cases batch with
      | none => exact Yields.pure (.command arguments _)
      | some batch =>
          cases undo with
          | none => exact Yields.pure (.command arguments _)
          | some undo => exact Yields.pure (.command arguments _)

/-- The loop over the commands of a group adds an outcome for each. -/
theorem prepareCommands_for {all : List (List String)} (commands : List (List String))
    (prepared : PreparedMasterCommit) (outcomes : List CommandOutcome)
    (each : outcomes.length + commands.length = all.length) :
    Yields (prepareCommands commands prepared outcomes) (PreparedFor (.commandGroup all)) := by
  induction commands generalizing prepared outcomes with
  | nil =>
      unfold prepareCommands
      exact Yields.pure (.commandGroup each)
  | cons arguments commands rest =>
      unfold prepareCommands
      refine (prepareCommandOperation_definitive arguments).bind fun next definitive => ?_
      cases next with
      | error error => exact Yields.after fun _ => Yields.pure definitive
      | ok next =>
          refine rest _ _ ?_
          rw [List.length_append, List.length_singleton]
          rw [List.length_cons] at each
          omega

theorem prepareMembers_length (commands : List (List String)) (baseline : Baseline) :
    Yields (prepareMembers commands baseline) (fun prepared => prepared.1.length = commands.length) := by
  induction commands generalizing baseline with
  | nil => exact Yields.pure rfl
  | cons arguments commands rest =>
      unfold prepareMembers
      refine Yields.after fun member => (rest member.2).bind fun members each => ?_
      refine Yields.pure ?_
      rw [List.length_cons, List.length_cons, each]

theorem prepareTransaction_for (commands : List (List String)) :
    Yields (prepareTransaction commands) (fun pending => Matches (.transaction commands) pending.response) := by
  unfold prepareTransaction
  refine (prepareMembers_length commands .empty).bind fun members each => Yields.after fun batch => ?_
  cases batch with
  | none => exact Yields.pure (.transaction each)
  | some batch => exact Yields.pure (.transaction each)

omit [Process] in
theorem prepareObpSet_for (key value : Bytes) :
    Yields (prepareObpSet key value) (PreparedFor (.obpSet key value)) := by
  unfold prepareObpSet
  refine Yields.after fun attempt => Yields.after fun _ => Yields.after fun first => ?_
  cases first with
  | none => exact Yields.pure (.obpSet key value _)
  | some batch =>
      refine Yields.after fun verdict => ?_
      cases verdict with
      | error error => exact Yields.after fun _ => Yields.pure (.obpSet key value _)
      | ok admitted =>
          refine Yields.after fun second => ?_
          cases second with
          | none => exact Yields.after fun _ => Yields.pure rfl
          | some batch => exact Yields.pure (.obpSet key value _)

omit [Process] in
theorem prepareObpDelete_for (key : Bytes) :
    Yields (prepareObpDelete key) (fun pending => Matches (.obpDelete key) pending.response) := by
  unfold prepareObpDelete
  refine Yields.after fun attempt => Yields.after fun deleted => ?_
  cases deleted with
  | false => exact Yields.pure (.obpDelete key _)
  | true => exact Yields.pure (.obpDelete key _)

theorem prepareRequest_for (request : MasterCommitOperation) :
    Yields (prepareRequest request) (PreparedFor request) := by
  cases request with
  | command arguments => exact prepareCommand_for arguments
  | commandGroup commands => exact prepareCommands_for commands _ [] (Nat.zero_add _)
  | transaction commands =>
      exact (prepareTransaction_for commands).bind fun pending matching => Yields.pure matching
  | obpSet key value => exact prepareObpSet_for key value
  | obpDelete key => exact (prepareObpDelete_for key).bind fun pending matching => Yields.pure matching

/-- The requests of a group are prepared in their order, each for what it asks. -/
theorem prepareRequests_for {early : List MasterCommitOperation} (requests : List MasterCommitOperation)
    {prepared : List PreparedMasterCommit}
    (before : List.Forall₂ (fun request pending => Matches request pending.response) early prepared) :
    Yields (prepareRequests requests prepared) (Definitive (fun prepared =>
      List.Forall₂ (fun request pending => Matches request pending.response) (early ++ requests) prepared)) := by
  induction requests generalizing early prepared with
  | nil =>
      rw [List.append_nil]
      exact Yields.pure before
  | cons request requests rest =>
      unfold prepareRequests
      refine (prepareRequest_for request).bind fun pending prepares => ?_
      cases pending with
      | error error => exact Yields.after fun _ => Yields.pure prepares
      | ok pending =>
          have further := rest (List.rel_append before (List.Forall₂.cons prepares List.Forall₂.nil))
          rwa [List.append_assoc] at further

end Preparation

section Conclusion

/-- The answers of a group and the server behind it, with what is counted. -/
inductive Concluded (requests : List MasterCommitOperation) (runtime : CommitRuntime) :
    CommitGroupResult × Nat → List Completion × Server → Prop where
  | completed {completions : List Completion} {after : Server} {entries : List (Nat × CommittedBatch)}
      (responses : List.Forall₂ (fun request completion => ∃ response, completion = .ok response ∧
        Matches request response) requests completions)
      (appended : after.runtime.appended = runtime.appended ++ entries)
      (running : after.runtime.failStopStarted = runtime.failStopStarted) :
      Concluded requests runtime (.completed, entries.length) (completions, after)
  | rejected {batches : Nat} {error : PersistenceError} {after : Server} (definitive : error.indeterminate = false)
      (appended : after.runtime.appended = runtime.appended)
      (running : after.runtime.failStopStarted = runtime.failStopStarted) :
      Concluded requests runtime (.rejected, batches) (rejectRequests requests error, after)
  | indeterminate {batches : Nat} {error : PersistenceError} {after : Server} (unknown : error.indeterminate = true)
      (appended : after.runtime.appended = runtime.appended)
      (stopped : after.runtime.failStopStarted = true) :
      Concluded requests runtime (.indeterminate, batches) (rejectRequests requests error, after)

theorem completePrepared_matches {requests : List MasterCommitOperation} {prepared : List PreparedMasterCommit}
    (matching : List.Forall₂ (fun request pending => Matches request pending.response) requests prepared) :
    List.Forall₂ (fun request completion => ∃ response, completion = .ok response ∧ Matches request response)
      requests (completePrepared prepared) := by
  unfold completePrepared
  rw [List.forall₂_map_right_iff]
  refine matching.imp fun request pending answers => ⟨_, rfl, ?_⟩
  split
  · exact answers
  · exact answers.markCommitted

theorem Concluded.length {requests : List MasterCommitOperation} {runtime : CommitRuntime}
    {result : CommitGroupResult × Nat} {concluded : List Completion × Server}
    (conclusion : Concluded requests runtime result concluded) : concluded.1.length = requests.length := by
  cases conclusion with
  | completed responses => exact responses.length_eq.symm
  | rejected => exact List.length_map _
  | indeterminate => exact List.length_map _

theorem persistAndPublish_acknowledges {append : AppendBatches} {runtime after : CommitRuntime}
    {entries : List (Nat × CommittedBatch)}
    (stored : runtime.persistAndPublishMasterBatches append entries = .ok after) :
    after.appended = runtime.appended ++ entries ∧ after.failStopStarted = runtime.failStopStarted := by
  unfold CommitRuntime.persistAndPublishMasterBatches at stored
  cases accepted : runtime.acceptNextBatches append entries with
  | error error => rw [accepted] at stored; cases stored
  | ok accepting =>
      rw [accepted] at stored
      obtain rfl := Except.ok.inj stored
      unfold CommitRuntime.acceptNextBatches at accepted
      cases last : entries.getLast? with
      | none => rw [last] at accepted; cases accepted
      | some last' =>
          rw [last] at accepted
          simp only [bind, Except.bind] at accepted
          split at accepted
          · cases accepted
          · split at accepted
            · cases accepted
            · split at accepted
              · cases accepted
              · obtain rfl := Except.ok.inj accepted
                exact ⟨rfl, rfl⟩

/-- No call takes what it gets for an answer to something else. -/
theorem Concluded.understood {requests : List MasterCommitOperation} {runtime : CommitRuntime}
    {result : CommitGroupResult × Nat} {concluded : List Completion × Server}
    (conclusion : Concluded requests runtime result concluded) :
    List.Forall₂ (fun request completion => request.callFailure completion = failure completion) requests
      concluded.1 := by
  have refused : ∀ error : PersistenceError, List.Forall₂ (fun request completion =>
      request.callFailure completion = failure completion) requests (rejectRequests requests error) := by
    intro error
    unfold rejectRequests
    rw [List.forall₂_map_right_iff, List.forall₂_same]
    exact fun request _ => callFailure_error request _
  cases conclusion with
  | completed responses =>
      refine responses.imp ?_
      rintro request completion ⟨response, rfl, matching⟩
      exact callFailure_ok matching
  | rejected => exact refused _
  | indeterminate => exact refused _

variable [Platform]

theorem concludeGroup_stored {append : AppendBatches} {requests : List MasterCommitOperation}
    {prepared : List PreparedMasterCommit} {server : Server} {first : Nat × CommittedBatch}
    {rest : List (Nat × CommittedBatch)}
    (numbers : numberBatches server.runtime.replOffset (prepared.flatMap PreparedMasterCommit.batches) =
      some (first :: rest))
    (matching : List.Forall₂ (fun request pending => Matches request pending.response) requests prepared) :
    Concluded requests server.runtime
      (match server.runtime.persistAndPublishMasterBatches append (first :: rest) with
        | .ok _ => (.completed, (first :: rest).length)
        | .error error =>
            (if error.indeterminate then .indeterminate else .rejected, (first :: rest).length))
      (concludeGroup append requests prepared server) := by
  unfold concludeGroup
  simp only [numbers]
  cases stored : server.runtime.persistAndPublishMasterBatches append (first :: rest) with
  | ok runtime =>
      obtain ⟨appended, running⟩ := persistAndPublish_acknowledges stored
      exact .completed (completePrepared_matches matching) appended running
  | error error =>
      cases unknown : error.indeterminate with
      | true =>
          simp only [unknown, if_true]
          exact .indeterminate unknown rfl rfl
      | false =>
          simp only [unknown, Bool.false_eq_true, if_false]
          exact .rejected unknown rfl rfl

variable [Process]

theorem processCommitGroup_conclusion (append : AppendBatches) (requests : List MasterCommitOperation)
    (server : Server) :
    Concluded requests server.runtime (commitGroupResult append requests server)
      (processCommitGroup append requests server) := by
  have prepares := prepareRequests_for requests List.Forall₂.nil server.store
  unfold commitGroupResult processCommitGroup
  split
  · exact .rejected rfl rfl rfl
  · cases outcome : prepareRequests requests [] server.store with
    | mk verdict store =>
        rw [outcome, List.nil_append] at prepares
        cases verdict with
        | error error => exact .rejected prepares rfl rfl
        | ok prepared =>
            cases numbers : numberBatches server.runtime.replOffset
                (prepared.flatMap PreparedMasterCommit.batches) with
            | none =>
                simp only [concludeGroup, numbers]
                exact .rejected rfl rfl rfl
            | some entries =>
                cases entries with
                | nil =>
                    have nothing := @Concluded.completed requests server.runtime _ { server with store } []
                      (completePrepared_matches prepares) (List.append_nil _).symm rfl
                    simp only [concludeGroup, numbers]
                    exact nothing
                | cons first rest =>
                    have concluded := @concludeGroup_stored _ append requests prepared { server with store } first rest
                      numbers prepares
                    simp only [numbers]
                    exact concluded

/-- A group is answered as one, whatever the server and storage are like: every request with a response of its kind,
and exactly the batches that are counted are stored; or all of them with one error, under which nothing is acknowledged
and which says that it is in doubt exactly if the process stops. No call takes its completion for a mismatched one. -/
theorem group_answered_as_one (append : AppendBatches) (requests : List MasterCommitOperation) (server : Server) :
    Concluded requests server.runtime (commitGroupResult append requests server)
        (processCommitGroup append requests server) ∧
      List.Forall₂ (fun request completion => request.callFailure completion = failure completion) requests
        (processCommitGroup append requests server).1 :=
  ⟨processCommitGroup_conclusion append requests server,
    (processCommitGroup_conclusion append requests server).understood⟩

end Conclusion

end OnyxDB.Coordinator
