import OnyxDB.Coordinator.Transparency
import OnyxDB.Persistence.BatchAppend

/-! Groups over storage that never fails. A prepared group is refused exactly when a batch does not fit a record, and a
run whose batches all do stops taking writes only where a preparation fails or the sequences run out. -/

namespace OnyxDB.Coordinator
open OnyxDB.Engine OnyxDB.Engine.Value OnyxDB.Store OnyxDB.Protocol OnyxDB.Command
  OnyxDB.Persistence.Model OnyxDB.Persistence.Commit OnyxDB.Persistence.Codec OnyxDB.Persistence.Record
  OnyxDB.Persistence.BinlogFile

/-- What an OBP set fails with when nothing is left to derive. -/
def obpDerivationFailed : String := "OBP committed effect derivation failed after admission"

/-- A preparation succeeds with what it should, or fails since nothing was left to derive. -/
def PreparedWith {α : Type} (holds : α → Prop) : Except PersistenceError α → Prop
  | .ok value => holds value
  | .error error => error = .new derivationFailed ∨ error = .new obpDerivationFailed

/-- No batch of the request is empty. -/
def Effective (prepared : PreparedMasterCommit) : Prop := ∀ batch ∈ prepared.batches, batch.effects ≠ []

variable [Platform]

section Preparing

theorem derive_effective {keys : List Bytes} {before : Images} {evicted : List (Bytes × DataEntry)}
    {store after : ShardedStore} {batch : CommittedBatch}
    (derivation : derive keys before evicted store = (some batch, after)) : batch.effects ≠ [] := by
  have derived := congrArg Prod.fst derivation
  simp only [derive, deriveCommittedBatch] at derived
  split at derived
  · cases derived
  next filled =>
    rw [← Option.some.inj derived]
    rwa [List.isEmpty_iff] at filled

theorem concludeAdmitted_prepared (keys : List Bytes) (attempt : MutationAttempt) {message : String}
    (known : message = derivationFailed ∨ message = obpDerivationFailed) (store : ShardedStore) :
    PreparedWith (fun batch => batch.effects ≠ []) (concludeAdmitted keys attempt message store).1 := by
  simp only [concludeAdmitted, bind, StateT.bind]
  cases derivation : derive keys attempt.beforeEntries attempt.evictedEntries store with
  | mk batch after =>
      cases batch with
      | none => exact known.imp (congrArg PersistenceError.new) (congrArg PersistenceError.new)
      | some batch => exact derive_effective derivation

omit [Platform] in
theorem withMutation_effective {response : MasterCommitResponse} {batch : CommittedBatch} {undo : MutationRollback}
    (filled : batch.effects ≠ []) : Effective (.withMutation response batch undo) := by
  intro other member
  rw [List.mem_singleton.mp member]
  exact filled

omit [Platform] in
theorem withoutMutation_effective (response : MasterCommitResponse) : Effective (.withoutMutation response) :=
  fun _ member => absurd member List.not_mem_nil

theorem prepareObpSet_prepared (key value : Bytes) (store : ShardedStore) :
    PreparedWith Effective (prepareObpSet key value store).1 := by
  rw [prepareObpSet_eq]
  simp only [bind, StateT.bind]
  cases undertake [key] (ShardedStore.perform (.set key (.blob value) none)) store with
  | mk result after =>
      obtain ⟨_, _, verdict⟩ := result
      cases verdict with
      | unchanged => exact withoutMutation_effective _
      | refused error => exact withoutMutation_effective _
      | admitted attempt =>
          have concluded := concludeAdmitted_prepared [key] attempt (Or.inr rfl) after
          simp only [concludeObpSet, bind, StateT.bind]
          unfold obpDerivationFailed at concluded
          revert concluded
          cases concludeAdmitted [key] attempt "OBP committed effect derivation failed after admission" after with
          | mk batch final =>
              intro concluded
              cases batch with
              | error error => exact concluded
              | ok batch => exact withMutation_effective concluded

theorem prepareObpDelete_effective (key : Bytes) (store : ShardedStore) :
    Effective (prepareObpDelete key store).1 := by
  simp only [prepareObpDelete, bind, StateT.bind]
  cases beginMutation [key] store with
  | mk attempt begun =>
      simp only
      cases ShardedStore.perform (.delete key) begun with
      | mk deleted after =>
          cases deleted with
          | true => exact withMutation_effective (List.cons_ne_nil _ _)
          | false => exact withoutMutation_effective _

variable [Process]

theorem prepareCommandOperation_prepared (arguments : List String) (store : ShardedStore) :
    PreparedWith (fun prepared => ∀ batch ∈ prepared.batch, batch.effects ≠ [])
      (prepareCommandOperation arguments store).1 := by
  rw [prepareCommandOperation_eq]
  simp only [bind, StateT.bind]
  cases undertake (affectedKeys arguments) (executeServerCommand arguments) store with
  | mk result after =>
      obtain ⟨_, outcome, verdict⟩ := result
      cases verdict with
      | unchanged =>
          intro batch none_left
          cases none_left
      | refused error =>
          intro batch none_left
          cases none_left
      | admitted attempt =>
          have concluded := concludeAdmitted_prepared (affectedKeys arguments) attempt (Or.inl rfl) after
          simp only [concludeCommand, bind, StateT.bind]
          revert concluded
          cases concludeAdmitted (affectedKeys arguments) attempt derivationFailed after with
          | mk batch final =>
              intro concluded
              cases batch with
              | error error => exact concluded
              | ok batch =>
                  intro other same
                  cases same
                  exact concluded

theorem prepareCommand_prepared (arguments : List String) (store : ShardedStore) :
    PreparedWith Effective (prepareCommand arguments store).1 := by
  have operation := prepareCommandOperation_prepared arguments store
  simp only [prepareCommand, bind, StateT.bind]
  revert operation
  cases prepareCommandOperation arguments store with
  | mk result after =>
      intro operation
      cases result with
      | error error => exact operation
      | ok prepared =>
          obtain ⟨outcome, batch, undo⟩ := prepared
          cases batch with
          | none => exact withoutMutation_effective _
          | some batch =>
              cases undo with
              | none => exact withoutMutation_effective _
              | some undo => exact withMutation_effective (operation batch rfl)

theorem prepareCommands_prepared (commands : List (List String)) {prepared : PreparedMasterCommit}
    (filled : Effective prepared) (outcomes : List CommandOutcome) (store : ShardedStore) :
    PreparedWith Effective (prepareCommands commands prepared outcomes store).1 := by
  induction commands generalizing prepared outcomes store with
  | nil => exact filled
  | cons arguments commands rest =>
      have operation := prepareCommandOperation_prepared arguments store
      simp only [prepareCommands, bind, StateT.bind]
      revert operation
      cases prepareCommandOperation arguments store with
      | mk result after =>
          intro operation
          cases result with
          | error error => exact operation
          | ok next =>
              refine rest ?_ _ after
              intro batch member
              rcases List.mem_append.mp member with earlier | new
              · exact filled batch earlier
              · exact operation batch (Option.mem_toList.mp new)

theorem prepareTransaction_effective (commands : List (List String)) (store : ShardedStore) :
    Effective (prepareTransaction commands store).1 := by
  simp only [prepareTransaction, bind, StateT.bind]
  cases prepareMembers commands .empty store with
  | mk members after =>
      obtain ⟨results, baseline⟩ := members
      simp only
      cases derivation : derive (sortKeys baseline.changedKeys) baseline.images [] after with
      | mk batch final =>
          cases batch with
          | none => exact withoutMutation_effective _
          | some batch => exact withMutation_effective (derive_effective derivation)

theorem prepareRequest_prepared (request : MasterCommitOperation) (store : ShardedStore) :
    PreparedWith Effective (prepareRequest request store).1 := by
  cases request with
  | command arguments => exact prepareCommand_prepared arguments store
  | commandGroup commands => exact prepareCommands_prepared commands (withoutMutation_effective _) [] store
  | transaction commands => exact prepareTransaction_effective commands store
  | obpSet key value => exact prepareObpSet_prepared key value store
  | obpDelete key => exact prepareObpDelete_effective key store

/-- The requests of a group come to batches with effects. -/
theorem prepareRequests_prepared (requests : List MasterCommitOperation) {prepared : List PreparedMasterCommit}
    (filled : ∀ pending ∈ prepared, Effective pending) (store : ShardedStore) :
    PreparedWith (fun prepared => ∀ batch ∈ allBatches prepared, batch.effects ≠ [])
      (prepareRequests requests prepared store).1 := by
  induction requests generalizing prepared store with
  | nil =>
      intro batch member
      obtain ⟨pending, listed, within⟩ := List.mem_flatMap.mp member
      exact filled pending listed batch within
  | cons request requests rest =>
      have first := prepareRequest_prepared request store
      simp only [prepareRequests, bind, StateT.bind]
      revert first
      cases prepareRequest request store with
      | mk result after =>
          intro first
          cases result with
          | error error => exact first
          | ok pending =>
              refine rest ?_ after
              intro other member
              rcases List.mem_append.mp member with earlier | new
              · exact filled other earlier
              · rw [List.mem_singleton.mp new]
                exact first

end Preparing

section Groups

/-- Storage whose calls all succeed: every group is appended to an open binlog by calls that do not fail. -/
def Faultless (append : AppendBatches) : Prop :=
  ∀ log group, ∃ fsyncPolicy binlog, binlog.file ≠ none ∧ binlog.directory.binlog = some binlog.active ∧
    append log group = (appendBatches group fsyncPolicy ⟨binlog, []⟩).1.map (fun _ => ())

/-- Every batch of a group fits a record, and the bytes of the group can be counted. -/
structure WithinRecords (batches : List CommittedBatch) : Prop where
  each : ∀ batch ∈ batches, 20 + batchSize batch ≤ maxBinlogRecordSize
  together : (batches.map (fun batch => 24 + batchSize batch)).sum < 2 ^ 64

theorem withinRecords_none : WithinRecords [] :=
  ⟨fun _ member => absurd member List.not_mem_nil, Nat.two_pow_pos 64⟩

variable {batches : List CommittedBatch}

omit [Platform] in
theorem numbered_batches (sequence : Nat) (batches : List CommittedBatch) :
    (numbered sequence batches).map Prod.snd = batches := by
  induction batches generalizing sequence with
  | nil => rfl
  | cons batch batches rest => rw [numbered, List.map_cons, rest]

omit [Platform] in
theorem numbered_positive {sequence : Nat} {entry : Nat × CommittedBatch}
    (member : entry ∈ numbered sequence batches) : entry.1 ≠ 0 := by
  induction batches generalizing sequence with
  | nil => exact absurd member List.not_mem_nil
  | cons batch batches rest =>
      rcases List.mem_cons.mp member with rfl | later
      · exact Nat.succ_ne_zero sequence
      · exact rest later

theorem storableGroup_numbered (effective : ∀ batch ∈ batches, batch.effects ≠ []) (sequence : Nat) :
    StorableGroup (numbered sequence batches) ↔ WithinRecords batches := by
  have listed := numbered_batches sequence batches
  have sizes : (numbered sequence batches).map (fun entry => 24 + batchSize entry.2) =
      batches.map (fun batch => 24 + batchSize batch) := by
    conv_rhs => rw [← listed, List.map_map]
    rfl
  constructor
  · rintro ⟨accepted, together⟩
    rw [sizes] at together
    refine ⟨?_, together⟩
    intro batch member
    rw [← listed] at member
    obtain ⟨entry, within, rfl⟩ := List.mem_map.mp member
    exact ((accepted_iff entry.2).mp (accepted entry within)).2
  · rintro ⟨each, together⟩
    refine ⟨?_, sizes ▸ together⟩
    intro entry member
    have within : entry.2 ∈ batches := listed ▸ List.mem_map_of_mem member
    exact (accepted_iff entry.2).mpr ⟨effective entry.2 within, each entry.2 within⟩

/-- Storage that never fails accepts exactly the groups within their records. -/
theorem Faultless.accepts_iff {append : AppendBatches} (faultless : Faultless append)
    (effective : ∀ batch ∈ batches, batch.effects ≠ []) (filled : batches ≠ []) (log : List (Nat × CommittedBatch))
    (sequence : Nat) : append log (numbered sequence batches) = .ok () ↔ WithinRecords batches := by
  obtain ⟨fsyncPolicy, binlog, opened, present, same⟩ := faultless log (numbered sequence batches)
  have some_entries : numbered sequence batches ≠ [] := by
    intro none_left
    apply filled
    rw [← numbered_batches sequence batches, none_left, List.map_nil]
  rw [← storableGroup_numbered effective sequence,
    ← appendBatches_faultless fsyncPolicy opened present some_entries (fun _ => numbered_positive), same]
  cases (appendBatches (numbered sequence batches) fsyncPolicy ⟨binlog, []⟩).1 with
  | ok bytes => exact ⟨fun _ => ⟨bytes, rfl⟩, fun _ => rfl⟩
  | error error =>
      constructor
      · intro impossible
        cases impossible
      · rintro ⟨_, impossible⟩
        cases impossible

variable {append : AppendBatches} {prepared : List PreparedMasterCommit} {server : Server}

omit [Platform] in
theorem unavailable_of_refusing (refusing : server.runtime.acceptingWrites = false) : server.available = false := by
  rw [Server.available, refusing, Bool.not_false, Bool.or_true]
  rfl

/-- Numbered batches are acknowledged when they are within their records, and else the server takes no more writes. -/
theorem concludeGroup_faultless (faultless : Faultless append) (requests : List MasterCommitOperation)
    (effective : ∀ batch ∈ allBatches prepared, batch.effects ≠ []) {entries : List (Nat × CommittedBatch)}
    (numbers : numberBatches server.runtime.replOffset (allBatches prepared) = some entries) :
    (WithinRecords (allBatches prepared) →
        (concludeGroup append requests prepared server).2 =
          ⟨server.store, server.runtime.advance (allBatches prepared)⟩) ∧
      (¬ WithinRecords (allBatches prepared) →
        (concludeGroup append requests prepared server).2.available = false) := by
  obtain ⟨rfl, fits⟩ := numberBatches_some numbers
  have given : numberBatches server.runtime.replOffset (prepared.flatMap PreparedMasterCommit.batches) =
      some (numbered server.runtime.replOffset (allBatches prepared)) := numbers
  simp only [concludeGroup, given]
  cases derived : allBatches prepared with
  | nil =>
      refine ⟨fun _ => ?_, fun large => absurd withinRecords_none large⟩
      rw [advance_nil]
      rfl
  | cons batch batches =>
      rw [derived] at fits effective
      have room := fits (List.cons_ne_nil batch batches)
      have accepts := faultless.accepts_iff effective (List.cons_ne_nil batch batches) server.runtime.appended
        server.runtime.replOffset
      have persisted := persistAndPublish_eq append room
      rw [numbered] at persisted accepts ⊢
      simp only [persisted]
      cases answered : append server.runtime.appended
          ((server.runtime.replOffset + 1, batch) :: numbered (server.runtime.replOffset + 1) batches) with
      | ok _ => exact ⟨fun _ => rfl, fun large => absurd (accepts.mp answered) large⟩
      | error error =>
          constructor
          · intro within
            rw [accepts.mpr within] at answered
            cases answered
          · intro _
            simp only [Except.map]
            split
            · rfl
            · exact unavailable_of_refusing rfl

variable [Process]

theorem allBatches_effective {requests : List MasterCommitOperation} {store after : ShardedStore}
    (ran : prepareRequests requests [] store = (.ok prepared, after)) :
    ∀ batch ∈ allBatches prepared, batch.effects ≠ [] := by
  have none_before : ∀ pending ∈ ([] : List PreparedMasterCommit), Effective pending :=
    fun _ member => absurd member List.not_mem_nil
  have effective := prepareRequests_prepared requests none_before store
  rw [ran] at effective
  exact effective

theorem derivedBatches_effective {requests : List MasterCommitOperation} {store : ShardedStore}
    {batch : CommittedBatch} (member : batch ∈ derivedBatches requests store) : batch.effects ≠ [] := by
  unfold derivedBatches at member
  cases ran : prepareRequests requests [] store with
  | mk result after =>
      rw [ran] at member
      cases result with
      | error error => exact absurd member List.not_mem_nil
      | ok prepared => exact allBatches_effective ran batch member

theorem processCommitGroup_concluded (append : AppendBatches) (available : server.available = true)
    {requests : List MasterCommitOperation} {after : ShardedStore}
    (ran : prepareRequests requests [] server.store = (.ok prepared, after)) :
    processCommitGroup append requests server =
      concludeGroup append requests prepared { server with store := after } := by
  rw [Server.available, Bool.not_eq_true'] at available
  unfold processCommitGroup
  rw [available, if_neg (by simp), ran]

theorem processCommitGroup_unprepared (append : AppendBatches) (available : server.available = true)
    {requests : List MasterCommitOperation} {error : PersistenceError} {after : ShardedStore}
    (ran : prepareRequests requests [] server.store = (.error error, after)) :
    processCommitGroup append requests server =
      (rejectRequests requests error, ⟨after, server.runtime.markPersistenceFailed error.message⟩) := by
  rw [Server.available, Bool.not_eq_true'] at available
  unfold processCommitGroup
  rw [available, if_neg (by simp), ran]

/-- A prepared group leaves the server taking writes exactly when its batches are within their records. -/
theorem processCommitGroup_available_iff (faultless : Faultless append) (available : server.available = true)
    {requests : List MasterCommitOperation} {after : ShardedStore}
    (ran : prepareRequests requests [] server.store = (.ok prepared, after))
    (room : server.runtime.replOffset + (allBatches prepared).length < 2 ^ 64) :
    (processCommitGroup append requests server).2.available = true ↔ WithinRecords (allBatches prepared) := by
  obtain ⟨acknowledged, refused⟩ := @concludeGroup_faultless _ append prepared { server with store := after } faultless
    requests (allBatches_effective ran) _ (numberBatches_fits room)
  rw [processCommitGroup_concluded append available ran]
  constructor
  · intro open_after
    by_contra large
    rw [refused large] at open_after
    cases open_after
  · intro within
    rw [acknowledged within]
    exact available

end Groups

section Runs
variable [Process]

/-- What a server over storage that never fails goes through: groups of some kind, and whatever else changes its
store. -/
inductive Operates (admits : List MasterCommitOperation → ShardedStore → Prop) : Server → Prop where
  | start (clock : Clock) (maxmemoryBytes : Nat) (policy : EvictionPolicy) {runtime : CommitRuntime}
      (accepting : runtime.acceptingWrites = true) (running : runtime.failStopStarted = false)
      (healthy : runtime.failure = none) : Operates admits ⟨.withMaxmemory clock maxmemoryBytes policy, runtime⟩
  | group {server : Server} (operates : Operates admits server) {append : AppendBatches}
      (faultless : Faultless append) {requests : List MasterCommitOperation}
      (allows : admits requests server.store) : Operates admits (processCommitGroup append requests server).2
  | execute {server : Server} (operates : Operates admits server) (arguments : List String) :
      Operates admits { server with store := (executeServerCommand arguments server.store).2 }
  | obpGet {server : Server} (operates : Operates admits server) (key : Bytes) :
      Operates admits { server with store := (server.store.getEntry key).2 }
  | collect {server : Server} (operates : Operates admits server) :
      Operates admits { server with store := (ShardedStore.perform .gcExpired server.store).2 }

/-- The reasons to stop taking writes that storage has no part in. -/
def preparationFailures : List String := [derivationFailed, obpDerivationFailed, sequenceExhausted.message]

/-- The server takes writes, or it has stopped for a reason that storage has no part in. -/
def Undisturbed (runtime : CommitRuntime) : Prop :=
  (runtime.acceptingWrites = true ∧ runtime.failStopStarted = false ∧ runtime.failure = none) ∨
    (runtime.acceptingWrites = false ∧ ∃ reason ∈ preparationFailures, runtime.failure = some reason)

omit [Platform] [Process] in
theorem undisturbed_failed {runtime : CommitRuntime} (healthy : runtime.failure = none) {reason : String}
    (known : reason ∈ preparationFailures) : Undisturbed (runtime.markPersistenceFailed reason) := by
  refine Or.inr ⟨rfl, reason, known, ?_⟩
  rw [CommitRuntime.markPersistenceFailed, CommitRuntime.noteFailure, healthy]
  rfl

/-- The groups whose batches are within their records. -/
def BatchesFit (requests : List MasterCommitOperation) (store : ShardedStore) : Prop :=
  WithinRecords (derivedBatches requests store)

theorem processCommitGroup_undisturbed {append : AppendBatches} (faultless : Faultless append)
    {requests : List MasterCommitOperation} {server : Server} (fit : BatchesFit requests server.store)
    (before : Undisturbed server.runtime) : Undisturbed (processCommitGroup append requests server).2.runtime := by
  rcases before with ⟨accepting, running, healthy⟩ | ⟨refusing, reason⟩
  · have available : server.available = true := by
      rw [Server.available, accepting, running]
      rfl
    have none_before : ∀ pending ∈ ([] : List PreparedMasterCommit), Effective pending :=
      fun _ member => absurd member List.not_mem_nil
    have prepares := prepareRequests_prepared requests none_before server.store
    rw [BatchesFit, derivedBatches] at fit
    cases ran : prepareRequests requests [] server.store with
    | mk result after =>
        rw [ran] at prepares fit
        cases result with
        | error error =>
            rw [processCommitGroup_unprepared append available ran]
            refine undisturbed_failed healthy ?_
            rcases prepares with rfl | rfl
            · exact List.mem_cons_self
            · exact List.mem_cons_of_mem _ List.mem_cons_self
        | ok prepared =>
            rw [processCommitGroup_concluded append available ran]
            cases numbers : numberBatches server.runtime.replOffset (allBatches prepared) with
            | none =>
                rw [allBatches] at numbers
                simp only [concludeGroup, numbers]
                exact undisturbed_failed healthy (List.mem_cons_of_mem _ (List.mem_cons_of_mem _ List.mem_cons_self))
            | some entries =>
                rw [(@concludeGroup_faultless _ append prepared { server with store := after } faultless requests
                  (allBatches_effective ran) entries numbers).1 fit]
                exact Or.inl ⟨accepting, running, healthy⟩
  · have shut : (server.runtime.failStopStarted || !server.runtime.acceptingWrites) = true := by
      rw [refusing, Bool.not_false, Bool.or_true]
    unfold processCommitGroup
    rw [shut, if_pos rfl]
    exact Or.inr ⟨refusing, reason⟩

/-- In a run whose batches are within their records nothing but a preparation makes the server stop taking writes. -/
theorem Operates.undisturbed {server : Server} (operates : Operates BatchesFit server) :
    Undisturbed server.runtime := by
  induction operates with
  | start _ _ _ accepting running healthy => exact Or.inl ⟨accepting, running, healthy⟩
  | group _ faultless fit before => exact processCommitGroup_undisturbed faultless fit before
  | execute _ _ before => exact before
  | obpGet _ _ before => exact before
  | collect _ before => exact before

end Runs

end OnyxDB.Coordinator
