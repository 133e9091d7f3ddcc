import OnyxDB.Coordinator.KeyLimit
import OnyxDB.Coordinator.Transparency

/-! The key limit over whole runs: every request of every group leaves the store within the limit, and so does the
group, whether storage takes it or not. -/

namespace OnyxDB.Coordinator
open OnyxDB.Library OnyxDB.Engine OnyxDB.Engine.Value OnyxDB.Store OnyxDB.Protocol OnyxDB.Command
  OnyxDB.Persistence.Model OnyxDB.Persistence.Commit

variable [Platform]

section Conclusions

theorem derive_accounted (keys : List Bytes) (before : Images) (victims : List (Bytes × DataEntry))
    {store : ShardedStore} (accounted : Accounted store) : Accounted (derive keys before victims store).2 :=
  keyEffects_accounted before (victims.map Prod.fst) keys accounted

/-- The end of an admitted mutation: it is undone if it left nothing to derive. -/
theorem concludeAdmitted_bounded {base store : ShardedStore} (sound : Within base) {attempt : MutationAttempt}
    (bounded : Bounded base [attempt.intoRollback] store) (keys : List Bytes) (message : String) :
    match concludeAdmitted keys attempt message store with
    | (.error _, after) => Bounded base [] after
    | (.ok _, after) => Bounded base [attempt.intoRollback] after := by
  have ages := derive_ages keys attempt.beforeEntries attempt.evictedEntries store
  have accounted := derive_accounted keys attempt.beforeEntries attempt.evictedEntries bounded.within.accounted
  have looked := bounded.ages ages accounted
  simp only [concludeAdmitted, bind, StateT.bind]
  cases derived : derive keys attempt.beforeEntries attempt.evictedEntries store with
  | mk batch after =>
      rw [derived] at looked
      cases batch with
      | none => exact looked.undone sound (.refl looked.within)
      | some batch => exact looked

variable [Process]

/-- Commands keep the counters exact. -/
theorem executeServerCommand_accounted (arguments : List String) (store : ShardedStore) (accounted : Accounted store) :
    Accounted (executeServerCommand arguments store).2 := by
  unfold executeServerCommand
  split
  · have ticked : Accounted (ShardedStore.now store).2 := (accounted.time _).accounted
    have measured := usedMemoryBytes_accounted (stats_accounted ticked)
    exact measured
  · exact composed_accounted (executeCommand_composed arguments) accounted

/-- What a prepared command would undo. -/
def commandUndos : Except PersistenceError PreparedCommandOperation → List MutationRollback
  | .ok prepared => prepared.rollback.toList
  | .error _ => []

theorem prepareCommandOperation_bounded {store : ShardedStore} (sound : Within store) (arguments : List String) :
    Bounded store (commandUndos (prepareCommandOperation arguments store).1)
      (prepareCommandOperation arguments store).2 := by
  have confined := executeServerCommand_confined arguments
  have keeps := executeServerCommand_accounted arguments
  have settled := undertake_settled sound confined keeps
  have admitted := fun attempt => @undertake_admitted _ _ _ sound _ _ confined keeps attempt
  rw [prepareCommandOperation_eq]
  simp only [bind, StateT.bind]
  cases ran : undertake (affectedKeys arguments) (executeServerCommand arguments) store with
  | mk result after =>
      obtain ⟨attempt, outcome, verdict⟩ := result
      rw [ran] at settled admitted
      cases verdict with
      | unchanged => exact settled nofun
      | refused error => exact settled nofun
      | admitted attempt =>
          have concluded := concludeAdmitted_bounded sound (admitted attempt rfl) (affectedKeys arguments)
            derivationFailed
          simp only [concludeCommand, bind, StateT.bind]
          cases ends : concludeAdmitted (affectedKeys arguments) attempt derivationFailed after with
          | mk batch after =>
              rw [ends] at concluded
              cases batch <;> exact concluded

/-- What a prepared request would undo. -/
def requestUndos : Except PersistenceError PreparedMasterCommit → List MutationRollback
  | .ok pending => pending.rollbacks
  | .error _ => []

theorem prepareCommand_bounded {store : ShardedStore} (sound : Within store) (arguments : List String) :
    Bounded store (requestUndos (prepareCommand arguments store).1) (prepareCommand arguments store).2 := by
  have bounded := prepareCommandOperation_bounded sound arguments
  simp only [prepareCommand, bind, StateT.bind]
  cases operation : prepareCommandOperation arguments store with
  | mk result after =>
      rw [operation] at bounded
      cases result with
      | error error => exact bounded
      | ok prepared =>
          have paired := prepareCommandOperation_paired operation
          obtain ⟨outcome, batch, rollback⟩ := prepared
          cases batch with
          | none =>
              cases rollback with
              | none => exact bounded
              | some undo => cases paired
          | some batch =>
              cases rollback with
              | none => cases paired
              | some undo => exact bounded

theorem prepareCommands_bounded {base : ShardedStore} (sound : Within base) (commands : List (List String))
    (prepared : PreparedMasterCommit) (outcomes : List CommandOutcome) {store : ShardedStore}
    (bounded : Bounded base prepared.rollbacks store) :
    Bounded base (requestUndos (prepareCommands commands prepared outcomes store).1)
      (prepareCommands commands prepared outcomes store).2 := by
  induction commands generalizing prepared outcomes store with
  | nil => exact bounded
  | cons arguments commands rest =>
      have next := prepareCommandOperation_bounded bounded.within arguments
      simp only [prepareCommands, bind, StateT.bind]
      cases operation : prepareCommandOperation arguments store with
      | mk result after =>
          rw [operation] at next
          cases result with
          | error error => exact bounded.undone sound next
          | ok command => exact rest _ _ (bounded.append next)

omit [Process] in
theorem prepareObpSet_bounded {store : ShardedStore} (sound : Within store) (key value : Bytes) :
    Bounded store (requestUndos (prepareObpSet key value store).1) (prepareObpSet key value store).2 := by
  have confined : Confined [key] (ShardedStore.perform (.set key (.blob value) none)) :=
    Confined.perform (List.Subset.refl _)
  have keeps := fun store => @operation_accounted _ _ (.set key (.blob value) none) store
  have settled := undertake_settled sound confined keeps
  have admitted := fun attempt => @undertake_admitted _ _ _ sound _ _ confined keeps attempt
  rw [prepareObpSet_eq]
  simp only [bind, StateT.bind]
  cases ran : undertake [key] (ShardedStore.perform (.set key (.blob value) none)) store with
  | mk result after =>
      obtain ⟨attempt, outcome, verdict⟩ := result
      rw [ran] at settled admitted
      cases verdict with
      | unchanged => exact settled nofun
      | refused error => exact settled nofun
      | admitted attempt =>
          have concluded := concludeAdmitted_bounded sound (admitted attempt rfl) [key]
            "OBP committed effect derivation failed after admission"
          simp only [concludeObpSet, bind, StateT.bind]
          cases ends : concludeAdmitted [key] attempt
              "OBP committed effect derivation failed after admission" after with
          | mk batch after =>
              rw [ends] at concluded
              cases batch <;> exact concluded

omit [Process] in
/-- A deletion brings nothing to life, and undoing it only what was alive. -/
theorem prepareObpDelete_bounded {store : ShardedStore} (sound : Within store) (key : Bytes) :
    Bounded store (prepareObpDelete key store).1.rollbacks (prepareObpDelete key store).2 := by
  have begun := beginMutation_was [key] store
  have looked := beginMutation_ages [key] store
  have accounted := beginMutation_accounted [key] sound.accounted
  simp only [prepareObpDelete, bind, StateT.bind]
  cases beginning : beginMutation [key] store with
  | mk attempt middle =>
      simp only [beginning] at begun looked accounted
      dsimp only
      have leads : middle.engine.clock.Leads (ShardedStore.perform (.delete key) middle).2.engine.clock :=
        (middle.engine.delete_sets key).leads
      have kept := operation_accounted (.delete key) accounted
      have was : ∀ time, (ShardedStore.perform (.delete key) middle).2.All (Was store time) :=
        fun time other entry held => (begun time).1 other entry (deleteBytes_slot middle key held).2
      cases deleting : ShardedStore.perform (.delete key) middle with
      | mk deleted after =>
          simp only [deleting] at leads kept was
          have settled := Bounded.settled sound (looked.leads.trans leads) kept (fun time _ => was time)
          cases deleted with
          | false => exact settled
          | true =>
              refine ⟨settled.leads, settled.within, ?_⟩
              intro time upto later all
              exact restore_was (begun time).2.2 (begun time).2.1
                (fun other entry held _ => Was.trans (was time) (all other entry held))

end Conclusions

section Transactions

/-- How far a transaction has come: what it noted was alive before it, and so was all it did not touch. -/
structure Noted (base : ShardedStore) (baseline : Baseline) (store : ShardedStore) : Prop where
  leads : base.engine.clock.Leads store.engine.clock
  within : Within store
  imaged : Imaged baseline.changedKeys baseline.images
  holds : ∀ time, store.engine.clock.now ≤ time → Holds (Was base time) (.fromBaseline baseline.images)
  others : ∀ time, store.engine.clock.now ≤ time → store.All (Outside baseline.changedKeys (Was base time))

omit [Platform] in
theorem note_imaged {baseline : Baseline} (imaged : Imaged baseline.changedKeys baseline.images) (key : Bytes)
    (image : Option DataEntry) :
    Imaged (baseline.note key image).changedKeys (baseline.note key image).images := by
  intro other
  rw [mem_note]
  unfold Baseline.note
  split
  next noted =>
    rw [imaged other]
    exact not_congr ⟨Or.inr, fun either => either.elim (fun same => same ▸ noted) id⟩
  · by_cases here : other = key
    · subst here
      simp only [AList.lookup_insert, reduceCtorEq, true_or, not_true_eq_false]
    · simp only [AList.lookup_insert_ne here, here, false_or]
      exact imaged other

omit [Platform] in
theorem noteAffected_imaged {baseline : Baseline} (imaged : Imaged baseline.changedKeys baseline.images)
    (keys : List Bytes) (before : Images) :
    Imaged (baseline.noteAffected keys before).changedKeys (baseline.noteAffected keys before).images := by
  induction keys generalizing baseline with
  | nil => exact imaged
  | cons key keys rest => exact rest (note_imaged imaged key _)

omit [Platform] in
theorem noteEvicted_imaged {baseline : Baseline} (imaged : Imaged baseline.changedKeys baseline.images)
    (evicted : List (Bytes × DataEntry)) :
    Imaged (baseline.noteEvicted evicted).changedKeys (baseline.noteEvicted evicted).images := by
  induction evicted generalizing baseline with
  | nil => exact imaged
  | cons entry evicted rest => exact rest (note_imaged imaged entry.1 _)

omit [Platform] in
/-- What was alive under a key the transaction has not touched was alive before the transaction. -/
theorem untouched_was {base store : ShardedStore} {keys : List Bytes} {time : Nat}
    (others : store.All (Outside keys (Was base time))) {key : Bytes} (outside : key ∉ keys) {entry : DataEntry}
    (was : Was store time key entry) : Was base time key entry := by
  intro live
  obtain ⟨between, held, alive⟩ := (store.engine.view_isSome_iff time key).mp (was live)
  exact others key between held outside alive

/-- A step that leaves nothing to undo, with more keys noted. -/
theorem Noted.settled {base store after : ShardedStore} {baseline : Baseline} (noted : Noted base baseline store)
    (step : Bounded store [] after) : Noted base baseline after := by
  have order := step.leads.now_le noted.within.steady
  refine ⟨noted.leads.trans step.leads, step.within, noted.imaged, ?_, ?_⟩
  · exact fun time upto => noted.holds time (order.trans upto)
  · intro time upto key entry held outside
    exact untouched_was (noted.others time (order.trans upto)) outside (step.was upto key entry held)

theorem Noted.affected {base store : ShardedStore} {baseline : Baseline} (noted : Noted base baseline store)
    (keys : List Bytes) {before : Images}
    (shows : ∀ time, store.engine.clock.now ≤ time → ∀ key entry, before.lookup key = some (some entry) →
      Was store time key entry) : Noted base (baseline.noteAffected keys before) store := by
  refine ⟨noted.leads, noted.within, noteAffected_imaged noted.imaged keys before, ?_, ?_⟩
  · intro time upto
    apply noteAffected_holds (noted.holds time upto)
    intro key entry outside imaged
    exact untouched_was (noted.others time upto) outside (shows time upto key entry imaged)
  · intro time upto key entry held outside
    rw [mem_noteAffected, not_or] at outside
    exact noted.others time upto key entry held outside.2

/-- A mutation within a transaction that was admitted. -/
theorem Noted.admitted {base store after : ShardedStore} {baseline : Baseline} {keys : List Bytes}
    {attempt : MutationAttempt} (noted : Noted base baseline store) (within : Within after)
    (leads : store.engine.clock.Leads after.engine.clock) (touched : ∀ key ∈ keys, key ∈ baseline.changedKeys)
    (weighed : ∀ time, after.engine.clock.now ≤ time → Weighed store time keys (.admitted attempt) after) :
    Noted base (baseline.noteEvicted attempt.evictedEntries) after := by
  have order := leads.now_le noted.within.steady
  refine ⟨noted.leads.trans leads, within, noteEvicted_imaged noted.imaged _, ?_, ?_⟩
  · intro time upto
    apply noteEvicted_holds (noted.holds time (order.trans upto))
    intro entry member outside
    cases weighed time upto with
    | admitted _ holds _ _ =>
        exact untouched_was (noted.others time (order.trans upto)) outside (holds.evicted entry member)
  · intro time upto key entry held outside
    rw [mem_noteEvicted, not_or] at outside
    cases weighed time upto with
    | admitted _ _ others _ =>
        exact untouched_was (noted.others time (order.trans upto)) outside.2
          (others key entry held (fun member => outside.2 (touched key member)))

variable [Process]

theorem prepareMember_noted {base store : ShardedStore} {baseline : Baseline} (noted : Noted base baseline store)
    (arguments : List String) :
    Noted base (prepareMember baseline arguments store).1.2 (prepareMember baseline arguments store).2 := by
  have confined := executeServerCommand_confined arguments
  have keeps := executeServerCommand_accounted arguments
  have sound := noted.within
  cases writing : isWriteCommand (argument arguments 0) with
  | false =>
      have ran := confined store sound.steady
      have step : Bounded store [] (executeServerCommand arguments store).2 := by
        apply Bounded.settled sound ran.leads (keeps store sound.accounted)
        intro time upto key entry held
        rw [affectedKeys_nil writing] at confined
        exact confined_was confined sound.steady upto List.not_mem_nil held
      simp only [prepareMember, writing, Bool.not_false, if_true]
      exact noted.settled step
  | true =>
      have settled := undertake_settled sound confined keeps
      have admitted := fun attempt => @undertake_admitted _ _ _ sound _ _ confined keeps attempt
      have weighed := fun time => @undertake_weighed _ _ _ sound _ _ confined keeps time
      have leads := undertake_leads confined sound.steady
      rw [prepareMember_write baseline writing]
      simp only [bind, StateT.bind]
      cases ran : undertake (affectedKeys arguments) (executeServerCommand arguments) store with
      | mk result after =>
          obtain ⟨attempt, outcome, verdict⟩ := result
          rw [ran] at settled admitted weighed leads
          have began : attempt = (beginMutation (affectedKeys arguments) store).1 :=
            (congrArg (fun undertaken => undertaken.1.1) ran).symm
          have affected : Noted base (baseline.noteAffected (affectedKeys arguments) attempt.beforeEntries) store := by
            rw [began]
            apply noted.affected
            exact fun time _ => (beginMutation_was (affectedKeys arguments) store time).2.1.images
          cases verdict with
          | unchanged =>
              apply affected.settled (settled _)
              intro _ admitted
              cases admitted
          | refused error =>
              apply affected.settled (settled _)
              intro _ admitted
              cases admitted
          | admitted admission =>
              apply affected.admitted (admitted admission rfl).within leads
              · exact fun key member => (mem_noteAffected baseline _ _ key).mpr (Or.inl member)
              · exact fun time upto => (weighed time upto).1

theorem prepareMembers_noted {base : ShardedStore} (commands : List (List String)) {baseline : Baseline}
    {store : ShardedStore} (noted : Noted base baseline store) :
    Noted base (prepareMembers commands baseline store).1.2 (prepareMembers commands baseline store).2 := by
  induction commands generalizing baseline store with
  | nil => exact noted
  | cons arguments commands rest => exact rest (prepareMember_noted noted arguments)

omit [Platform] [Process] in
theorem sortKeys_mem (keys : List Bytes) (key : Bytes) : key ∈ sortKeys keys ↔ key ∈ keys := List.mem_mergeSort

theorem prepareTransaction_bounded {store : ShardedStore} (sound : Within store) (commands : List (List String)) :
    Bounded store (prepareTransaction commands store).1.rollbacks (prepareTransaction commands store).2 := by
  have empty : Noted store .empty store := by
    refine ⟨Clock.Leads.refl _, sound, ?_, ?_, ?_⟩
    · intro key
      simp [Baseline.empty]
    · intro time _
      constructor
      · intro key entry shown
        rw [MutationRollback.fromBaseline, Baseline.empty, AList.lookup_empty] at shown
        cases shown
      · intro _ member
        cases member
    · exact fun time _ key entry held _ => Was.self store time key entry held
  have noted := prepareMembers_noted commands empty
  simp only [prepareTransaction, bind, StateT.bind]
  cases ran : prepareMembers commands .empty store with
  | mk result middle =>
      obtain ⟨results, baseline⟩ := result
      rw [ran] at noted
      have ages := derive_ages (sortKeys baseline.changedKeys) baseline.images [] middle
      have accounted := derive_accounted (sortKeys baseline.changedKeys) baseline.images [] noted.within.accounted
      dsimp only
      cases derived : derive (sortKeys baseline.changedKeys) baseline.images [] middle with
      | mk batch after =>
          rw [derived] at ages accounted
          have looked := noted.settled (Bounded.ages (.refl noted.within) ages accounted)
          cases batch with
          | none =>
              apply Bounded.settled sound looked.leads accounted
              intro time upto
              have order := ages.leads.now_le noted.within.steady
              have was : (derive (sortKeys baseline.changedKeys) baseline.images [] middle).2.All (Was store time) := by
                apply @derive_none_was _ _ _ _ (.fromBaseline baseline.images)
                · exact congrArg Prod.fst derived
                · exact noted.holds time (order.trans upto)
                · intro key entry outside held
                  rw [sortKeys_mem] at outside
                  exact noted.others time (order.trans upto) key entry held outside
              rw [derived] at was
              exact was
          | some batch =>
              refine ⟨looked.leads, looked.within, ?_⟩
              intro time upto later all
              apply restore_was looked.imaged (looked.holds time upto)
              exact fun key entry held outside =>
                untouched_was (looked.others time upto) outside (all key entry held)

theorem prepareRequest_bounded {store : ShardedStore} (sound : Within store) (request : MasterCommitOperation) :
    Bounded store (requestUndos (prepareRequest request store).1) (prepareRequest request store).2 := by
  cases request with
  | command arguments => exact prepareCommand_bounded sound arguments
  | commandGroup commands => exact prepareCommands_bounded sound commands _ _ (.refl sound)
  | transaction commands => exact prepareTransaction_bounded sound commands
  | obpSet key value => exact prepareObpSet_bounded sound key value
  | obpDelete key => exact prepareObpDelete_bounded sound key

end Transactions

section Groups
variable [Process]

/-- What a prepared group would undo. -/
def groupUndos : Except PersistenceError (List PreparedMasterCommit) → List MutationRollback
  | .ok prepared => prepared.flatMap PreparedMasterCommit.rollbacks
  | .error _ => []

theorem prepareRequests_bounded {base : ShardedStore} (sound : Within base) (requests : List MasterCommitOperation)
    (prepared : List PreparedMasterCommit) {store : ShardedStore}
    (bounded : Bounded base (prepared.flatMap PreparedMasterCommit.rollbacks) store) :
    Bounded base (groupUndos (prepareRequests requests prepared store).1)
      (prepareRequests requests prepared store).2 := by
  induction requests generalizing prepared store with
  | nil => exact bounded
  | cons request requests rest =>
      have next := prepareRequest_bounded bounded.within request
      simp only [prepareRequests, bind, StateT.bind]
      cases ran : prepareRequest request store with
      | mk result after =>
          rw [ran] at next
          cases result with
          | error error => exact bounded.undone sound next
          | ok pending =>
              have both := bounded.append next
              apply rest (prepared ++ [pending])
              rw [List.flatMap_append, List.flatMap_singleton]
              exact both

omit [Process] in
theorem concludeGroup_within {base : ShardedStore} (sound : Within base) (append : AppendBatches)
    (requests : List MasterCommitOperation) (prepared : List PreparedMasterCommit) {server : Server}
    (bounded : Bounded base (prepared.flatMap PreparedMasterCommit.rollbacks) server.store) :
    Within (concludeGroup append requests prepared server).2.store := by
  have undone := (bounded.undone sound (.refl bounded.within)).within
  unfold concludeGroup
  simp only
  split
  · exact undone
  · exact bounded.within
  · split
    · exact bounded.within
    · split
      · exact bounded.within
      · exact undone

theorem processCommitGroup_within (append : AppendBatches) (requests : List MasterCommitOperation) {server : Server}
    (sound : Within server.store) : Within (processCommitGroup append requests server).2.store := by
  have prepares := prepareRequests_bounded sound requests [] (.refl sound)
  unfold processCommitGroup
  split
  · exact sound
  · split
    next ran =>
      rw [ran] at prepares
      exact prepares.within
    next ran =>
      rw [ran] at prepares
      exact concludeGroup_within sound append requests _ prepares

end Groups

section Runs
variable [Process]

/-- The servers a run of client requests leads to: groups of requests, which storage may take or refuse, with reads
and the collection of expired keys between them. -/
inductive Serves (origin : Server) : Server → Prop where
  | start : Serves origin origin
  | group {server : Server} (serves : Serves origin server) (append : AppendBatches)
      (requests : List MasterCommitOperation) : Serves origin (processCommitGroup append requests server).2
  | read {server : Server} (serves : Serves origin server) (arguments : List String)
      (reads : isWriteCommand (argument arguments 0) = false) :
      Serves origin { server with store := (executeServerCommand arguments server.store).2 }
  | obpGet {server : Server} (serves : Serves origin server) (key : Bytes) :
      Serves origin { server with store := (server.store.getEntry key).2 }
  | collect {server : Server} (serves : Serves origin server) :
      Serves origin { server with store := (ShardedStore.perform .gcExpired server.store).2 }

omit [Process] in
/-- A program that changes no key stays within the limit. -/
theorem idle_within {α : Type} {program : StoreM α} (confined : Confined [] program) {store : ShardedStore}
    (sound : Within store) (accounted : Accounted (program store).2) : Within (program store).2 := by
  have ran := confined store sound.steady
  have bounded : Bounded store [] (program store).2 := by
    apply Bounded.settled sound ran.leads accounted
    exact fun time upto key entry held => confined_was confined sound.steady upto List.not_mem_nil held
  exact bounded.within

theorem Serves.within {origin server : Server} (serves : Serves origin server) (sound : Within origin.store) :
    Within server.store := by
  induction serves with
  | start => exact sound
  | group _ append requests rest => exact processCommitGroup_within append requests rest
  | read _ arguments reads rest =>
      have confined := executeServerCommand_confined arguments
      rw [affectedKeys_nil reads] at confined
      exact idle_within confined rest (executeServerCommand_accounted arguments _ rest.accounted)
  | obpGet _ key rest =>
      have confined : Confined [] (ShardedStore.perform (.get key)) := Confined.reads rfl
      exact idle_within confined rest (operation_accounted _ rest.accounted)
  | collect _ rest =>
      have confined : Confined [] (ShardedStore.perform .gcExpired) := Confined.reads rfl
      exact idle_within confined rest (operation_accounted _ rest.accounted)

/-- The number of live keys a store has at the next reading of its clock. -/
def liveKeyCount (store : ShardedStore) : Nat := (store.engine.aliveKeys store.engine.clock.now).length

/-- A mutation is refused for the number of keys only when it left too many of them alive. -/
def RefusedForKeys {α : Type} (keys : List Bytes) (program : StoreM α) (store : ShardedStore) : Prop :=
  let (attempt, begun) := beginMutation keys store
  let (_, executed) := program begun
  let (_, derived) := derive keys attempt.beforeEntries [] executed
  (admitAttempt attempt keys derived).1 = .error .keyLimit → maxKeys < liveKeyCount executed

omit [Process] in
theorem refusedForKeys {α : Type} {keys : List Bytes} {program : StoreM α} (confined : Confined keys program)
    (keeps : ∀ store, Accounted store → Accounted (program store).2) {store : ShardedStore}
    (accounted : Accounted store) (steady : store.engine.clock.Nondecreasing) : RefusedForKeys keys program store := by
  have begun := (beginMutation_ages keys store).leads.nondecreasing steady
  have executed := (confined (beginMutation keys store).2 begun).leads.nondecreasing begun
  have counted := keeps _ (beginMutation_accounted keys accounted)
  have ages := derive_ages keys (beginMutation keys store).1.beforeEntries [] (program (beginMutation keys store).2).2
  intro refused
  have exceeds := admitMutation_keyLimit (derive_accounted keys _ [] counted) (ages.leads.nondecreasing executed) refused
  exact exceeds.trans_le (Was.length_le ((Was.self _ _).sheds ages.sheds) (ages.leads.now_le executed))

/-- From a store with no more live keys than the limit, at a clock that does not go back, no request of any run leaves
more, whether it stands alone, is one of a group, or its group is undone; and the limit refuses a command or an OBP set
only when its execution left more live keys than the limit, before anything was evicted. -/
theorem key_limit_holds (origin : Server) (reachable : origin.store.engine.Reachable)
    (steady : origin.store.engine.clock.Nondecreasing) (few : liveKeyCount origin.store ≤ maxKeys) :
    (∀ server, Serves origin server → liveKeyCount server.store ≤ maxKeys ∧
      ∀ requests, liveKeyCount (prepareRequests requests [] server.store).2 ≤ maxKeys) ∧
    ∀ store : ShardedStore, store.engine.Reachable → store.engine.clock.Nondecreasing →
      (∀ arguments, RefusedForKeys (affectedKeys arguments) (executeServerCommand arguments) store) ∧
      ∀ key value, RefusedForKeys [key] (ShardedStore.perform (.set key (.blob value) none)) store := by
  have sound : Within origin.store := ⟨steady, reachable.accounted, few⟩
  constructor
  · intro server serves
    have within := serves.within sound
    refine ⟨within.few, ?_⟩
    intro requests
    have bounded := prepareRequests_bounded within requests [] (Bounded.refl within)
    have last := bounded.within
    exact last.few
  · intro store reached forward
    constructor
    · intro arguments
      exact refusedForKeys (executeServerCommand_confined arguments) (executeServerCommand_accounted arguments)
        reached.accounted forward
    · intro key value
      have confined : Confined [key] (ShardedStore.perform (.set key (.blob value) none)) :=
        Confined.perform (List.Subset.refl _)
      have keeps := fun store => @operation_accounted _ _ (.set key (.blob value) none) store
      exact refusedForKeys confined keeps reached.accounted forward

end Runs

end OnyxDB.Coordinator

namespace OnyxDB.Coordinator
open OnyxDB.Library OnyxDB.Engine OnyxDB.Engine.Value OnyxDB.Store

section Full
variable [Platform]

/-- A store of `count` keys, zero bytes of different lengths, that never expire. -/
def fullStore : Nat → ShardedStore
  | 0 => (emptyServer 0).store
  | count + 1 =>
      (ShardedStore.perform (.set (List.replicate count 0) (.blob []) none) (fullStore count)).2

/-- A key that is set and never expires is alive beside the others. -/
theorem set_view_isSome (store : ShardedStore) (key other : Bytes) (value : OnyxValue) (time : Nat) :
    ((ShardedStore.perform (.set key value none) store).2.engine.view time other).isSome ↔
      other = key ∨ (store.engine.view time other).isSome := by
  obtain ⟨reading, created, accessed, _, sets⟩ := store.engine.set_sets key value none
  have lasting (moment : Nat) : fresh moment (some ⟨value, none, created, accessed⟩) =
      some ⟨value, none, created, accessed⟩ := fresh_live rfl le_rfl
  rw [lasting reading] at sets
  change ((store.engine.set key value none).2.view time other).isSome ↔ _
  unfold OnyxEngine.view
  rw [sets.lookup]
  by_cases here : other = key
  · subst here
    rw [Function.update_self, shown, lasting time]
    simp
  · rw [Function.update_of_ne here]
    simp [here]

/-- A key that is set anew is one more that is alive. -/
theorem set_aliveKeys (store : ShardedStore) {key : Bytes} (value : OnyxValue) {time : Nat}
    (absent : store.view time key = none) :
    ((ShardedStore.perform (.set key value none) store).2.engine.aliveKeys time).length =
      (store.engine.aliveKeys time).length + 1 := by
  have missing : key ∉ store.engine.aliveKeys time := by
    rw [OnyxEngine.mem_aliveKeys, show store.engine.view time key = none from absent]
    exact nofun
  rw [← List.length_cons (a := key)]
  apply List.Perm.length_eq
  rw [List.perm_ext_iff_of_nodup (OnyxEngine.nodup_aliveKeys _ time)
    (List.nodup_cons.mpr ⟨missing, store.engine.nodup_aliveKeys time⟩)]
  intro other
  rw [OnyxEngine.mem_aliveKeys, set_view_isSome, List.mem_cons, OnyxEngine.mem_aliveKeys]

theorem fullStore_clock (count : Nat) : (fullStore count).engine.clock.Fixed 0 := by
  induction count with
  | zero => exact fun _ => rfl
  | succ count rest =>
      obtain ⟨_, _, _, _, sets⟩ := (fullStore count).engine.set_sets (List.replicate count 0) (.blob []) none
      exact sets.leads.fixed rest

theorem fullStore_reachable (count : Nat) : (fullStore count).engine.Reachable := by
  induction count with
  | zero => exact .new _
  | succ count rest => exact .operation (.set (List.replicate count 0) (.blob []) none) rest

theorem fullStore_view (count : Nat) (key : Bytes) :
    ((fullStore count).engine.view 0 key).isSome ↔ ∃ length < count, key = List.replicate length 0 := by
  induction count with
  | zero => exact ⟨nofun, nofun⟩
  | succ count rest =>
      rw [fullStore, set_view_isSome, rest]
      constructor
      · rintro (rfl | ⟨length, early, rfl⟩)
        · exact ⟨count, Nat.lt_succ_self count, rfl⟩
        · exact ⟨length, Nat.lt_succ_of_lt early, rfl⟩
      · rintro ⟨length, early, rfl⟩
        rcases Nat.lt_succ_iff_lt_or_eq.mp early with before | rfl
        · exact Or.inr ⟨length, before, rfl⟩
        · exact Or.inl rfl

theorem fullStore_count (count : Nat) : ((fullStore count).engine.aliveKeys 0).length = count := by
  induction count with
  | zero => rfl
  | succ count rest =>
      have absent : (fullStore count).view 0 (List.replicate count 0) = none := by
        rw [← Option.not_isSome_iff_eq_none]
        intro alive
        obtain ⟨length, early, same⟩ := (fullStore_view count _).mp alive
        have lengths := congrArg List.length same
        rw [List.length_replicate, List.length_replicate] at lengths
        omega
      rw [fullStore, set_aliveKeys _ _ absent, rest]

omit [Platform] in
/-- Looking at a store at a fixed clock leaves its live keys. -/
theorem liveKeys_same {store after : ShardedStore} {time : Nat} (fixed : store.engine.clock.Fixed time)
    (confines : store.Confines after []) :
    (after.engine.aliveKeys time).length = (store.engine.aliveKeys time).length := by
  apply List.Perm.length_eq
  rw [List.perm_ext_iff_of_nodup (OnyxEngine.nodup_aliveKeys _ time) (OnyxEngine.nodup_aliveKeys _ time)]
  intro key
  rw [OnyxEngine.mem_aliveKeys, OnyxEngine.mem_aliveKeys]
  rw [confines.engine.same_view fixed.upto]

/-- With more live keys than the limit, a mutation that began with no more is refused for their number. -/
theorem admitMutation_overfull {store : ShardedStore} (accounted : Accounted store) {time : Nat}
    (fixed : store.engine.clock.Fixed time) (many : maxKeys < (store.engine.aliveKeys time).length)
    {attempt : MutationAttempt} {count : Nat} (counted : attempt.keyCountBefore = some count) (few : count ≤ maxKeys)
    (protectedKeys : List Bytes) : (store.admitMutation attempt protectedKeys).1 = .error .keyLimit := by
  have counts : store.Confines store.stats.2 [] := ⟨store.engine.stats_ages.confines, rfl, rfl⟩
  have alive := liveKeys_same fixed counts
  have held := (List.filter_sublist (l := store.stats.2.engine.keys)
    (p := fun key => (store.stats.2.engine.view time key).isSome)).length_le
  have total : store.stats.1.totalKeys = store.stats.2.engine.keys.length := OnyxEngine.stats_totalKeys accounted
  have exceeds : store.stats.1.totalKeys > maxKeys ∧ store.stats.1.totalKeys > count := by
    change (store.stats.2.engine.aliveKeys time).length ≤ _ at held
    omega
  unfold ShardedStore.admitMutation ShardedStore.checkKeyLimit
  rw [counted]
  simp only [if_pos exceeds]

theorem fullStore_absent (count : Nat) : (fullStore count).view 0 [1] = none := by
  rw [← Option.not_isSome_iff_eq_none]
  intro alive
  obtain ⟨length, _, same⟩ := (fullStore_view count [1]).mp alive
  have zero : (1 : UInt8) = 0 := List.eq_of_mem_replicate (same ▸ List.mem_singleton_self 1)
  exact absurd zero (by decide)

/-- A key set anew where there are as many keys as the limit allows is refused for their number. -/
theorem full_refuses {store : ShardedStore} {time : Nat} (fixed : store.engine.clock.Fixed time)
    (accounted : Accounted store) (full : (store.engine.aliveKeys time).length = maxKeys) {key : Bytes}
    (value : OnyxValue) (absent : store.view time key = none) :
    let begun := beginMutation [key] store
    let executed := (ShardedStore.perform (.set key value none) begun.2).2
    let derived := (derive [key] begun.1.beforeEntries [] executed).2
    (admitAttempt begun.1 [key] derived).1 = .error .keyLimit := by
  have confined : Confined [key] (ShardedStore.perform (.set key value none)) := Confined.perform (List.Subset.refl _)
  have looked : store.Confines (beginMutation [key] store).2 [] := beginMutation_confines store [key]
  have begun := looked.fixed fixed
  have mutated := confined _ begun.nondecreasing
  have sound : Within store := by
    refine ⟨fixed.nondecreasing, accounted, ?_⟩
    rw [fixed.now, full]
  have kept := operation_accounted (.set key value none) (beginMutation_accounted [key] accounted)
  have shown : (beginMutation [key] store).2.view time key = none :=
    (congrFun (looked.engine.same_view fixed.upto) key).trans absent
  have executed := set_aliveKeys (beginMutation [key] store).2 value shown
  rw [liveKeys_same fixed looked, full] at executed
  obtain ⟨uncounted, counted⟩ := executed_few sound confined (mutated.fixed begun).now.le
  have derives := derive_confines (ShardedStore.perform (.set key value none) (beginMutation [key] store).2).2 [key]
    (beginMutation [key] store).1.beforeEntries []
  have many := liveKeys_same (mutated.fixed begun) derives
  cases count : (beginMutation [key] store).1.keyCountBefore with
  | none =>
      have few := uncounted count
      omega
  | some counts =>
      apply admitMutation_overfull (derive_accounted _ _ _ kept) (derives.fixed (mutated.fixed begun)) ?_ count
        (counted counts count)
      exact lt_of_lt_of_eq (Nat.lt_succ_self maxKeys) (many.trans executed).symm

theorem RefusedForKeys.exceeds {α : Type} {keys : List Bytes} {program : StoreM α} {store : ShardedStore}
    (refuses : RefusedForKeys keys program store) :
    let begun := beginMutation keys store
    let executed := program begun.2
    let derived := (derive keys begun.1.beforeEntries [] executed.2).2
    (admitAttempt begun.1 keys derived).1 = .error .keyLimit → maxKeys < liveKeyCount executed.2 :=
  refuses

end Full

/-- A key set where there are as many keys as the limit allows: its execution leaves one too many, it is refused for
their number, and the server keeps as many as there were. -/
theorem key_limit_holds_full :
    letI := Reference.platform (fun _ => .error "unsupported")
    letI := startedProcess
    let server : Server := { emptyServer 0 with store := fullStore maxKeys }
    let begun := beginMutation [[1]] server.store
    let executed := (ShardedStore.perform (.set [1] (.blob [7]) none) begun.2).2
    let derived := (derive [[1]] begun.1.beforeEntries [] executed).2
    (admitAttempt begun.1 [[1]] derived).1 = .error .keyLimit ∧ maxKeys < liveKeyCount executed ∧
      liveKeyCount (processCommitGroup acceptEverything [.obpSet [1] [7]] server).2.store ≤ maxKeys := by
  have fixed := @fullStore_clock (Reference.platform (fun _ => .error "unsupported")) maxKeys
  have reachable := @fullStore_reachable (Reference.platform (fun _ => .error "unsupported")) maxKeys
  have counts := @fullStore_count (Reference.platform (fun _ => .error "unsupported")) maxKeys
  have absent := @fullStore_absent (Reference.platform (fun _ => .error "unsupported")) maxKeys
  generalize @fullStore (Reference.platform (fun _ => .error "unsupported")) maxKeys = store
    at fixed reachable counts absent ⊢
  let platform := Reference.platform (fun _ => .error "unsupported")
  have few : liveKeyCount store ≤ maxKeys := by rw [liveKeyCount, fixed.now, counts]
  obtain ⟨runs, refusals⟩ := @key_limit_holds (Reference.platform (fun _ => .error "unsupported")) startedProcess
    { emptyServer 0 with store := store } reachable fixed.nondecreasing few
  have refused := @full_refuses (Reference.platform (fun _ => .error "unsupported")) store 0 fixed
    reachable.accounted counts [1] (.blob [7]) absent
  have serves := @Serves.group (Reference.platform (fun _ => .error "unsupported")) startedProcess
    { emptyServer 0 with store := store } _ (@Serves.start _ startedProcess _) acceptEverything [.obpSet [1] [7]]
  exact ⟨refused, ((refusals store reachable fixed.nondecreasing).2 [1] [7]).exceeds refused, (runs _ serves).1⟩

end OnyxDB.Coordinator
