import OnyxDB.Coordinator.Undertaking

/-! Preparation at a clock that stands still: no request fails, and the clock goes on standing still. -/

namespace OnyxDB.Coordinator
open OnyxDB.Library OnyxDB.Engine OnyxDB.Engine.Value OnyxDB.Store OnyxDB.Protocol OnyxDB.Command
  OnyxDB.Persistence.Model OnyxDB.Persistence.Commit

variable [Platform]

section Admitted

/-- The batch of an admitted mutation; the images are put back if there is none. -/
def concludeAdmitted (keys : List Bytes) (attempt : MutationAttempt) (message : String) :
    StoreM (Except PersistenceError CommittedBatch) := do
  match ← derive keys attempt.beforeEntries attempt.evictedEntries with
  | none =>
      rollback attempt
      return .error (.new message)
  | some batch => return .ok batch

/-- An OBP set after its admission. -/
def concludeObpSet (keys : List Bytes) : Verdict → StoreM (Except PersistenceError PreparedMasterCommit)
  | .unchanged => return .ok (.withoutMutation obpOk)
  | .refused error => return .ok (.withoutMutation (.obp (.error error.message)))
  | .admitted attempt => do
      match ← concludeAdmitted keys attempt "OBP committed effect derivation failed after admission" with
      | .error error => return .error error
      | .ok batch => return .ok (.withMutation obpOk batch attempt.intoRollback)

theorem prepareObpSet_eq (key value : Bytes) :
    prepareObpSet key value = (do
      let (_, _, verdict) ← undertake [key] (ShardedStore.perform (.set key (.blob value) none))
      concludeObpSet [key] verdict) := by
  simp only [prepareObpSet, undertake, weigh, bind_assoc, pure_bind]
  refine bind_congr (fun attempt => bind_congr (fun outcome => bind_congr (fun batch => ?_)))
  cases batch with
  | none => rfl
  | some batch =>
      simp only [bind_assoc]
      refine bind_congr (fun admission => ?_)
      cases admission with
      | error error => rfl
      | ok admitted =>
          simp only [pure_bind, concludeObpSet, concludeAdmitted, bind_assoc]
          refine bind_congr (fun batch => ?_)
          cases batch <;> rfl

omit [Platform] in
/-- An admitted mutation leaves something to derive. -/
theorem admitted_derives {keys : List Bytes} {store middle after : ShardedStore} {time : Nat}
    {attempt admitted : MutationAttempt} {victims : List (Bytes × DataEntry)}
    (fixed : store.engine.clock.Fixed time) (pictures : Pictures store time keys attempt.beforeEntries)
    (confines : store.Confines middle keys)
    (changed : ∃ key ∈ keys, imageBeq (store.view time key) (middle.view time key) = false)
    (admits : Admits middle after attempt admitted keys victims) :
    derivedEffects keys attempt.beforeEntries victims (after.view time) ≠ [] := by
  intro nothing
  unfold derivedEffects at nothing
  rw [List.append_eq_nil_iff] at nothing
  have spared : victims = [] := List.map_eq_nil_iff.mp (evictionEffects_nil nothing.1)
  have same : after.view time = middle.view time := by
    funext key
    have shown := evicts_view admits.evicts (confines.fixed fixed).upto key
    rw [spared] at shown
    exact shown
  rw [spared, same] at nothing
  obtain ⟨key, member, differ⟩ := changed
  have equal := (effectsBetween_nil keys (imageShown attempt.beforeEntries) (middle.view time)).mp nothing.2 key member
  rw [pictures_shown pictures member, differ] at equal
  cases equal

/-- The batch of an admitted mutation, and the store it leaves as it is. -/
theorem concludeAdmitted_ok {keys : List Bytes} {store middle after : ShardedStore} {time : Nat}
    {attempt admitted : MutationAttempt} {victims : List (Bytes × DataEntry)}
    (fixed : store.engine.clock.Fixed time) (pictures : Pictures store time keys attempt.beforeEntries)
    (clean : attempt.evictedEntries = []) (confines : store.Confines middle keys)
    (changed : ∃ key ∈ keys, imageBeq (store.view time key) (middle.view time key) = false)
    (admits : Admits middle after attempt admitted keys victims) (message : String) :
    ∃ final, concludeAdmitted keys admitted message after =
        (.ok ⟨derivedEffects keys attempt.beforeEntries victims (after.view time)⟩, final) ∧
      after.Confines final [] := by
  have last : after.engine.clock.Fixed time :=
    admits.evicts.touches.leads.fixed (confines.fixed fixed)
  have images : admitted.beforeEntries = attempt.beforeEntries := by rw [admits.attempt]
  have taken : admitted.evictedEntries = victims := by
    rw [admits.attempt]
    simp only [clean, List.nil_append]
  have effects := derive_effects after keys admitted.beforeEntries admitted.evictedEntries last
  have looked := derive_confines after keys admitted.beforeEntries admitted.evictedEntries
  rw [images, taken, if_neg (admitted_derives fixed pictures confines changed admits)] at effects
  rw [images, taken] at looked
  refine ⟨_, ?_, looked⟩
  unfold concludeAdmitted
  rw [images, taken]
  cases derivation : derive keys attempt.beforeEntries victims after with
  | mk batch final =>
      rw [derivation] at effects
      simp only at effects
      subst effects
      simp only [bind, StateT.bind, derivation]
      rfl

end Admitted

section Standing

/-- At a clock that stands still the program succeeds and leaves the clock standing still. -/
def Settles {α : Type} (time : Nat) (program : StoreM (Except PersistenceError α)) : Prop :=
  ∀ store : ShardedStore, store.engine.clock.Fixed time →
    ∃ value after, program store = (.ok value, after) ∧ after.engine.clock.Fixed time

/-- At a clock that stands still the program leaves it so. -/
def Keeps {α : Type} (time : Nat) (program : StoreM α) : Prop :=
  ∀ store : ShardedStore, store.engine.clock.Fixed time → (program store).2.engine.clock.Fixed time

namespace Keeps
variable {α β : Type} {time : Nat}

omit [Platform] in
theorem pure (value : α) : Keeps time (pure value : StoreM α) := fun _ fixed => fixed

omit [Platform] in
theorem bind {program : StoreM α} {next : α → StoreM β} (first : Keeps time program)
    (rest : ∀ value, Keeps time (next value)) : Keeps time (program >>= next) :=
  fun store fixed => rest _ _ (first store fixed)

omit [Platform] in
theorem settles {program : StoreM α} (keeps : Keeps time program) :
    Settles time (do return .ok (← program)) :=
  fun store fixed => ⟨_, _, rfl, keeps store fixed⟩

omit [Platform] in
theorem of_confined {program : StoreM α} {keys : List Bytes} (confined : Confined keys program) :
    Keeps time program :=
  fun store fixed => (confined store fixed.nondecreasing).fixed fixed

theorem derive (keys : List Bytes) (before : Images) (victims : List (Bytes × DataEntry)) :
    Keeps time (derive keys before victims) :=
  fun store fixed => (derive_confines store keys before victims).fixed fixed

theorem undertake {keys : List Bytes} {program : StoreM α} (confined : Confined keys program) :
    Keeps time (undertake keys program) :=
  fun store fixed => (undertake_course confined store fixed).2.2.leads.fixed fixed

end Keeps

theorem prepareObpSet_settles (time : Nat) (key value : Bytes) : Settles time (prepareObpSet key value) := by
  intro store fixed
  have confined : Confined [key] (ShardedStore.perform (.set key (.blob value) none)) :=
    .perform (List.Subset.refl _)
  have course := undertake_course confined store fixed
  rw [prepareObpSet_eq]
  cases undertaken : undertake [key] (ShardedStore.perform (.set key (.blob value) none)) store with
  | mk result after =>
      obtain ⟨attempt, outcome, verdict⟩ := result
      rw [undertaken] at course
      obtain ⟨pictures, clean, undertaking⟩ := course
      simp only [bind, StateT.bind, undertaken]
      have last := undertaking.leads.fixed fixed
      cases undertaking with
      | unchanged => exact ⟨_, _, rfl, last⟩
      | refused => exact ⟨_, _, rfl, last⟩
      | admitted confines changed admits =>
          obtain ⟨final, concluded, looked⟩ := concludeAdmitted_ok fixed pictures clean confines changed admits
            "OBP committed effect derivation failed after admission"
          simp only [concludeObpSet, bind, StateT.bind, concluded]
          exact ⟨_, _, rfl, looked.fixed last⟩

theorem prepareObpDelete_keeps (time : Nat) (key : Bytes) : Keeps time (prepareObpDelete key) := by
  refine Keeps.bind (fun store fixed => (beginMutation_confines store [key]).fixed fixed) (fun attempt => ?_)
  have confined : Confined [key] (ShardedStore.perform (.delete key)) := .perform (List.Subset.refl _)
  refine (Keeps.of_confined confined).bind (fun deleted => ?_)
  cases deleted <;> exact .pure _

end Standing

section Server
variable [Process]

/-- The commands of the server change their own keys only. -/
theorem executeServerCommand_confined (arguments : List String) :
    Confined (affectedKeys arguments) (executeServerCommand arguments) := by
  unfold executeServerCommand
  split
  · refine Confined.map ?_ _
    unfold infoResponse
    refine Confined.now.bind (fun time => ?_)
    refine Confined.bind (fun store _ => stats_confines store _) (fun stats => ?_)
    refine Confined.bind (fun store _ => usedMemoryBytes_confines store _) (fun used => ?_)
    exact fun store _ => .refl store _
  · exact executeCommand_confined arguments

/-- A command after its admission. -/
def concludeCommand (keys : List Bytes) (outcome : CommandOutcome) :
    Verdict → StoreM (Except PersistenceError PreparedCommandOperation)
  | .unchanged => return .ok ⟨{ outcome with mutation := .noChange }, none, none⟩
  | .refused error => return .ok ⟨⟨.error error.message, .noChange⟩, none, none⟩
  | .admitted attempt => do
      match ← concludeAdmitted keys attempt derivationFailed with
      | .error error => return .error error
      | .ok batch => return .ok ⟨outcome, some batch, some attempt.intoRollback⟩

theorem prepareCommandOperation_eq (arguments : List String) :
    prepareCommandOperation arguments = (do
      let (_, outcome, verdict) ← undertake (affectedKeys arguments) (executeServerCommand arguments)
      concludeCommand (affectedKeys arguments) outcome verdict) := by
  simp only [prepareCommandOperation, undertake, weigh, bind_assoc, pure_bind]
  refine bind_congr (fun attempt => bind_congr (fun outcome => bind_congr (fun batch => ?_)))
  cases batch with
  | none => rfl
  | some batch =>
      simp only [bind_assoc]
      refine bind_congr (fun admission => ?_)
      cases admission with
      | error error => rfl
      | ok admitted =>
          simp only [pure_bind, concludeCommand, concludeAdmitted, bind_assoc]
          refine bind_congr (fun batch => ?_)
          cases batch <;> rfl

/-- A command of a transaction after its admission. -/
def concludeMember (baseline : Baseline) (outcome : CommandOutcome) : Verdict → RESPValue × Baseline
  | .unchanged => (outcome.response, baseline)
  | .refused error => (.error error.message, baseline)
  | .admitted attempt => (outcome.response, baseline.noteEvicted attempt.evictedEntries)

theorem prepareMember_write (baseline : Baseline) {arguments : List String}
    (writing : isWriteCommand (argument arguments 0) = true) :
    prepareMember baseline arguments = (do
      let (attempt, outcome, verdict) ← undertake (affectedKeys arguments) (executeServerCommand arguments)
      return concludeMember (baseline.noteAffected (affectedKeys arguments) attempt.beforeEntries)
        outcome verdict) := by
  simp only [prepareMember, writing, Bool.not_true, Bool.false_eq_true, if_false, undertake, weigh, bind_assoc,
    pure_bind]
  refine bind_congr (fun attempt => bind_congr (fun outcome => bind_congr (fun batch => ?_)))
  cases batch with
  | none => rfl
  | some batch =>
      simp only [bind_assoc]
      refine bind_congr (fun admission => ?_)
      cases admission <;> rfl

theorem prepareCommandOperation_settles (time : Nat) (arguments : List String) :
    Settles time (prepareCommandOperation arguments) := by
  intro store fixed
  have course := undertake_course (executeServerCommand_confined arguments) store fixed
  rw [prepareCommandOperation_eq]
  cases undertaken : undertake (affectedKeys arguments) (executeServerCommand arguments) store with
  | mk result after =>
      obtain ⟨attempt, outcome, verdict⟩ := result
      rw [undertaken] at course
      obtain ⟨pictures, clean, undertaking⟩ := course
      simp only [bind, StateT.bind, undertaken]
      have last := undertaking.leads.fixed fixed
      cases undertaking with
      | unchanged => exact ⟨_, _, rfl, last⟩
      | refused => exact ⟨_, _, rfl, last⟩
      | admitted confines changed admits =>
          obtain ⟨final, concluded, looked⟩ :=
            concludeAdmitted_ok fixed pictures clean confines changed admits derivationFailed
          simp only [concludeCommand, bind, StateT.bind, concluded]
          exact ⟨_, _, rfl, looked.fixed last⟩

/-- A prepared command has a batch exactly when it can be undone. -/
theorem prepareCommandOperation_paired {arguments : List String} {store after : ShardedStore}
    {prepared : PreparedCommandOperation}
    (operation : prepareCommandOperation arguments store = (.ok prepared, after)) :
    prepared.batch.isSome = prepared.rollback.isSome := by
  rw [prepareCommandOperation_eq] at operation
  simp only [bind, StateT.bind] at operation
  revert operation
  cases undertake (affectedKeys arguments) (executeServerCommand arguments) store with
  | mk result middle =>
      obtain ⟨attempt, outcome, verdict⟩ := result
      cases verdict with
      | unchanged =>
          intro operation
          cases operation
          rfl
      | refused error =>
          intro operation
          cases operation
          rfl
      | admitted admitted =>
          simp only [concludeCommand, bind, StateT.bind]
          cases concludeAdmitted (affectedKeys arguments) admitted derivationFailed middle with
          | mk concluded final =>
              intro operation
              cases concluded with
              | error error => cases operation
              | ok batch =>
                  cases operation
                  rfl

theorem prepareCommand_settles (time : Nat) (arguments : List String) :
    Settles time (prepareCommand arguments) := by
  intro store fixed
  obtain ⟨prepared, after, operation, last⟩ := prepareCommandOperation_settles time arguments store fixed
  simp only [prepareCommand, bind, StateT.bind, operation]
  cases prepared.batch <;> cases prepared.rollback <;> exact ⟨_, _, rfl, last⟩

theorem prepareCommands_settles (time : Nat) (commands : List (List String)) (prepared : PreparedMasterCommit)
    (outcomes : List CommandOutcome) : Settles time (prepareCommands commands prepared outcomes) := by
  induction commands generalizing prepared outcomes with
  | nil => exact fun store fixed => ⟨_, _, rfl, fixed⟩
  | cons arguments commands rest =>
      intro store fixed
      obtain ⟨next, after, operation, last⟩ := prepareCommandOperation_settles time arguments store fixed
      simp only [prepareCommands, bind, StateT.bind, operation]
      exact rest _ _ after last

theorem prepareMember_keeps (time : Nat) (baseline : Baseline) (arguments : List String) :
    Keeps time (prepareMember baseline arguments) := by
  cases writing : isWriteCommand (argument arguments 0) with
  | true =>
      rw [prepareMember_write baseline writing]
      exact (Keeps.undertake (executeServerCommand_confined arguments)).bind (fun _ => .pure _)
  | false =>
      simp only [prepareMember, writing, Bool.not_false, if_true]
      exact (Keeps.of_confined (executeServerCommand_confined arguments)).bind (fun _ => .pure _)

theorem prepareMembers_keeps (time : Nat) (commands : List (List String)) (baseline : Baseline) :
    Keeps time (prepareMembers commands baseline) := by
  induction commands generalizing baseline with
  | nil => exact .pure _
  | cons arguments commands rest =>
      exact (prepareMember_keeps time baseline arguments).bind (fun member =>
        (rest member.2).bind (fun _ => .pure _))

theorem prepareTransaction_keeps (time : Nat) (commands : List (List String)) :
    Keeps time (prepareTransaction commands) := by
  refine (prepareMembers_keeps time commands .empty).bind (fun results => ?_)
  refine (Keeps.derive _ _ _).bind (fun batch => ?_)
  cases batch <;> exact .pure _

/-- At a clock that stands still every request is prepared. -/
theorem prepareRequest_settles (time : Nat) (request : MasterCommitOperation) :
    Settles time (prepareRequest request) := by
  cases request with
  | command arguments => exact prepareCommand_settles time arguments
  | commandGroup commands => exact prepareCommands_settles time commands _ _
  | transaction commands => exact (prepareTransaction_keeps time commands).settles
  | obpSet key value => exact prepareObpSet_settles time key value
  | obpDelete key => exact (prepareObpDelete_keeps time key).settles

end Server

end OnyxDB.Coordinator
