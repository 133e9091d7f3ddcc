import OnyxDB.Coordinator.StorableGroups
import OnyxDB.Server.WellFormedValues
import OnyxDB.Store.ByteFidelity

/-! Batches that are too large for a record. Nothing bounds the length of a stored value but the record it is logged
in, so that a client that goes on appending to a key makes the server stop taking writes. -/

namespace OnyxDB.Server
open OnyxDB.Library OnyxDB.Engine OnyxDB.Engine.Value OnyxDB.Store OnyxDB.Protocol OnyxDB.Command OnyxDB.Coordinator
  OnyxDB.Persistence OnyxDB.Persistence.Model OnyxDB.Persistence.Commit OnyxDB.Persistence.Codec
  OnyxDB.Persistence.Record OnyxDB.Persistence.BinlogFile

section Growing
variable [Platform] {store : ShardedStore} {time : Nat} {key text suffix : String}

/-- At a clock that stands still and without a memory limit, a key holds a text that does not expire. -/
structure Holding (store : ShardedStore) (time : Nat) (key text : String) : Prop where
  fixed : store.engine.clock.Fixed time
  unlimited : store.maxmemoryBytes = 0
  shows : store.view time (utf8Bytes key) = some ⟨.blob (utf8Bytes text), none⟩

omit [Platform] in
theorem Holding.looked (holding : Holding store time key text) {after : ShardedStore}
    (confines : store.Confines after []) : Holding after time key text := by
  refine ⟨confines.fixed holding.fixed, confines.maxmemoryBytes.trans holding.unlimited, ?_⟩
  rw [confines.view holding.fixed List.not_mem_nil]
  exact holding.shows

omit [Platform] in
theorem Holding.entry (holding : Holding store time key text) :
    ∃ entry, store.engine.lookup (utf8Bytes key) = some entry ∧ entry.expired time = false ∧
      entry.value = .blob (utf8Bytes text) ∧ entry.expiresAt = none := by
  obtain ⟨entry, alive, same⟩ := Option.map_eq_some_iff.mp holding.shows
  obtain ⟨held, live⟩ := Expiring.live_eq_some alive
  exact ⟨entry, held, live, congrArg PersistentEntry.value same, congrArg PersistentEntry.expiresAt same⟩

/-- `APPEND` to a text makes it longer. -/
theorem Holding.append (holding : Holding store time key text) (suffix : String) :
    Holding (ShardedStore.append key suffix store).2 time key (text ++ suffix) := by
  have confined : Confined [utf8Bytes key] (ShardedStore.append key suffix) := .perform (List.Subset.refl _)
  have confines := confined store holding.fixed.nondecreasing
  have still := confines.fixed holding.fixed
  obtain ⟨entry, held, live, value, expiry⟩ := holding.entry
  obtain ⟨_, after, found, contents, deadline⟩ :=
    append_answers holding.fixed.nondecreasing held live suffix still.now.le
  have longer : (appended suffix entry.value).2 = .blob (utf8Bytes (text ++ suffix)) := by
    rw [value, appended, valueText, fromUtf8Lossy_utf8Bytes]
  have unexpired : after.expiresAt = none := deadline.trans expiry
  refine ⟨still, confines.maxmemoryBytes.trans holding.unlimited, ?_⟩
  rw [ShardedStore.view, OnyxEngine.view, found, shown_some, unexpired, expiryPassed, if_neg Bool.false_ne_true,
    PersistentEntry.ofDataEntry, contents, longer, unexpired]

/-- The images of a key that is there have no room for a new key, so that no keys are counted. -/
theorem Holding.begins (holding : Holding store time key text) :
    (beginMutation [utf8Bytes key] store).1.keyCountBefore = none := by
  have looked := peekEntry_view store holding.fixed (utf8Bytes key)
  rw [holding.shows] at looked
  obtain ⟨entry, peeked, _⟩ := Option.map_eq_some_iff.mp looked
  unfold beginMutation ShardedStore.beginMutation ShardedStore.peekAll ShardedStore.peekAll
  simp only
  have images : ((∅ : Images).insert (utf8Bytes key) (store.peekEntry (utf8Bytes key)).1).entries =
      [⟨utf8Bytes key, some entry⟩] := by
    rw [peeked]
    rfl
  rw [images]
  rfl

variable [Process]

theorem executeServerCommand_append (key suffix : String) (store : ShardedStore) :
    (executeServerCommand ["APPEND", key, suffix] store).2 = (ShardedStore.append key suffix store).2 := rfl

omit [Process] in
/-- Without a count of keys and a memory limit every change is admitted. -/
theorem weigh_unlimited {keys : List Bytes} {attempt : MutationAttempt} {executed : ShardedStore}
    (fixed : executed.engine.clock.Fixed time) (pictures : Pictures store time keys attempt.beforeEntries)
    (uncounted : attempt.keyCountBefore = none) (unlimited : executed.maxmemoryBytes = 0)
    (changed : ∃ key ∈ keys, imageBeq (store.view time key) (executed.view time key) = false) :
    ∃ after, weigh keys attempt executed = (.admitted attempt, after) ∧ executed.Confines after [] := by
  have looked := derive_confines executed keys attempt.beforeEntries []
  have derived := derive_none_iff pictures fixed
  cases derivation : derive keys attempt.beforeEntries [] executed with
  | mk batch middle =>
      rw [derivation] at looked derived
      cases batch with
      | none =>
          obtain ⟨key, member, differ⟩ := changed
          rw [derived.mp rfl key member] at differ
          cases differ
      | some batch =>
          refine ⟨middle, ?_, looked⟩
          have admission : middle.admitMutation attempt keys = (.ok attempt, middle) := by
            rw [ShardedStore.admitMutation, ShardedStore.checkKeyLimit, uncounted]
            exact if_pos (looked.maxmemoryBytes.trans unlimited)
          rw [weigh_changed derivation, admission]

omit [Process] in
theorem undertake_of_weigh {α : Type} {keys : List Bytes} {program : StoreM α} {attempt : MutationAttempt}
    {begun executed after : ShardedStore} {answer : α} {verdict : Verdict}
    (begins : store.beginMutation keys = (attempt, begun)) (ran : program begun = (answer, executed))
    (weighed : weigh keys attempt executed = (verdict, after)) :
    undertake keys program store = ((attempt, answer, verdict), after) := by
  simp only [undertake, bind, StateT.bind, beginMutation, begins, ran, weighed]
  rfl

omit [Platform] [Process] in
theorem append_changes (text : String) {suffix : String} (longer : utf8Bytes suffix ≠ []) :
    imageBeq (some ⟨.blob (utf8Bytes text), none⟩) (some ⟨.blob (utf8Bytes (text ++ suffix)), none⟩) = false := by
  have differ : utf8Bytes text ≠ utf8Bytes (text ++ suffix) := by
    rw [utf8Bytes_append]
    intro same
    exact longer (List.append_right_eq_self.mp same.symm)
  simp [imageBeq, entryBeq, OnyxValue.beq, differ]

/-- The batch of an `APPEND` puts the whole text. -/
def appendBatch (key text : String) : CommittedBatch := ⟨[.put (utf8Bytes key) ⟨.blob (utf8Bytes text), none⟩]⟩

omit [Process] in
theorem appendBatch_size (key text : String) :
    batchSize (appendBatch key text) = 26 + (utf8Bytes key).length + (utf8Bytes text).length := by
  simp only [batchSize, appendBatch, List.map_cons, List.map_nil, List.sum_cons, List.sum_nil, effectSize, entrySize,
    valueSize]
  omega

theorem prepareCommandOperation_append (holding : Holding store time key text) {suffix : String}
    (longer : utf8Bytes suffix ≠ []) :
    ∃ outcome undo after, prepareCommandOperation ["APPEND", key, suffix] store =
        (.ok ⟨outcome, some (appendBatch key (text ++ suffix)), some undo⟩, after) ∧
      Holding after time key (text ++ suffix) := by
  have keys : affectedKeys ["APPEND", key, suffix] = [utf8Bytes key] := rfl
  have begun := holding.looked (beginMutation_confines store [utf8Bytes key])
  have pictures := beginMutation_pictures store holding.fixed [utf8Bytes key]
  have uncounted := holding.begins
  have executed := begun.append suffix
  rw [← executeServerCommand_append key suffix] at executed
  have changed : ∃ other ∈ [utf8Bytes key], imageBeq (store.view time other)
      ((executeServerCommand ["APPEND", key, suffix] (store.beginMutation [utf8Bytes key]).2).2.view time other) =
        false := by
    refine ⟨utf8Bytes key, List.mem_singleton_self _, ?_⟩
    rw [holding.shows, executed.shows]
    exact append_changes text longer
  obtain ⟨middle, weighed, looked⟩ := weigh_unlimited executed.fixed pictures uncounted executed.unlimited changed
  have admitted := executed.looked looked
  have effects := derive_effects middle [utf8Bytes key] (store.beginMutation [utf8Bytes key]).1.beforeEntries []
    admitted.fixed
  have put : derivedEffects [utf8Bytes key] (store.beginMutation [utf8Bytes key]).1.beforeEntries []
      (middle.view time) = (appendBatch key (text ++ suffix)).effects := by
    have image := pictures_shown pictures (List.mem_singleton_self (utf8Bytes key))
    have differ := append_changes text longer
    simp only [derivedEffects, List.map_nil, effectsBetween, List.flatMap_cons, List.flatMap_nil, List.append_nil, image,
      holding.shows, admitted.shows, keyEffect, differ]
    rfl
  have some_effects : (appendBatch key (text ++ suffix)).effects ≠ [] := List.cons_ne_nil _ _
  rw [put, if_neg some_effects] at effects
  have undertaken : undertake [utf8Bytes key] (executeServerCommand ["APPEND", key, suffix]) store =
      (((store.beginMutation [utf8Bytes key]).1,
        (executeServerCommand ["APPEND", key, suffix] (store.beginMutation [utf8Bytes key]).2).1,
        .admitted (store.beginMutation [utf8Bytes key]).1), middle) := undertake_of_weigh rfl rfl weighed
  have clean : (store.beginMutation [utf8Bytes key]).1.evictedEntries = [] := rfl
  rw [prepareCommandOperation_eq, keys]
  simp only [bind, StateT.bind, undertaken, concludeCommand, concludeAdmitted, clean]
  have last := derive_confines middle [utf8Bytes key] (store.beginMutation [utf8Bytes key]).1.beforeEntries []
  revert effects last
  cases derive [utf8Bytes key] (store.beginMutation [utf8Bytes key]).1.beforeEntries [] middle with
  | mk batch after =>
      rintro rfl last
      exact ⟨_, _, after, rfl, admitted.looked last⟩

theorem prepareRequests_append (holding : Holding store time key text) {suffix : String}
    (longer : utf8Bytes suffix ≠ []) :
    ∃ prepared after, prepareRequests [.command ["APPEND", key, suffix]] [] store = (.ok prepared, after) ∧
      allBatches prepared = [appendBatch key (text ++ suffix)] ∧ Holding after time key (text ++ suffix) := by
  obtain ⟨outcome, undo, after, operation, later⟩ := prepareCommandOperation_append holding longer
  refine ⟨[.withMutation (.command outcome) (appendBatch key (text ++ suffix)) undo], after, ?_, rfl, later⟩
  simp only [prepareRequests, prepareRequest, prepareCommand, bind, StateT.bind, operation]
  rfl

variable {server : Coordinator.Server} {append : AppendBatches}

/-- Another `APPEND` is logged as long as the whole value fits a record, and else ends the writes of the server. -/
theorem processCommitGroup_append (faultless : Faultless append) (available : server.available = true)
    (holding : Holding server.store time key text) {suffix : String} (longer : utf8Bytes suffix ≠ [])
    (room : server.runtime.replOffset + 1 < 2 ^ 64) :
    derivedBatches [.command ["APPEND", key, suffix]] server.store = [appendBatch key (text ++ suffix)] ∧
      (20 + batchSize (appendBatch key (text ++ suffix)) ≤ maxBinlogRecordSize →
        (processCommitGroup append [.command ["APPEND", key, suffix]] server).2.available = true ∧
        (processCommitGroup append [.command ["APPEND", key, suffix]] server).2.runtime.replOffset =
          server.runtime.replOffset + 1 ∧
        Holding (processCommitGroup append [.command ["APPEND", key, suffix]] server).2.store time key
          (text ++ suffix)) ∧
      (maxBinlogRecordSize < 20 + batchSize (appendBatch key (text ++ suffix)) →
        (processCommitGroup append [.command ["APPEND", key, suffix]] server).2.available = false) := by
  obtain ⟨prepared, after, ran, batches, later⟩ := prepareRequests_append holding longer
  have count : server.runtime.replOffset + (allBatches prepared).length < 2 ^ 64 := by
    rw [batches]
    exact room
  have within : WithinRecords (allBatches prepared) ↔
      20 + batchSize (appendBatch key (text ++ suffix)) ≤ maxBinlogRecordSize := by
    rw [batches]
    constructor
    · exact fun fits => fits.each _ (List.mem_singleton_self _)
    · intro fits
      refine ⟨fun batch member => List.mem_singleton.mp member ▸ fits, ?_⟩
      have limit : maxBinlogRecordSize + 4 < 2 ^ 64 := by decide
      rw [List.map_singleton, List.sum_singleton]
      omega
  obtain ⟨acknowledged, refused⟩ := @concludeGroup_faultless _ append prepared { server with store := after } faultless
    [.command ["APPEND", key, suffix]] (allBatches_effective ran) _ (numberBatches_fits count)
  rw [processCommitGroup_concluded append available ran]
  refine ⟨?_, ?_, ?_⟩
  · rw [derivedBatches, ran]
    exact batches
  · intro fits
    rw [acknowledged (within.mpr fits)]
    refine ⟨available, ?_, later⟩
    rw [CommitRuntime.advance, batches]
    rfl
  · intro large
    exact refused (fun fits => absurd (within.mp fits) (Nat.not_le.mpr large))

/-- The same `APPEND` again and again, each in a group of its own. -/
def appendGroups (append : AppendBatches) (key suffix : String) : Nat → Coordinator.Server → Coordinator.Server
  | 0, server => server
  | count + 1, server =>
      (processCommitGroup append [.command ["APPEND", key, suffix]] (appendGroups append key suffix count server)).2

/-- As long as the value fits a record it grows by every `APPEND`. -/
theorem appendGroups_grow (faultless : Faultless append) (available : server.available = true)
    (holding : Holding server.store time key text) {suffix : String} (longer : utf8Bytes suffix ≠ []) (count : Nat)
    (room : server.runtime.replOffset + count < 2 ^ 64)
    (fits : 46 + (utf8Bytes key).length + (utf8Bytes text).length + count * (utf8Bytes suffix).length ≤
      maxBinlogRecordSize) :
    ∃ grown, Holding (appendGroups append key suffix count server).store time key grown ∧
      (utf8Bytes grown).length = (utf8Bytes text).length + count * (utf8Bytes suffix).length ∧
      (appendGroups append key suffix count server).available = true ∧
      (appendGroups append key suffix count server).runtime.replOffset = server.runtime.replOffset + count := by
  induction count with
  | zero => exact ⟨text, holding, by rw [Nat.zero_mul, Nat.add_zero], available, rfl⟩
  | succ count rest =>
      rw [Nat.succ_mul] at fits ⊢
      obtain ⟨grown, held, length, open_still, offset⟩ := rest (by omega) (by omega)
      have next := processCommitGroup_append faultless open_still held longer (by rw [offset]; omega)
      have size : (utf8Bytes (grown ++ suffix)).length =
          (utf8Bytes text).length + (count * (utf8Bytes suffix).length + (utf8Bytes suffix).length) := by
        rw [utf8Bytes_append, List.length_append, length, Nat.add_assoc]
      have accepted : 20 + batchSize (appendBatch key (grown ++ suffix)) ≤ maxBinlogRecordSize := by
        rw [appendBatch_size, size]
        omega
      obtain ⟨open_after, advanced, later⟩ := next.2.1 accepted
      refine ⟨grown ++ suffix, later, size, open_after, ?_⟩
      rw [appendGroups, advanced, offset, Nat.add_assoc]

theorem processCommitGroup_unavailable (append : AppendBatches) (requests : List MasterCommitOperation)
    (unavailable : server.available = false) : (processCommitGroup append requests server).2 = server := by
  rw [Server.available, Bool.not_eq_false'] at unavailable
  unfold processCommitGroup
  rw [if_pos unavailable]

/-- A client that goes on appending to a value is served exactly as long as all of it fits one record. -/
theorem appendGroups_available_iff (faultless : Faultless append) (available : server.available = true)
    (holding : Holding server.store time key text) {suffix : String} (longer : utf8Bytes suffix ≠ [])
    (stored : 46 + (utf8Bytes key).length + (utf8Bytes text).length ≤ maxBinlogRecordSize) (count : Nat)
    (room : server.runtime.replOffset + count < 2 ^ 64) :
    (appendGroups append key suffix count server).available = true ↔
      46 + (utf8Bytes key).length + (utf8Bytes text).length + count * (utf8Bytes suffix).length ≤
        maxBinlogRecordSize := by
  induction count with
  | zero =>
      rw [Nat.zero_mul, Nat.add_zero]
      exact iff_of_true available stored
  | succ count rest =>
      have before := rest (by omega)
      rw [Nat.succ_mul]
      by_cases fits : 46 + (utf8Bytes key).length + (utf8Bytes text).length + count * (utf8Bytes suffix).length ≤
          maxBinlogRecordSize
      · obtain ⟨grown, held, length, still, offset⟩ :=
          appendGroups_grow faultless available holding longer count (by omega) fits
        have next := processCommitGroup_append faultless still held longer (by rw [offset]; omega)
        have size : 20 + batchSize (appendBatch key (grown ++ suffix)) =
            46 + (utf8Bytes key).length + (utf8Bytes text).length +
              (count * (utf8Bytes suffix).length + (utf8Bytes suffix).length) := by
          rw [appendBatch_size, utf8Bytes_append, List.length_append, length]
          omega
        rw [size] at next
        refine ⟨?_, fun small => (next.2.1 small).1⟩
        intro later
        by_contra large
        rw [appendGroups, next.2.2 (Nat.lt_of_not_le large)] at later
        cases later
      · have closed : (appendGroups append key suffix count server).available = false :=
          Bool.eq_false_iff.mpr (fun still => fits (before.mp still))
        rw [appendGroups, processCommitGroup_unavailable append _ closed, closed]
        exact iff_of_false Bool.false_ne_true (by omega)

end Growing

section Storing
variable [Platform] [Process]

/-- A derived batch is accepted exactly when its record is within the limit; a prepared group leaves the server taking
writes exactly when this holds of all its batches; and in a run in which it holds of every group nothing but a
preparation makes the server stop taking writes. -/
theorem accepted_commands_storable :
    (∀ requests store, ∀ batch ∈ derivedBatches requests store,
      Accepted batch ↔ 20 + batchSize batch ≤ maxBinlogRecordSize) ∧
    (∀ (append : AppendBatches) (server : Coordinator.Server) requests prepared after, Faultless append →
      server.available = true → prepareRequests requests [] server.store = (.ok prepared, after) →
      server.runtime.replOffset + (derivedBatches requests server.store).length < 2 ^ 64 →
      ((processCommitGroup append requests server).2.available = true ↔ BatchesFit requests server.store)) ∧
    ∀ server : Coordinator.Server, Operates BatchesFit server →
      Undisturbed server.runtime ∧
        ∀ requests, BatchesFit requests server.store → ∀ batch ∈ derivedBatches requests server.store,
          Accepted batch := by
  have exactly (requests : List MasterCommitOperation) (store : ShardedStore) (batch : CommittedBatch)
      (member : batch ∈ derivedBatches requests store) :
      Accepted batch ↔ 20 + batchSize batch ≤ maxBinlogRecordSize := by
    rw [accepted_iff]
    exact and_iff_right (derivedBatches_effective member)
  refine ⟨exactly, ?_, ?_⟩
  · intro append server requests prepared after faultless available ran room
    have derived : derivedBatches requests server.store = allBatches prepared := by rw [derivedBatches, ran]
    rw [BatchesFit, derived]
    rw [derived] at room
    exact processCommitGroup_available_iff faultless available ran room
  · intro server operates
    refine ⟨operates.undisturbed, ?_⟩
    intro requests fits batch member
    exact (exactly requests server.store batch member).mpr (fits.each batch member)

end Storing

section Oversized

/-- Storage that never fails: every group is appended to an empty file that is open. -/
def freshFile [Platform] : AppendBatches := fun _ group =>
  (appendBatches group .always ⟨⟨some 0, { binlog := some [] }⟩, []⟩).1.map (fun _ => ())

theorem freshFile_faultless [Platform] : Faultless freshFile :=
  fun _ _ => ⟨.always, _, Option.some_ne_none 0, rfl, rfl⟩

/-- What a server that sets a key derives and prepares. -/
theorem setGroup_fits :
    letI := Reference.platform (fun _ => .error "unsupported")
    letI := startedProcess
    ∃ batch prepared after, derivedBatches [.command ["SET", "k", "a"]] (emptyServer 0).store = [batch] ∧
      prepareRequests [.command ["SET", "k", "a"]] [] (emptyServer 0).store = (.ok prepared, after) ∧
      BatchesFit [.command ["SET", "k", "a"]] (emptyServer 0).store := by
  let platform := Reference.platform (fun _ => .error "unsupported")
  let process := startedProcess
  have sizes : (derivedBatches [.command ["SET", "k", "a"]] (emptyServer 0).store).map batchSize = [28] := by
    decide +kernel
  have prepares : (prepareRequests [.command ["SET", "k", "a"]] [] (emptyServer 0).store).1.isOk = true := by
    decide +kernel
  obtain ⟨batch, derived, size⟩ := List.map_eq_singleton_iff.mp sizes
  have fits : BatchesFit [.command ["SET", "k", "a"]] (emptyServer 0).store := by
    rw [BatchesFit, derived]
    constructor
    · intro other member
      rw [List.mem_singleton.mp member, size]
      decide
    · rw [List.map_singleton, size]
      decide
  cases ran : prepareRequests [.command ["SET", "k", "a"]] [] (emptyServer 0).store with
  | mk result after =>
      rw [ran] at prepares
      cases result with
      | error error => cases prepares
      | ok prepared => exact ⟨batch, prepared, after, derived, rfl, fits⟩

/-- A key set on an empty server: its batch is accepted, and the server goes on taking writes. -/
theorem accepted_commands_storable_set :
    letI := Reference.platform (fun _ => .error "unsupported")
    letI := startedProcess
    let server := (processCommitGroup freshFile [.command ["SET", "k", "a"]] (emptyServer 0)).2
    (∃ batch ∈ derivedBatches [.command ["SET", "k", "a"]] (emptyServer 0).store, Accepted batch) ∧
      server.available = true ∧ Undisturbed server.runtime := by
  obtain ⟨batch, prepared, after, derived, ran, fits⟩ := setGroup_fits
  obtain ⟨_, opens, runs⟩ :=
    @accepted_commands_storable (Reference.platform (fun _ => .error "unsupported")) startedProcess
  have room : (emptyServer 0).runtime.replOffset + [batch].length < 2 ^ 64 := (by decide : 0 + 1 < 2 ^ 64)
  rw [← derived] at room
  have started : @Operates (Reference.platform (fun _ => .error "unsupported")) startedProcess
      (@BatchesFit (Reference.platform (fun _ => .error "unsupported")) startedProcess) (emptyServer 0) :=
    @Operates.start (Reference.platform (fun _ => .error "unsupported")) startedProcess _ (.constant 0) 0 .noEviction _
      rfl rfl rfl
  have faultless := @freshFile_faultless (Reference.platform (fun _ => .error "unsupported"))
  have served := @Operates.group (Reference.platform (fun _ => .error "unsupported")) startedProcess _ _ started _
    faultless _ fits
  have member := derived.symm ▸ List.mem_singleton_self batch
  refine ⟨⟨batch, member, (runs _ started).2 _ fits batch member⟩, ?_, ?_⟩
  · exact (opens _ _ _ prepared after faultless rfl ran room).mpr fits
  · exact (runs _ served).1

/-- A server whose key `k` holds `a`. -/
def letterServer : Coordinator.Server :=
  letI := Reference.platform (fun _ => .error "unsupported")
  { emptyServer 0 with
    store := (ShardedStore.perform (.set (utf8Bytes "k") (.blob (utf8Bytes "a")) none) (emptyServer 0).store).2 }

theorem letterServer_holding :
    letI := Reference.platform (fun _ => .error "unsupported")
    Holding letterServer.store 0 "k" "a" := by
  let _ := Reference.platform (fun _ => .error "unsupported")
  have confined : Confined [utf8Bytes "k"]
      (ShardedStore.perform (.set (utf8Bytes "k") (.blob (utf8Bytes "a")) none)) := .perform (List.Subset.refl _)
  have fixed : (emptyServer 0).store.engine.clock.Fixed 0 := fun _ => rfl
  exact ⟨(confined _ fixed.nondecreasing).fixed fixed, rfl, rfl⟩

theorem letterServer_appends :
    letI := Reference.platform (fun _ => .error "unsupported")
    letI := startedProcess
    (appendGroups freshFile "k" "b" 3 letterServer).available = true ↔
      46 + (utf8Bytes "k").length + (utf8Bytes "a").length + 3 * (utf8Bytes "b").length ≤ maxBinlogRecordSize :=
  letI := Reference.platform (fun _ => .error "unsupported")
  letI := startedProcess
  appendGroups_available_iff freshFile_faultless rfl letterServer_holding (by decide) (by decide) 3 (by decide)

end Oversized

end OnyxDB.Server
