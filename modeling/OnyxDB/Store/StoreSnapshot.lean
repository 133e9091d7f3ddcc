import OnyxDB.Engine.AccountingRuns
import OnyxDB.Engine.FlatRefinement

/-! Snapshots of the store beside running operations. The frozen base of a shard is shared with the
snapshot until the snapshot has copied it; no operation reaches it. -/

namespace OnyxDB.Engine
open OnyxDB.Library OnyxDB.Engine.Value

namespace ShardData
variable {index : Fin numShards}

/-- The base a shard shares with the open snapshot. -/
def base : ShardData index → Option (AList (fun _ : Key index => DataEntry))
  | .flat _ => none
  | .snapshot base _ => some base

@[simp]
theorem base_insert (data : ShardData index) (key : Key index) (entry : DataEntry) :
    (data.insert key entry).2.base = data.base := by
  cases data <;> rfl

@[simp]
theorem base_remove (data : ShardData index) (key : Key index) : (data.remove key).2.base = data.base := by
  cases data with
  | flat data => rfl
  | snapshot base changes =>
      simp only [remove]
      cases (ShardData.snapshot base changes).get key <;> rfl

@[simp]
theorem base_update (data : ShardData index) (key : Key index) (change : DataEntry → DataEntry) :
    (data.update key change).base = data.base := by
  cases data with
  | flat data =>
      simp only [update]
      cases data.lookup key <;> rfl
  | snapshot base changes => rfl

end ShardData

namespace Guard
variable [Platform] {index : Fin numShards}

/-- The base the locked shard shares. -/
def base (guard : Guard index) : Option (AList (fun _ : Key index => DataEntry)) := guard.shard.data.base

@[simp]
theorem base_removeEntry (guard : Guard index) (key : Key index) :
    (guard.removeEntry key).2.base = guard.base := by
  rw [removeEntry_eq]
  exact ShardData.base_remove _ _

@[simp]
theorem base_purgeIfExpired (guard : Guard index) (key : Key index) (timestamp : Nat) :
    (guard.purgeIfExpired key timestamp).2.base = guard.base := by
  unfold purgeIfExpired
  cases guard.lookup key with
  | none => rfl
  | some entry =>
      simp only
      split
      · exact base_removeEntry guard key
      · rfl

@[simp]
theorem base_purgeNow (guard : Guard index) (key : Key index) :
    (guard.purgeNow key).2.base = guard.base := base_purgeIfExpired guard.unixSeconds.2 key guard.clock.now

theorem base_get (guard : Guard index) (key : Key index) : (guard.get key).2.base = guard.base := by
  unfold get
  simp only
  cases (guard.purgeNow key).2.lookup key with
  | none => exact base_purgeNow guard key
  | some entry => exact (ShardData.base_update _ _ _).trans (base_purgeNow guard key)

theorem base_insert (guard : Guard index) (key : Key index) (entry : DataEntry) :
    (guard.insert key entry).2.base = guard.base := by
  have same := guard.shard.data.base_insert key entry
  unfold insert
  cases inserted : guard.shard.data.insert key entry with
  | mk old data =>
      rw [inserted] at same
      simp only [unixSeconds, inserted]
      cases old <;> exact same

theorem base_remove (guard : Guard index) (key : Key index) : (guard.remove key).2.base = guard.base := by
  rw [remove_eq]
  split
  · exact base_purgeNow guard key
  · exact (base_removeEntry _ _).trans (base_purgeNow guard key)

theorem base_removeAll (guard : Guard index) (keys : List (Key index)) :
    (guard.removeAll keys).base = guard.base := by
  induction keys generalizing guard with
  | nil => rfl
  | cons key keys rest => exact (rest _).trans (base_removeEntry guard key)

theorem base_updateIfExistsWithAction {α : Type} (guard : Guard index) (key : Key index)
    (mutate : OnyxValue → EntryMutation α × OnyxValue) :
    (guard.updateIfExistsWithAction key mutate).2.base = guard.base := by
  rw [← base_purgeNow guard key]
  unfold updateIfExistsWithAction
  simp only
  cases (guard.purgeNow key).2.lookup key with
  | none => rfl
  | some entry =>
      simp only
      cases (mutate entry.value).1 with
      | delete result => exact (ShardData.base_remove _ _).trans (ShardData.base_update _ _ _)
      | keep result => exact ShardData.base_update _ _ _

theorem base_updateEntryOrInsertWithPresence {α : Type} (guard : Guard index) (key : Key index)
    (default : OnyxValue) (mutate : DataEntry → Bool → α × DataEntry) :
    (guard.updateEntryOrInsertWithPresence key default mutate).2.base = guard.base := by
  rw [← base_purgeNow guard key]
  unfold updateEntryOrInsertWithPresence
  simp only
  cases (guard.purgeNow key).2.lookup key with
  | none => exact ShardData.base_insert _ _ _
  | some entry => exact ShardData.base_update _ _ _

theorem base_setExpiryConditional (guard : Guard index) (key : Key index) (timestamp : Nat)
    (requireExpiry : Option Bool) :
    (guard.setExpiryConditional key timestamp requireExpiry).2.base = guard.base := by
  rw [← base_purgeNow guard key]
  unfold setExpiryConditional
  simp only
  cases (guard.purgeNow key).2.lookup key with
  | none => rfl
  | some entry =>
      simp only
      split
      · rfl
      · split
        · exact base_remove _ _
        · exact ShardData.base_update _ _ _

theorem base_insertIfAbsent (guard : Guard index) (key : Key index) (entry : DataEntry) :
    (guard.insertIfAbsent key entry).2.base = guard.base := by
  rw [← base_purgeNow guard key]
  unfold insertIfAbsent
  simp only
  cases (guard.purgeNow key).2.lookup key with
  | none => exact ShardData.base_insert _ _ _
  | some present => rfl

/-- No method of a shard touches the base it shares. -/
theorem base_run {α : Type} (guard : Guard index) (method : Method index α) :
    (method.run guard).2.base = guard.base := by
  cases method with
  | purgeIfExpired key timestamp => exact base_purgeIfExpired guard key timestamp
  | get key => exact base_get guard key
  | insert key entry => exact base_insert guard key entry
  | remove key => exact base_remove guard key
  | expireKeys => exact base_removeAll guard.unixSeconds.2 _
  | updateIfExistsWithAction key mutate => exact base_updateIfExistsWithAction guard key mutate
  | updateEntryOrInsertWithPresence key default mutate =>
      exact base_updateEntryOrInsertWithPresence guard key default mutate
  | setExpiryConditional key timestamp requireExpiry =>
      exact base_setExpiryConditional guard key timestamp requireExpiry
  | insertIfAbsent key entry => exact base_insertIfAbsent guard key entry

theorem Calls.base {guard after : Guard index} (calls : Calls guard after) : after.base = guard.base := by
  induction calls with
  | done => rfl
  | clock _ _ rest => exact rest
  | call method _ _ rest => exact rest.trans (base_run _ method)

end Guard

namespace OnyxEngine
variable [Platform]

/-- Operations neither open nor close an epoch, and leave the shared bases alone. -/
theorem Calls.shape {engine after : OnyxEngine} (calls : Calls engine after) :
    after.snapshotActive = engine.snapshotActive ∧
      ∀ index, (after.shards index).data.base = (engine.shards index).data.base := by
  refine ⟨calls.snapshotActive, ?_⟩
  induction calls with
  | done => exact fun _ => rfl
  | clock _ _ rest => exact rest
  | locked index next chain _ rest =>
      intro other
      rw [rest other]
      by_cases same : other = index
      · subst same
        simp only [release, Function.update_self]
        exact chain.base
      · simp only [release, Function.update_of_ne same]

end OnyxEngine

end OnyxDB.Engine

namespace OnyxDB.Store
open OnyxDB.Library OnyxDB.Engine OnyxDB.Engine.Value

/-- An open snapshot. `into_entries` has copied and released the shards below `released`. -/
structure StoreSnapshot where
  view : EngineSnapshot
  released : Nat
  copied : List (Bytes × DataEntry)

/-- The engine and the snapshot that is open on it. -/
structure Epochs where
  engine : OnyxEngine
  snapshot : Option StoreSnapshot

/-- What a step shows: the call with its result and the readings around it, or what a snapshot yields. -/
inductive Label : Type 1 where
  | called {α : Type} (operation : Operation α) (result : α) (began ended : Nat)
  | begun (capturedAt : Nat)
  | listed (entries : List (Bytes × DataEntry))
  | released
  | yielded (entries : List (Bytes × DataEntry))
  | dropped

namespace Epochs
variable [Platform]

/-- Steps of the system. Between any two of them other operations may run. -/
inductive Step : Epochs → Label → Epochs → Prop
  | call {epochs : Epochs} {α : Type} (operation : Operation α) :
      Step epochs (.called operation (operation.run epochs.engine).1 epochs.engine.clock.now
          (operation.run epochs.engine).2.clock.now)
        { epochs with engine := (operation.run epochs.engine).2 }
  | begin {epochs : Epochs} (inactive : epochs.engine.snapshotActive = false) :
      Step epochs (.begun epochs.engine.clock.now)
        ⟨epochs.engine.beginSnapshot.2, some ⟨epochs.engine.beginSnapshot.1, 0, []⟩⟩
  | list {epochs : Epochs} {snapshot : StoreSnapshot} (opened : epochs.snapshot = some snapshot)
      (untouched : snapshot.released = 0) : Step epochs (.listed snapshot.view.entries) epochs
  | release {epochs : Epochs} {snapshot : StoreSnapshot} (opened : epochs.snapshot = some snapshot)
      (more : snapshot.released < numShards) :
      Step epochs .released ⟨epochs.engine.finishSnapshotShard ⟨snapshot.released, more⟩,
        some { snapshot with
          released := snapshot.released + 1
          copied := snapshot.copied ++ snapshot.view.shardEntries ⟨snapshot.released, more⟩ }⟩
  | finish {epochs : Epochs} {snapshot : StoreSnapshot} (opened : epochs.snapshot = some snapshot)
      (complete : snapshot.released = numShards) :
      Step epochs (.yielded snapshot.copied) ⟨epochs.engine.finishSnapshot, none⟩
  | drop {epochs : Epochs} {snapshot : StoreSnapshot} (opened : epochs.snapshot = some snapshot) :
      Step epochs .dropped ⟨epochs.engine.finishSnapshot, none⟩

inductive Steps : Epochs → List Label → Epochs → Prop
  | done (epochs : Epochs) : Steps epochs [] epochs
  | step {epochs middle after : Epochs} {label : Label} {labels : List Label} :
      Step epochs label middle → Steps middle labels after → Steps epochs (label :: labels) after

def new (clock : Clock) : Epochs := ⟨.new clock, none⟩

end Epochs

/-- The flat map with what was captured last: the map as it was and the time of the capture. -/
structure FlatEpochs where
  map : FlatMap
  captured : Option (FlatMap × Nat)

namespace FlatEpochs

def empty : FlatEpochs := ⟨fun _ => none, none⟩

/-- The entries are those that were live at the capture, each once. -/
def Yields (flat : FlatEpochs) (entries : List (Bytes × DataEntry)) : Prop :=
  ∃ map time, flat.captured = some (map, time) ∧ Listing entries (fun key => fresh time (map key))

inductive Step : FlatEpochs → Label → FlatEpochs → Prop
  | call {flat : FlatEpochs} {α : Type} {operation : Operation α} {result : α} {began ended : Nat}
      {after : FlatMap} (readings : Readings) (within : readings.Within began ended)
      (answers : FlatMap.Answers operation readings flat.map result after) :
      Step flat (.called operation result began ended) { flat with map := after }
  | begin {flat : FlatEpochs} (closed : flat.captured = none) (time : Nat) :
      Step flat (.begun time) { flat with captured := some (flat.map, time) }
  | list {flat : FlatEpochs} {entries : List (Bytes × DataEntry)} (yields : flat.Yields entries) :
      Step flat (.listed entries) flat
  | release (flat : FlatEpochs) : Step flat .released flat
  | finish {flat : FlatEpochs} {entries : List (Bytes × DataEntry)} (yields : flat.Yields entries) :
      Step flat (.yielded entries) { flat with captured := none }
  | drop (flat : FlatEpochs) : Step flat .dropped { flat with captured := none }

inductive Steps : FlatEpochs → List Label → FlatEpochs → Prop
  | done (flat : FlatEpochs) : Steps flat [] flat
  | step {flat middle after : FlatEpochs} {label : Label} {labels : List Label} :
      Step flat label middle → Steps middle labels after → Steps flat (label :: labels) after

end FlatEpochs

namespace Epochs
variable [Platform]

/-- What an open snapshot guarantees: shards that were not copied yet share the captured base, the
others have left the epoch, and the view lists what was live at the capture. -/
structure Open (engine : OnyxEngine) (flat : FlatEpochs) (snapshot : StoreSnapshot) : Prop where
  active : engine.snapshotActive = true
  bases : ∀ index : Fin numShards, (engine.shards index).data.base =
    if index.val < snapshot.released then none else some (snapshot.view.shards index)
  copied : snapshot.copied =
    ((List.finRange numShards).take snapshot.released).flatMap snapshot.view.shardEntries
  yields : flat.Yields snapshot.view.entries

/-- The invariant that ties the engine and its snapshot to the flat map. -/
structure Refines (epochs : Epochs) (flat : FlatEpochs) : Prop where
  steady : epochs.engine.clock.Nondecreasing
  accounted : epochs.engine.Accounted
  map : flat.map = epochs.engine.lookup
  closed : epochs.snapshot = none → epochs.engine.snapshotActive = false ∧
    (∀ index, (epochs.engine.shards index).data.base = none) ∧ flat.captured = none
  opened : ∀ snapshot, epochs.snapshot = some snapshot → Open epochs.engine flat snapshot

theorem new_refines {clock : Clock} (steady : clock.Nondecreasing) : (new clock).Refines .empty :=
  ⟨steady, OnyxEngine.new_accounted clock, rfl, fun _ => ⟨rfl, fun _ => rfl, rfl⟩,
    fun _ same => nomatch same⟩

omit [Platform] in
theorem isFlat_of_base {index : Fin numShards} {data : ShardData index} (none : data.base = none) :
    data.isFlat = true := by
  cases data with
  | flat data => rfl
  | snapshot base changes => cases none

theorem refines_call {epochs : Epochs} {flat : FlatEpochs} (refines : epochs.Refines flat) {α : Type}
    (operation : Operation α) :
    ∃ after, FlatEpochs.Step flat (.called operation (operation.run epochs.engine).1
        epochs.engine.clock.now (operation.run epochs.engine).2.clock.now) after ∧
      Refines { epochs with engine := (operation.run epochs.engine).2 } after := by
  obtain ⟨leads, readings, within, answers⟩ := OnyxEngine.refines refines.steady operation
  have handled := OnyxEngine.operation_handled refines.accounted operation
  obtain ⟨active, bases⟩ := handled.calls.shape
  rw [← refines.map] at answers
  refine ⟨{ flat with map := (operation.run epochs.engine).2.lookup }, .call readings within answers, ?_⟩
  refine ⟨leads.nondecreasing refines.steady, handled.accounted, rfl, ?_, ?_⟩
  · intro closed
    obtain ⟨inactive, plain, none⟩ := refines.closed closed
    exact ⟨active.trans inactive, fun index => (bases index).trans (plain index), none⟩
  · intro snapshot opened
    obtain ⟨on, shared, copied, yields⟩ := refines.opened snapshot opened
    exact ⟨active.trans on, fun index => (bases index).trans (shared index), copied, yields⟩

omit [Platform] in
theorem base_beginSnapshot {index : Fin numShards} (data : ShardData index) :
    data.beginSnapshot.2.base = some data.beginSnapshot.1 := by
  cases data <;> rfl

theorem refines_begin {epochs : Epochs} {flat : FlatEpochs} (refines : epochs.Refines flat)
    (inactive : epochs.engine.snapshotActive = false) :
    ∃ after, FlatEpochs.Step flat (.begun epochs.engine.clock.now) after ∧
      Refines ⟨epochs.engine.beginSnapshot.2, some ⟨epochs.engine.beginSnapshot.1, 0, []⟩⟩ after := by
  have idle : epochs.snapshot = none := by
    cases opened : epochs.snapshot with
    | none => rfl
    | some snapshot =>
        have active := (refines.opened snapshot opened).active
        rw [inactive] at active
        cases active
  obtain ⟨_, plain, closed⟩ := refines.closed idle
  have flatEngine : epochs.engine.isFlat = true := by
    rw [OnyxEngine.isFlat, inactive, Bool.not_false, Bool.true_and, List.all_eq_true]
    intro index _
    exact isFlat_of_base (plain index)
  refine ⟨{ flat with captured := some (flat.map, epochs.engine.clock.now) }, .begin closed _, ?_⟩
  refine ⟨epochs.engine.clock.leads_tick.nondecreasing refines.steady, ?_, ?_, ?_, ?_⟩
  · exact refines.accounted.reshaped (fun index => ShardData.get_beginSnapshot _) (fun _ => rfl)
      (fun _ => rfl) rfl
  · exact refines.map.trans epochs.engine.lookup_beginSnapshot.symm
  · intro none
    cases none
  · intro snapshot same
    cases same
    refine ⟨rfl, ?_, rfl, flat.map, epochs.engine.clock.now, rfl, ?_, ?_⟩
    · intro index
      rw [if_neg (Nat.not_lt_zero _)]
      exact base_beginSnapshot _
    · exact OnyxEngine.nodup_entries _
    · intro key entry
      rw [refines.map]
      exact OnyxEngine.mem_beginSnapshot_entries flatEngine key entry

omit [Platform] in
theorem base_finishSnapshot {index : Fin numShards} (data : ShardData index) :
    data.finishSnapshot.base = none := by
  cases data <;> rfl

omit [Platform] in
theorem lookup_finishSnapshotShard (engine : OnyxEngine) (index : Fin numShards) :
    (engine.finishSnapshotShard index).lookup = engine.lookup := by
  funext key
  unfold OnyxEngine.lookup
  rcases engine.finishSnapshotShard_shard index (shardForKey key) with same | folded
  · rw [same]
  · rw [folded]
    exact congrFun (ShardData.get_finishSnapshot _) _

/-- One turn of the loop in `into_entries`. -/
theorem refines_release {epochs : Epochs} {flat : FlatEpochs} (refines : epochs.Refines flat)
    {snapshot : StoreSnapshot} (opened : epochs.snapshot = some snapshot)
    (more : snapshot.released < numShards) :
    Refines ⟨epochs.engine.finishSnapshotShard ⟨snapshot.released, more⟩,
      some { snapshot with
        released := snapshot.released + 1
        copied := snapshot.copied ++ snapshot.view.shardEntries ⟨snapshot.released, more⟩ }⟩ flat := by
  obtain ⟨active, bases, copied, yields⟩ := refines.opened snapshot opened
  refine ⟨refines.steady, refines.accounted.finishSnapshotShard _, ?_, ?_, ?_⟩
  · exact refines.map.trans (lookup_finishSnapshotShard _ _).symm
  · intro none
    cases none
  · intro next same
    cases same
    refine ⟨active, ?_, ?_, yields⟩
    · intro index
      by_cases here : index = ⟨snapshot.released, more⟩
      · subst here
        rw [if_pos (Nat.lt_succ_self _)]
        simp only [OnyxEngine.finishSnapshotShard, Function.update_self]
        exact base_finishSnapshot _
      · have differ : index.val ≠ snapshot.released := fun equal => here (Fin.ext equal)
        simp only [OnyxEngine.finishSnapshotShard, Function.update_of_ne here]
        rw [bases]
        by_cases early : index.val < snapshot.released
        · rw [if_pos early, if_pos (Nat.lt_succ_of_lt early)]
        · rw [if_neg early, if_neg (by omega)]
    · have step : (List.finRange numShards).take (snapshot.released + 1) =
          (List.finRange numShards).take snapshot.released ++ [⟨snapshot.released, more⟩] := by
        rw [List.take_succ_eq_append_getElem (by rw [List.length_finRange]; exact more),
          List.getElem_finRange]
        rfl
      rw [step, List.flatMap_append, copied, List.flatMap_singleton]

/-- Ending the epoch, whatever number of shards has left it. -/
theorem refines_end {epochs : Epochs} {flat : FlatEpochs} (refines : epochs.Refines flat) :
    Refines ⟨epochs.engine.finishSnapshot, none⟩ { flat with captured := none } := by
  refine ⟨refines.steady, ?_, ?_, ?_, ?_⟩
  · exact refines.accounted.reshaped (fun index => ShardData.get_finishSnapshot _) (fun _ => rfl)
      (fun _ => rfl) rfl
  · exact refines.map.trans epochs.engine.lookup_finishSnapshot.symm
  · intro _
    exact ⟨rfl, fun index => base_finishSnapshot _, rfl⟩
  · intro snapshot same
    cases same

/-- Every step of the engine and its snapshots is a step of the flat map. -/
theorem refines_step {epochs after : Epochs} {flat : FlatEpochs} {label : Label}
    (refines : epochs.Refines flat) (step : Step epochs label after) :
    ∃ flatAfter, FlatEpochs.Step flat label flatAfter ∧ after.Refines flatAfter := by
  cases step with
  | call operation => exact refines_call refines operation
  | begin inactive => exact refines_begin refines inactive
  | list opened untouched =>
      exact ⟨flat, .list (refines.opened _ opened).yields, refines⟩
  | release opened more => exact ⟨flat, .release flat, refines_release refines opened more⟩
  | finish opened complete =>
      obtain ⟨_, _, copied, yields⟩ := refines.opened _ opened
      have whole : (List.finRange numShards).take numShards = List.finRange numShards :=
        List.take_of_length_le (by rw [List.length_finRange])
      rw [complete, whole] at copied
      refine ⟨{ flat with captured := none }, .finish ?_, refines_end refines⟩
      rw [copied]
      exact yields
  | drop opened => exact ⟨{ flat with captured := none }, .drop flat, refines_end refines⟩

theorem refines_steps {epochs after : Epochs} {flat : FlatEpochs} {labels : List Label}
    (refines : epochs.Refines flat) (steps : Steps epochs labels after) :
    ∃ flatAfter, FlatEpochs.Steps flat labels flatAfter ∧ after.Refines flatAfter := by
  induction steps generalizing flat with
  | done => exact ⟨flat, .done flat, refines⟩
  | step first _ rest =>
      obtain ⟨middle, flatStep, held⟩ := refines_step refines first
      obtain ⟨last, flatSteps, reached⟩ := rest held
      exact ⟨last, .step flatStep flatSteps, reached⟩

/-- Any run of operations with snapshots opened, copied shard by shard, completed or dropped between them
is a run of the flat map with the same results: the slots are those of the map at every point, an open
snapshot still shares the bases it has not copied, and once it is closed every shard is flat again. -/
theorem engine_refines_flatMap {clock : Clock} (steady : clock.Nondecreasing) {labels : List Label}
    {epochs : Epochs} (steps : Steps (new clock) labels epochs) :
    ∃ flat, FlatEpochs.Steps .empty labels flat ∧ epochs.engine.lookup = flat.map ∧
      (epochs.snapshot = none → epochs.engine.isFlat = true) ∧
      ∀ snapshot, epochs.snapshot = some snapshot → ∀ index : Fin numShards,
        snapshot.released ≤ index.val →
          (epochs.engine.shards index).data.base = some (snapshot.view.shards index) := by
  obtain ⟨flat, flatSteps, refines⟩ := refines_steps (new_refines steady) steps
  refine ⟨flat, flatSteps, refines.map.symm, ?_, ?_⟩
  · intro closed
    obtain ⟨inactive, plain, _⟩ := refines.closed closed
    rw [OnyxEngine.isFlat, inactive, Bool.not_false, Bool.true_and, List.all_eq_true]
    intro index _
    exact isFlat_of_base (plain index)
  · intro snapshot opened index later
    rw [(refines.opened snapshot opened).bases, if_neg (Nat.not_lt.mpr later)]

end Epochs

end OnyxDB.Store

namespace OnyxDB.Store
open OnyxDB.Engine OnyxDB.Engine.Value

/-- A key is set, captured and deleted while the snapshot is open, which is listed and then dropped. -/
theorem engine_refines_flatMap_dropped :
    letI := Reference.platform (fun _ => .error "unsupported")
    ∃ (labels : List Label) (epochs : Epochs), Epochs.Steps (.new (.constant 5)) labels epochs ∧
      labels.length = 5 ∧ ∃ flat, FlatEpochs.Steps .empty labels flat ∧
        epochs.engine.lookup = flat.map ∧ epochs.engine.isFlat = true := by
  let _ := Reference.platform (fun _ => .error "unsupported")
  have steady : (Clock.constant 5).Nondecreasing :=
    Clock.Fixed.nondecreasing (show (Clock.constant 5).Fixed 5 from fun _ => rfl)
  have inactive := (OnyxEngine.operation_handled (OnyxEngine.new_accounted (.constant 5))
    (.set [107] (.blob [1]) none)).calls.snapshotActive
  have steps : Epochs.Steps (.new (.constant 5)) _ _ :=
    .step (.call (.set [107] (.blob [1]) none)) (.step (.begin inactive)
      (.step (.call (.delete [107])) (.step (.list rfl rfl) (.step (.drop rfl) (.done _)))))
  obtain ⟨flat, flatSteps, slots, closed, _⟩ := Epochs.engine_refines_flatMap steady steps
  exact ⟨_, _, steps, rfl, flat, flatSteps, slots, closed rfl⟩

end OnyxDB.Store
