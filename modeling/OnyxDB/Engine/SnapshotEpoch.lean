import OnyxDB.Engine.DatasetSpec

/-! Snapshot epochs: the base of every shard is frozen at one instant, live writes are kept apart from
it, and they are folded back once the entries of the base have been copied. -/

namespace OnyxDB.Engine
open OnyxDB.Library OnyxDB.Engine.Value

namespace ShardData
variable {index : Fin numShards}

def isFlat : ShardData index → Bool
  | .flat _ => true
  | .snapshot _ _ => false

/-- The frozen base and the data after it. A second epoch on top of the first is refused above. -/
def beginSnapshot : ShardData index → AList (fun _ : Key index => DataEntry) × ShardData index
  | .flat data => (data, .snapshot data ∅)
  | .snapshot base changes => (base, .snapshot base changes)

def foldChange (data : AList (fun _ : Key index => DataEntry))
    (change : Sigma fun _ : Key index => Option DataEntry) : AList (fun _ : Key index => DataEntry) :=
  match change.2 with
  | some entry => data.insert change.1 entry
  | none => data.erase change.1

def finishSnapshot : ShardData index → ShardData index
  | .flat data => .flat data
  | .snapshot base changes => .flat (changes.entries.foldl foldChange base)

theorem lookup_foldChange (data : AList (fun _ : Key index => DataEntry))
    (change : Sigma fun _ : Key index => Option DataEntry) :
    (foldChange data change).lookup = Function.update data.lookup change.1 change.2 := by
  funext key
  unfold foldChange
  by_cases same : key = change.1
  · subst same
    cases held : change.2 with
    | none => simp
    | some entry => simp
  · rw [Function.update_of_ne same]
    cases change.2 with
    | none => simp [same, AList.lookup_erase_ne]
    | some entry => simp [same, AList.lookup_insert_ne]

theorem lookup_foldl_foldChange (changes : List (Sigma fun _ : Key index => Option DataEntry))
    (data : AList (fun _ : Key index => DataEntry)) :
    (changes.foldl foldChange data).lookup =
      Expiring.replay data.lookup (changes.map (fun change => (change.1, change.2))) := by
  induction changes generalizing data with
  | nil => rfl
  | cons change changes rest =>
      rw [List.foldl_cons, rest, List.map_cons, Expiring.replay_cons, lookup_foldChange]

theorem get_beginSnapshot (data : ShardData index) : data.beginSnapshot.2.get = data.get := by
  funext key
  cases data with
  | flat data => simp [beginSnapshot, get]
  | snapshot base changes => rfl

/-- Folding the changes back leaves every slot as it was. -/
theorem get_finishSnapshot (data : ShardData index) : data.finishSnapshot.get = data.get := by
  funext key
  cases data with
  | flat data => rfl
  | snapshot base changes =>
      have distinct : ((changes.entries.map (fun change => (change.1, change.2))).map Prod.fst).Nodup := by
        rw [List.map_map]
        exact changes.nodupKeys
      have folded := congrFun (lookup_foldl_foldChange changes.entries base) key
      simp only [finishSnapshot, get]
      refine folded.trans ?_
      cases changed : changes.lookup key with
      | some change =>
          apply Expiring.replay_of_nodup _ _ distinct
          exact List.mem_map.mpr ⟨⟨key, change⟩, AList.mem_lookup_iff.mp changed, rfl⟩
      | none =>
          apply Expiring.replay_other
          rw [List.map_map]
          exact AList.lookup_eq_none.mp changed

end ShardData

/-- The frozen shards and the time of the capture. -/
structure EngineSnapshot where
  shards : (index : Fin numShards) → AList (fun _ : Key index => DataEntry)
  capturedAt : Nat

/-- The entries of one frozen shard that had not expired at the capture. -/
def EngineSnapshot.shardEntries (snapshot : EngineSnapshot) (index : Fin numShards) :
    List (Bytes × DataEntry) :=
  ((snapshot.shards index).entries.filter (fun entry => !entry.2.expired snapshot.capturedAt)).map
    (fun entry => (entry.1.val, entry.2))

/-- `StoreSnapshot::into_entries`, shard after shard. -/
def EngineSnapshot.entries (snapshot : EngineSnapshot) : List (Bytes × DataEntry) :=
  (List.finRange numShards).flatMap snapshot.shardEntries

namespace OnyxEngine

/-- No epoch is active; the source panics otherwise. -/
def isFlat (engine : OnyxEngine) : Bool :=
  !engine.snapshotActive && (List.finRange numShards).all (fun index => (engine.shards index).data.isFlat)

def beginSnapshot (engine : OnyxEngine) : EngineSnapshot × OnyxEngine :=
  let (capturedAt, engine) := engine.unixSeconds
  (⟨fun index => (engine.shards index).data.beginSnapshot.1, capturedAt⟩,
    { engine with
      snapshotActive := true
      shards := fun index =>
        { engine.shards index with data := (engine.shards index).data.beginSnapshot.2 } })

/-- Folds the changes of one shard back, which leaves the epoch. -/
def finishSnapshotShard (engine : OnyxEngine) (index : Fin numShards) : OnyxEngine :=
  { engine with
    shards := Function.update engine.shards index
      { engine.shards index with data := (engine.shards index).data.finishSnapshot } }

/-- Ends the epoch; shards that have left it already are flat and stay as they are. -/
def finishSnapshot (engine : OnyxEngine) : OnyxEngine :=
  { engine with
    snapshotActive := false
    shards := fun index =>
      { engine.shards index with data := (engine.shards index).data.finishSnapshot } }

theorem lookup_beginSnapshot (engine : OnyxEngine) : engine.beginSnapshot.2.lookup = engine.lookup := by
  funext key
  exact congrFun (ShardData.get_beginSnapshot _) _

theorem lookup_finishSnapshot (engine : OnyxEngine) : engine.finishSnapshot.lookup = engine.lookup := by
  funext key
  exact congrFun (ShardData.get_finishSnapshot _) _

theorem beginSnapshot_capturedAt (engine : OnyxEngine) :
    engine.beginSnapshot.1.capturedAt = engine.clock.now := rfl

/-- The captured entries are the slots that have not expired, each once. -/
theorem mem_beginSnapshot_entries {engine : OnyxEngine} (flat : engine.isFlat = true) (key : Bytes)
    (entry : DataEntry) :
    (key, entry) ∈ engine.beginSnapshot.1.entries ↔ fresh engine.clock.now (engine.lookup key) = some entry := by
  have shape (index : Fin numShards) : ∃ data, (engine.shards index).data = .flat data := by
    have all := (Bool.and_eq_true _ _ ▸ flat).2
    rw [List.all_eq_true] at all
    have here := all index (List.mem_finRange index)
    cases held : (engine.shards index).data with
    | flat data => exact ⟨data, rfl⟩
    | snapshot base changes => simp [held, ShardData.isFlat] at here
  have slot (index : Fin numShards) (name : Key index) (value : DataEntry) :
      (⟨name, value⟩ : Sigma fun _ : Key index => DataEntry) ∈
        (engine.beginSnapshot.1.shards index).entries ↔
          (engine.shards index).data.get name = some value := by
    obtain ⟨data, held⟩ := shape index
    show _ ∈ (engine.shards index).data.beginSnapshot.1.entries ↔ _
    rw [held]
    exact AList.mem_lookup_iff.symm
  have live : fresh engine.clock.now (engine.lookup key) = some entry ↔
      engine.lookup key = some entry ∧ entry.expired engine.clock.now = false := by
    constructor
    · intro found
      exact Expiring.live_eq_some found
    · rintro ⟨found, current⟩
      rw [found, fresh_some, current]
      rfl
  rw [live, EngineSnapshot.entries, List.mem_flatMap]
  constructor
  · rintro ⟨index, _, member⟩
    obtain ⟨⟨name, value⟩, kept, same⟩ := List.mem_map.mp member
    obtain ⟨present, current⟩ := List.mem_filter.mp kept
    cases same
    obtain ⟨bytes, rfl⟩ := name
    exact ⟨(slot _ _ _).mp present, by simpa [beginSnapshot_capturedAt] using current⟩
  · rintro ⟨found, current⟩
    refine ⟨shardForKey key, List.mem_finRange _, List.mem_map.mpr ⟨⟨⟨key, rfl⟩, entry⟩, ?_, rfl⟩⟩
    refine List.mem_filter.mpr ⟨(slot _ _ _).mpr found, ?_⟩
    simpa [beginSnapshot_capturedAt] using current

theorem nodup_entries (snapshot : EngineSnapshot) : (snapshot.entries.map Prod.fst).Nodup := by
  rw [EngineSnapshot.entries, List.map_flatMap, List.nodup_flatMap]
  constructor
  · intro index _
    rw [EngineSnapshot.shardEntries, List.map_map]
    have keys : (((snapshot.shards index).entries.filter
        (fun entry => !entry.2.expired snapshot.capturedAt)).map Sigma.fst).Nodup :=
      (snapshot.shards index).nodupKeys.sublist List.filter_sublist
    have apart := keys.map Subtype.val_injective
    rw [List.map_map] at apart
    exact apart
  · refine (List.nodup_finRange numShards).imp ?_
    intro first second differ key early late
    obtain ⟨entry, member, rfl⟩ := List.mem_map.mp early
    obtain ⟨other, present, same⟩ := List.mem_map.mp late
    obtain ⟨slot, _, rfl⟩ := List.mem_map.mp member
    obtain ⟨found, _, rfl⟩ := List.mem_map.mp present
    apply differ
    rw [← slot.1.property, ← found.1.property]
    exact congrArg shardForKey same.symm

end OnyxEngine

end OnyxDB.Engine
