import OnyxDB.Engine.AccountingRuns
import OnyxDB.Engine.Confinement
import OnyxDB.Engine.EvictionSpec

/-! Counts of keys: those the engine holds, which its counter tells, and those that are alive. -/

namespace OnyxDB.Engine
open OnyxDB.Engine.Value

namespace OnyxEngine

/-- The keys the engine holds, expired or not. -/
def keys (engine : OnyxEngine) : List Bytes :=
  (List.finRange numShards).flatMap (fun index => (engine.shards index).data.visit.map (fun entry => entry.1.1))

theorem mem_keys (engine : OnyxEngine) (key : Bytes) : key ∈ engine.keys ↔ ∃ entry, engine.lookup key = some entry := by
  unfold keys
  simp only [List.mem_flatMap, List.mem_finRange, true_and, List.mem_map]
  constructor
  · rintro ⟨index, ⟨⟨held, here⟩, entry⟩, member, rfl⟩
    subst here
    exact ⟨entry, ((engine.shards _).data.mem_visit _ _).mp member⟩
  · rintro ⟨entry, present⟩
    exact ⟨shardForKey key, (⟨key, rfl⟩, entry), ((engine.shards _).data.mem_visit _ _).mpr present, rfl⟩

theorem nodup_keys (engine : OnyxEngine) : engine.keys.Nodup := by
  unfold keys
  rw [List.nodup_flatMap]
  constructor
  · intro index _
    have distinct := (engine.shards index).data.visit_nodup
    have injective : Function.Injective (Subtype.val : Key index → Bytes) := Subtype.val_injective
    have mapped := distinct.map injective
    rwa [List.map_map] at mapped
  · apply (List.nodup_finRange numShards).imp
    intro first second differ key early late
    obtain ⟨⟨⟨_, one⟩, _⟩, _, rfl⟩ := List.mem_map.mp early
    obtain ⟨⟨⟨_, other⟩, _⟩, _, same⟩ := List.mem_map.mp late
    simp only at same
    exact differ (one.symm.trans ((congrArg shardForKey same.symm).trans other))

/-- The keys that are alive at `time`. -/
def aliveKeys (engine : OnyxEngine) (time : Nat) : List Bytes :=
  engine.keys.filter (fun key => (engine.view time key).isSome)

theorem mem_aliveKeys (engine : OnyxEngine) (time : Nat) (key : Bytes) :
    key ∈ engine.aliveKeys time ↔ (engine.view time key).isSome := by
  unfold aliveKeys
  rw [List.mem_filter, mem_keys]
  constructor
  · exact fun listed => listed.2
  · intro alive
    refine ⟨?_, alive⟩
    cases held : engine.lookup key with
    | none =>
        rw [view, held] at alive
        cases alive
    | some entry => exact ⟨entry, rfl⟩

theorem nodup_aliveKeys (engine : OnyxEngine) (time : Nat) : (engine.aliveKeys time).Nodup :=
  engine.nodup_keys.filter _

/-- A list of live keys among others is no longer than they are. -/
theorem aliveKeys_length_le {engine : OnyxEngine} {time : Nat} {others : List Bytes}
    (within : ∀ key, (engine.view time key).isSome → key ∈ others) :
    (engine.aliveKeys time).length ≤ others.length := by
  apply List.Subperm.length_le
  apply List.subperm_of_subset (engine.nodup_aliveKeys time)
  exact fun key member => within key ((engine.mem_aliveKeys time key).mp member)

/-- A key is alive when its entry has not expired. -/
theorem view_isSome_iff (engine : OnyxEngine) (time : Nat) (key : Bytes) :
    (engine.view time key).isSome ↔ ∃ entry, engine.lookup key = some entry ∧ entry.expired time = false := by
  constructor
  · intro alive
    obtain ⟨shown, same⟩ := Option.isSome_iff_exists.mp alive
    obtain ⟨entry, present, _⟩ := Option.map_eq_some_iff.mp same
    exact ⟨entry, Library.Expiring.live_eq_some present⟩
  · rintro ⟨entry, held, live⟩
    rw [view, held]
    exact Option.isSome_iff_exists.mpr ⟨_, congrArg _ (fresh_live live le_rfl)⟩

theorem expired_earlier {entry : DataEntry} {early late : Nat} (order : early ≤ late)
    (live : entry.expired late = false) : entry.expired early = false :=
  (Library.Expiring.live_eq_some (fresh_live live order)).2

theorem view_earlier {engine : OnyxEngine} {early late : Nat} (order : early ≤ late) {key : Bytes}
    (alive : (engine.view late key).isSome) : (engine.view early key).isSome := by
  obtain ⟨entry, held, live⟩ := (engine.view_isSome_iff late key).mp alive
  exact (engine.view_isSome_iff early key).mpr ⟨entry, held, expired_earlier order live⟩

section Passes

/-- A pass over other shards leaves a shard as it is. -/
theorem runShards_other {α : Type} (operation : (index : Fin numShards) → Guard index → α × Guard index)
    (indices : List (Fin numShards)) (engine : OnyxEngine) {index : Fin numShards} (absent : index ∉ indices) :
    (runShards operation indices engine).2.shards index = engine.shards index := by
  induction indices generalizing engine with
  | nil => rfl
  | cons first indices rest =>
      rw [List.mem_cons, not_or] at absent
      rw [runShards, rest _ absent.2]
      exact Function.update_of_ne absent.1 _ _

/-- A pass that measures each shard as it leaves it has measured the shards it ends with. -/
theorem runShards_measures {α : Type} (operation : (index : Fin numShards) → Guard index → α × Guard index)
    (measure : (index : Fin numShards) → Shard index → α)
    (measures : ∀ index guard, (operation index guard).1 = measure index (operation index guard).2.shard)
    (indices : List (Fin numShards)) (distinct : indices.Nodup) (engine : OnyxEngine) :
    (runShards operation indices engine).1 =
      indices.map (fun index => measure index ((runShards operation indices engine).2.shards index)) := by
  induction indices generalizing engine with
  | nil => rfl
  | cons index indices rest =>
      obtain ⟨absent, distinct⟩ := List.nodup_cons.mp distinct
      let next := (engine.withShard index (operation index)).2
      have later := rest distinct next
      have kept := runShards_other operation indices next absent
      have here : next.shards index = (operation index (engine.guard index)).2.shard := Function.update_self _ _ _
      change (operation index (engine.guard index)).1 :: (runShards operation indices next).1 =
        measure index ((runShards operation indices next).2.shards index) ::
          indices.map (fun other => measure other ((runShards operation indices next).2.shards other))
      rw [later, kept, here, measures]

end Passes

variable [Platform]

section Counting

/-- What a pass that sweeps a shard leaves in it was alive when it came by. -/
theorem runShards_sweeps_alive {α : Type} (operation : (index : Fin numShards) → Guard index → α × Guard index)
    (sweeps : ∀ index guard, (operation index guard).2 = guard.expireKeys.2) (indices : List (Fin numShards))
    (engine : OnyxEngine) {key : Bytes} (within : shardForKey key ∈ indices) {entry : DataEntry}
    (held : (runShards operation indices engine).2.lookup key = some entry) :
    engine.lookup key = some entry ∧ ∃ reading,
      engine.clock.Shows (runShards operation indices engine).2.clock reading ∧ entry.expired reading = false := by
  induction indices generalizing engine with
  | nil => exact absurd within List.not_mem_nil
  | cons index indices rest =>
      let next := (engine.withShard index (operation index)).2
      have first : engine.Ages next := expireKeys_ages engine index _ (sweeps index)
      have later : next.Ages (runShards operation indices next).2 := runShards_ages operation sweeps indices next
      have between := (later.aged key List.not_mem_nil).held held
      refine ⟨(first.aged key List.not_mem_nil).held between, ?_⟩
      by_cases here : shardForKey key = index
      · refine ⟨engine.clock.now, (first.leads.trans later.leads).shows_now, ?_⟩
        rw [lookup_withShard, dif_pos here, sweeps, Guard.expireKeys_lookup] at between
        exact (Library.Expiring.live_eq_some between).2
      · have remains : shardForKey key ∈ indices := (List.mem_cons.mp within).resolve_left here
        obtain ⟨_, reading, shows, live⟩ := rest next remains held
        exact ⟨reading, first.leads.shows shows, live⟩

/-- Every key that a count leaves was alive when it began. -/
theorem stats_alive {engine : OnyxEngine} (steady : engine.clock.Nondecreasing) {key : Bytes}
    (member : key ∈ engine.stats.2.keys) : (engine.view engine.clock.now key).isSome := by
  obtain ⟨entry, held⟩ := (engine.stats.2.mem_keys key).mp member
  rw [stats_eq] at held
  obtain ⟨before, reading, shows, live⟩ := runShards_sweeps_alive (fun _ guard => shardCounts guard) (fun _ _ => rfl) _
    engine (List.mem_finRange _) held
  have order : engine.clock.now ≤ reading := shows.now_le steady
  exact (engine.view_isSome_iff _ key).mpr ⟨entry, before, expired_earlier order live⟩

theorem Accounted.length_keys {engine : OnyxEngine} (accounted : engine.Accounted) :
    engine.keys.length = engine.totalKeys := by
  rw [accounted.totalKeys, Fin.sum_univ_def, keys, List.length_flatMap]
  congr 1
  apply List.map_congr_left
  intro index _
  rw [List.length_map, accounted.keyCount]

/-- The number of keys a count tells is the number of keys that are held afterwards. -/
theorem stats_totalKeys {engine : OnyxEngine} (accounted : engine.Accounted) :
    engine.stats.1.totalKeys = engine.stats.2.keys.length := by
  have after : engine.stats.2.Accounted := (upkeep_handled accounted .stats).accounted
  rw [after.length_keys, after.totalKeys, Fin.sum_univ_def, stats_eq]
  have measured := runShards_measures (fun _ guard => shardCounts guard)
    (fun _ shard => (shard.keyCount, shard.opCount)) (fun _ _ => rfl) (List.finRange numShards)
    (List.nodup_finRange numShards) engine
  simp only [forShards]
  rw [measured, List.map_map]
  rfl

/-- A count tells no more keys than are alive when it begins. -/
theorem stats_le_alive {engine : OnyxEngine} (accounted : engine.Accounted) (steady : engine.clock.Nondecreasing) :
    engine.stats.1.totalKeys ≤ (engine.aliveKeys engine.clock.now).length := by
  rw [stats_totalKeys accounted]
  apply List.Subperm.length_le
  apply List.subperm_of_subset engine.stats.2.nodup_keys
  exact fun key member => (engine.mem_aliveKeys _ key).mpr (stats_alive steady member)

end Counting

end OnyxEngine

end OnyxDB.Engine
