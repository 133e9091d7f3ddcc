import OnyxDB.Engine.EngineSpec

/-! Operations on the whole dataset: listing it, replacing it and sweeping it. -/

namespace OnyxDB.Engine.OnyxEngine
open OnyxDB.Library OnyxDB.Engine OnyxDB.Engine.Value

/-- A pass over shards other than that of `key` leaves its slot alone. -/
theorem lookup_runShards_other {α : Type}
    (operation : (index : Fin numShards) → Guard index → α × Guard index)
    (indices : List (Fin numShards)) (engine : OnyxEngine) (key : Bytes)
    (elsewhere : shardForKey key ∉ indices) :
    (runShards operation indices engine).2.lookup key = engine.lookup key := by
  induction indices generalizing engine with
  | nil => rfl
  | cons index indices rest =>
      simp only [List.mem_cons, not_or] at elsewhere
      rw [runShards, rest _ elsewhere.2, lookup_withShard, dif_neg elsewhere.1]

/-- What a pass over the shards collects when it lists the entries each shard is left with. -/
theorem mem_runShards_visit
    (operation : (index : Fin numShards) → Guard index → List (Bytes × DataEntry) × Guard index)
    (lists : ∀ index guard, (operation index guard).1 =
      (operation index guard).2.shard.data.visit.map (fun entry => (entry.1.1, entry.2)))
    (indices : List (Fin numShards)) (distinct : indices.Nodup) (engine : OnyxEngine) (key : Bytes)
    (entry : DataEntry) :
    (key, entry) ∈ (runShards operation indices engine).1.flatten ↔
      shardForKey key ∈ indices ∧ (runShards operation indices engine).2.lookup key = some entry := by
  induction indices generalizing engine with
  | nil => simp [runShards]
  | cons index indices rest =>
      obtain ⟨fresh, distinct⟩ := List.nodup_cons.mp distinct
      rw [runShards, List.flatten_cons, List.mem_append, rest distinct]
      have here : (key, entry) ∈ (engine.withShard index (operation index)).1 ↔
          shardForKey key = index ∧
            (engine.withShard index (operation index)).2.lookup key = some entry := by
        rw [lookup_withShard]
        simp only [withShard, lists, List.mem_map]
        constructor
        · rintro ⟨⟨⟨other, home⟩, held⟩, member, same⟩
          cases same
          rw [dif_pos home]
          exact ⟨home, (ShardData.mem_visit _ _ _).mp member⟩
        · rintro ⟨home, found⟩
          rw [dif_pos home] at found
          exact ⟨(⟨key, home⟩, entry), (ShardData.mem_visit _ _ _).mpr found, rfl⟩
      rw [here]
      constructor
      · rintro (⟨home, found⟩ | ⟨member, found⟩)
        · refine ⟨by simp [home], ?_⟩
          rw [lookup_runShards_other _ _ _ _ (home ▸ fresh)]
          exact found
        · exact ⟨List.mem_cons_of_mem _ member, found⟩
      · rintro ⟨member, found⟩
        by_cases home : shardForKey key = index
        · left
          rw [lookup_runShards_other _ _ _ _ (home ▸ fresh)] at found
          exact ⟨home, found⟩
        · exact Or.inr ⟨(List.mem_cons.mp member).resolve_left home, found⟩

theorem nodup_runShards_visit
    (operation : (index : Fin numShards) → Guard index → List (Bytes × DataEntry) × Guard index)
    (lists : ∀ index guard, (operation index guard).1 =
      (operation index guard).2.shard.data.visit.map (fun entry => (entry.1.1, entry.2)))
    (indices : List (Fin numShards)) (distinct : indices.Nodup) (engine : OnyxEngine) :
    ((runShards operation indices engine).1.flatten.map Prod.fst).Nodup := by
  induction indices generalizing engine with
  | nil => simp [runShards]
  | cons index indices rest =>
      obtain ⟨fresh, distinct⟩ := List.nodup_cons.mp distinct
      rw [runShards, List.flatten_cons, List.map_append, List.nodup_append]
      have keys : (engine.withShard index (operation index)).1.map Prod.fst =
          ((operation index ⟨engine.shards index, engine.totalKeys, engine.clock⟩).2.shard.data.visit.map
            Prod.fst).map Subtype.val := by
        simp only [withShard, lists, List.map_map]
        rfl
      refine ⟨?_, rest distinct _, ?_⟩
      · rw [keys]
        exact (ShardData.visit_nodup _).map Subtype.val_injective
      · intro first early second late same
        subst same
        rw [keys] at early
        obtain ⟨⟨_, home⟩, _, rfl⟩ := List.mem_map.mp early
        obtain ⟨⟨_, entry⟩, member, rfl⟩ := List.mem_map.mp late
        have elsewhere := ((mem_runShards_visit operation lists indices distinct _ _ _).mp member).1
        exact fresh (home ▸ elsewhere)


theorem clearShards_lookup (indices : List (Fin numShards)) (engine : OnyxEngine) :
    engine.clock.Leads (runShards (fun _ guard => clearShard guard) indices engine).2.clock ∧
      ∀ key, shardForKey key ∈ indices →
        (runShards (fun _ guard => clearShard guard) indices engine).2.lookup key = none := by
  induction indices generalizing engine with
  | nil => exact ⟨Clock.Leads.refl _, by simp⟩
  | cons index indices rest =>
      obtain ⟨leads, cleared⟩ := rest (engine.withShard index (fun guard => clearShard guard)).2
      refine ⟨Clock.Leads.trans engine.clock.leads_tick leads, ?_⟩
      intro key member
      by_cases later : shardForKey key ∈ indices
      · exact cleared key later
      · have home : shardForKey key = index := (List.mem_cons.mp member).resolve_right later
        rw [runShards, lookup_runShards_other _ _ _ _ later, lookup_withShard, dif_pos home]
        rfl

/-- The engine once `replace_all` has emptied its shards. -/
def cleared (engine : OnyxEngine) : OnyxEngine :=
  { (engine.forShards (fun _ guard => clearShard guard)).2 with totalKeys := 0 }

variable [Platform]

omit [Platform] in
theorem cleared_lookup (engine : OnyxEngine) :
    engine.clock.Leads engine.cleared.clock ∧ engine.cleared.lookup = fun _ => none := by
  obtain ⟨leads, emptied⟩ := clearShards_lookup (List.finRange numShards) engine
  unfold cleared forShards
  generalize runShards (fun _ guard => clearShard guard) (List.finRange numShards) engine = swept
    at leads emptied
  refine ⟨leads, ?_⟩
  funext key
  exact emptied key (List.mem_finRange (shardForKey key))

theorem replaceAll_eq (engine : OnyxEngine) (entries : List (Bytes × DataEntry)) :
    engine.replaceAll entries = engine.cleared.insertAll entries := by
  unfold replaceAll cleared
  generalize engine.forShards (fun _ guard => clearShard guard) = swept
  cases swept
  rfl

/-- The listed entries are the slots the sweep has left, each once. -/
theorem mem_snapshotAll (engine : OnyxEngine) (key : Bytes) (entry : DataEntry) :
    (key, entry) ∈ engine.snapshotAll.1 ↔ engine.snapshotAll.2.lookup key = some entry := by
  have collected := mem_runShards_visit (fun _ guard => liveEntries guard) (fun _ _ => rfl)
    (List.finRange numShards) (List.nodup_finRange _) engine key entry
  simp only [List.mem_finRange, true_and] at collected
  exact collected

theorem nodup_snapshotAll (engine : OnyxEngine) : (engine.snapshotAll.1.map Prod.fst).Nodup :=
  nodup_runShards_visit (fun _ guard => liveEntries guard) (fun _ _ => rfl)
    (List.finRange numShards) (List.nodup_finRange _) engine

theorem insertAll_lookup (entries : List (Bytes × DataEntry)) (engine : OnyxEngine) :
    engine.clock.Leads (engine.insertAll entries).clock ∧
      (engine.insertAll entries).lookup =
        Expiring.replay engine.lookup (entries.map (fun entry => (entry.1, some entry.2))) := by
  induction entries generalizing engine with
  | nil => exact ⟨Clock.Leads.refl _, rfl⟩
  | cons entry entries rest =>
      have sets : engine.Sets
          (engine.withKey entry.1 (fun _ key guard => guard.insert key entry.2)).2 entry.1
          (some entry.2) := by
        apply withKey_sets
        intro guard _ _
        exact guard.insert_sets ⟨entry.1, rfl⟩ entry.2
      obtain ⟨leads, slots⟩ := rest (engine.withKey entry.1 (fun _ key guard => guard.insert key entry.2)).2
      refine ⟨sets.leads.trans leads, ?_⟩
      rw [List.map_cons, Expiring.replay_cons, ← sets.lookup]
      exact slots

/-- After a replacement the slots are those of the entries, the last one of a key counting. -/
theorem replaceAll_lookup (engine : OnyxEngine) (entries : List (Bytes × DataEntry)) :
    engine.clock.Leads (engine.replaceAll entries).clock ∧
      (engine.replaceAll entries).lookup =
        Expiring.replay (fun _ => none) (entries.map (fun entry => (entry.1, some entry.2))) := by
  obtain ⟨leads, empty⟩ := engine.cleared_lookup
  obtain ⟨more, slots⟩ := insertAll_lookup entries engine.cleared
  rw [replaceAll_eq]
  refine ⟨leads.trans more, ?_⟩
  rw [← empty]
  exact slots

/-- Replacing the dataset by the entries of another engine copies its slots. -/
theorem replaceAll_snapshotAll (engine other : OnyxEngine) :
    (engine.replaceAll other.snapshotAll.1).lookup = other.snapshotAll.2.lookup := by
  rw [(engine.replaceAll_lookup _).2]
  have copied := Expiring.replay_listing other.nodup_snapshotAll other.mem_snapshotAll id
  simp only [id_eq, Option.map_id_fun] at copied
  exact copied

end OnyxDB.Engine.OnyxEngine
