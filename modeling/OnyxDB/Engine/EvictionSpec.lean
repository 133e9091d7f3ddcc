import Mathlib.Data.List.MinMax
import OnyxDB.Engine.FlatRefinement

/-! What eviction takes: a victim is the first of the least score among the entries that may be taken, each is taken
once, and nothing else is written. -/

namespace OnyxDB.Engine
open OnyxDB.Library OnyxDB.Engine.Value

section Selection
variable {α β : Type}

/-- Keeping the candidate with the lowest score in one pass picks the first one of the least score. -/
theorem foldl_scored (pick : α → β) (score : α → Nat) (candidates : List α) (start : Option α) :
    candidates.foldl (fun selected candidate =>
      match selected with
      | some (_, best) => if score candidate < best then some (pick candidate, score candidate) else selected
      | none => some (pick candidate, score candidate))
        (start.map fun candidate => (pick candidate, score candidate)) =
      (candidates.foldl (List.argAux fun late early => score late < score early) start).map
        (fun candidate => (pick candidate, score candidate)) := by
  induction candidates generalizing start with
  | nil => rfl
  | cons candidate candidates rest =>
      rw [List.foldl_cons, List.foldl_cons, ← rest]
      congr 1
      cases start with
      | none => rfl
      | some held =>
          simp only [Option.map_some, List.argAux]
          split <;> rfl

end Selection

namespace EvictionPolicy

/-- The policies that take the entry accessed least recently. -/
def ByRecency (policy : EvictionPolicy) : Prop := policy = .allKeysLru ∨ policy = .volatileLru

/-- The policies that only take entries with an expiry. -/
def OnlyVolatile (policy : EvictionPolicy) : Prop := policy = .volatileLru ∨ policy = .volatileRandom

def Random (policy : EvictionPolicy) : Prop := policy = .allKeysRandom ∨ policy = .volatileRandom

theorem ByRecency.not_random {policy : EvictionPolicy} (ordered : policy.ByRecency) : ¬ policy.Random := by
  rintro (rfl | rfl) <;> rcases ordered with other | other <;> cases other

end EvictionPolicy

namespace Shard
variable {index : Fin numShards}

/-- The entries of a shard that may be taken. -/
def candidates (shard : Shard index) (policy : EvictionPolicy) (protectedKeys : List Bytes) :
    List (Key index × DataEntry) :=
  shard.data.visit.filter (eligible policy protectedKeys)

theorem cheapRandomIndex_lt (nanos : Nat) {len : Nat} (positive : 0 < len) : cheapRandomIndex nanos len < len := by
  unfold cheapRandomIndex
  rw [if_neg (Nat.ne_of_gt positive)]
  exact Nat.mod_lt _ positive

theorem evictionCandidate_random (shard : Shard index) {policy : EvictionPolicy} (protectedKeys : List Bytes)
    (nanos : Nat) (random : policy.Random) :
    shard.evictionCandidate policy protectedKeys nanos =
      ((shard.candidates policy protectedKeys)[cheapRandomIndex nanos
        (shard.candidates policy protectedKeys).length]?).map (fun entry => (entry.1, 0)) :=
  if_pos random

theorem evictionCandidate_leastRecent (shard : Shard index) {policy : EvictionPolicy} (protectedKeys : List Bytes)
    (nanos : Nat) (ordered : ¬ policy.Random) :
    shard.evictionCandidate policy protectedKeys nanos =
      ((shard.candidates policy protectedKeys).argmin (fun entry => entry.2.lastAccessed)).map
        (fun entry => (entry.1, entry.2.lastAccessed)) := by
  refine (if_neg ordered).trans ?_
  refine Eq.trans ?_ (foldl_scored Prod.fst (fun entry => entry.2.lastAccessed)
    (shard.candidates policy protectedKeys) none)
  change List.foldl _ none (shard.candidates policy protectedKeys) = _
  congr 1
  funext selected entry
  cases selected <;> rfl

/-- A shard proposes nothing only when it has nothing to propose. -/
theorem evictionCandidate_none {shard : Shard index} {policy : EvictionPolicy} {protectedKeys : List Bytes}
    {nanos : Nat} (absent : shard.evictionCandidate policy protectedKeys nanos = none) :
    shard.candidates policy protectedKeys = [] := by
  by_cases random : policy.Random
  · rw [evictionCandidate_random shard protectedKeys nanos random, Option.map_eq_none_iff, List.getElem?_eq_none_iff] at absent
    by_contra listed
    have positive : 0 < (shard.candidates policy protectedKeys).length := List.length_pos_iff.mpr listed
    exact absurd (cheapRandomIndex_lt nanos positive) (Nat.not_lt.mpr absent)
  · rw [evictionCandidate_leastRecent shard protectedKeys nanos random, Option.map_eq_none_iff,
      List.argmin_eq_none] at absent
    exact absent

/-- What a shard proposes may be taken, and under the policies by recency it has the least access time. -/
theorem evictionCandidate_some {shard : Shard index} {policy : EvictionPolicy} {protectedKeys : List Bytes}
    {nanos : Nat} {key : Key index} {score : Nat}
    (proposed : shard.evictionCandidate policy protectedKeys nanos = some (key, score)) :
    ∃ entry, (key, entry) ∈ shard.candidates policy protectedKeys ∧
      (policy.ByRecency → score = entry.lastAccessed ∧
        ∀ other ∈ shard.candidates policy protectedKeys, score ≤ other.2.lastAccessed) := by
  by_cases random : policy.Random
  · rw [evictionCandidate_random shard protectedKeys nanos random] at proposed
    obtain ⟨entry, found, same⟩ := Option.map_eq_some_iff.mp proposed
    cases same
    exact ⟨entry.2, List.mem_of_getElem? found, fun ordered => absurd random ordered.not_random⟩
  · rw [evictionCandidate_leastRecent shard protectedKeys nanos random] at proposed
    obtain ⟨entry, found, same⟩ := Option.map_eq_some_iff.mp proposed
    cases same
    refine ⟨entry.2, List.argmin_mem found, fun _ => ⟨rfl, ?_⟩⟩
    intro other member
    exact @List.le_of_mem_argmin _ _ _ (fun entry : Key index × DataEntry => entry.2.lastAccessed) _ _ _ member found

end Shard

namespace OnyxEngine

/-- An entry that eviction may take. -/
structure Eligible (engine : OnyxEngine) (policy : EvictionPolicy) (protectedKeys : List Bytes) (key : Bytes)
    (entry : DataEntry) : Prop where
  held : engine.lookup key = some entry
  unprotected : key ∉ protectedKeys
  expires : policy.OnlyVolatile → entry.expiresAt.isSome

/-- The candidates of the shards are the entries that may be taken. -/
theorem mem_candidates (engine : OnyxEngine) (policy : EvictionPolicy) (protectedKeys : List Bytes)
    {index : Fin numShards} (key : Key index) (entry : DataEntry) :
    (key, entry) ∈ (engine.shards index).candidates policy protectedKeys ↔
      engine.Eligible policy protectedKeys key.1 entry := by
  obtain ⟨name, home⟩ := key
  have held : (⟨name, home⟩, entry) ∈ (engine.shards index).data.visit ↔ engine.lookup name = some entry := by
    rw [← engine.shard_get index name home]
    exact (engine.shards index).data.mem_visit _ _
  have allowed : Shard.eligible policy protectedKeys (⟨name, home⟩, entry) = true ↔
      name ∉ protectedKeys ∧ (policy.OnlyVolatile → entry.expiresAt.isSome = true) := by
    unfold Shard.eligible EvictionPolicy.OnlyVolatile
    rw [Bool.and_eq_true, decide_eq_true_eq, Bool.or_eq_true, Bool.not_eq_true', decide_eq_false_iff_not]
    exact and_congr_right fun _ => Decidable.imp_iff_not_or.symm
  unfold Shard.candidates
  rw [List.mem_filter, held, allowed]
  constructor
  · exact fun listed => ⟨listed.1, listed.2.1, listed.2.2⟩
  · exact fun eligible => ⟨eligible.held, eligible.unprotected, eligible.expires⟩

/-- The proposal of a shard, with the shard it comes from. -/
def proposal (engine : OnyxEngine) (policy : EvictionPolicy) (protectedKeys : List Bytes) (index : Fin numShards) :
    Option ((index : Fin numShards) × Key index × Nat) :=
  ((engine.shards index).evictionCandidate policy protectedKeys (engine.clock.nanos index.val)).map
    (fun proposed => ⟨index, proposed⟩)

/-- The best candidate is the first proposal of the least score. -/
theorem bestCandidate_eq (engine : OnyxEngine) (policy : EvictionPolicy) (protectedKeys : List Bytes) :
    engine.bestCandidate policy protectedKeys =
      ((List.finRange numShards).filterMap (engine.proposal policy protectedKeys)).argmin
        (fun proposed => proposed.2.2) := by
  unfold bestCandidate List.argmin
  rw [List.foldl_filterMap]
  congr 1
  funext best index
  unfold proposal
  cases (engine.shards index).evictionCandidate policy protectedKeys (engine.clock.nanos index.val) with
  | none => rfl
  | some proposed => cases best <;> rfl

/-- No candidate is found only when no entry may be taken. -/
theorem bestCandidate_none {engine : OnyxEngine} {policy : EvictionPolicy} {protectedKeys : List Bytes}
    (absent : engine.bestCandidate policy protectedKeys = none) (key : Bytes) (entry : DataEntry) :
    ¬ engine.Eligible policy protectedKeys key entry := by
  intro eligible
  rw [bestCandidate_eq, List.argmin_eq_none, List.filterMap_eq_nil_iff] at absent
  have silent := absent (shardForKey key) (List.mem_finRange _)
  unfold proposal at silent
  rw [Option.map_eq_none_iff] at silent
  have listed := (engine.mem_candidates policy protectedKeys ⟨key, rfl⟩ entry).mpr eligible
  rw [Shard.evictionCandidate_none silent] at listed
  exact List.not_mem_nil listed

/-- The entry a pass of the loop takes. -/
structure Victim (engine : OnyxEngine) (policy : EvictionPolicy) (protectedKeys : List Bytes) (key : Bytes)
    (entry : DataEntry) : Prop where
  eligible : engine.Eligible policy protectedKeys key entry
  least : policy.ByRecency → ∀ other held, engine.Eligible policy protectedKeys other held →
    entry.lastAccessed ≤ held.lastAccessed

theorem bestCandidate_victim {engine : OnyxEngine} {policy : EvictionPolicy} {protectedKeys : List Bytes}
    {chosen : (index : Fin numShards) × Key index × Nat}
    (selected : engine.bestCandidate policy protectedKeys = some chosen) :
    ∃ entry, engine.Victim policy protectedKeys chosen.2.1.1 entry := by
  rw [bestCandidate_eq] at selected
  obtain ⟨index, _, proposed⟩ := List.mem_filterMap.mp (List.argmin_mem selected)
  obtain ⟨⟨key, score⟩, candidate, rfl⟩ := Option.map_eq_some_iff.mp proposed
  obtain ⟨entry, member, scored⟩ := Shard.evictionCandidate_some candidate
  refine ⟨entry, (engine.mem_candidates policy protectedKeys key entry).mp member, ?_⟩
  intro ordered other held eligible
  obtain ⟨same, _⟩ := scored ordered
  have listed := (engine.mem_candidates policy protectedKeys ⟨other, rfl⟩ held).mpr eligible
  cases rival : engine.proposal policy protectedKeys (shardForKey other) with
  | none =>
      unfold proposal at rival
      rw [Option.map_eq_none_iff] at rival
      rw [Shard.evictionCandidate_none rival] at listed
      exact absurd listed List.not_mem_nil
  | some best =>
      have entered : best ∈ (List.finRange numShards).filterMap (engine.proposal policy protectedKeys) :=
        List.mem_filterMap.mpr ⟨_, List.mem_finRange _, rival⟩
      obtain ⟨⟨rivalKey, rivalScore⟩, rivalCandidate, rfl⟩ := Option.map_eq_some_iff.mp rival
      obtain ⟨_, _, rivalScored⟩ := Shard.evictionCandidate_some rivalCandidate
      calc entry.lastAccessed = score := same.symm
        _ ≤ rivalScore := List.le_of_mem_argmin entered selected
        _ ≤ held.lastAccessed := (rivalScored ordered).2 _ listed

/-- The victims of an eviction, and that nothing else was written. -/
structure Evicts (engine after : OnyxEngine) (protectedKeys : List Bytes) (victims : List (Bytes × DataEntry)) :
    Prop where
  touches : engine.Touches after (victims.map Prod.fst)
  unprotected : ∀ victim ∈ victims, victim.1 ∉ protectedKeys
  removed : ∀ victim ∈ victims, after.lookup victim.1 = none
  held : ∀ victim ∈ victims, engine.lookup victim.1 = some victim.2
  nodup : (victims.map Prod.fst).Nodup

theorem Evicts.none {engine after : OnyxEngine} (protectedKeys : List Bytes) (ages : engine.Ages after) :
    engine.Evicts after protectedKeys [] :=
  ⟨ages, nofun, nofun, nofun, List.nodup_nil⟩

/-- What a slot held before it was at most purged. -/
theorem Aged.held {engine after : OnyxEngine} {key : Bytes} (aged : engine.Aged after key) {entry : DataEntry}
    (present : after.lookup key = some entry) : engine.lookup key = some entry := by
  rcases aged with same | ⟨reading, _, purged⟩
  · rw [← same, present]
  · rw [purged] at present
    exact (Expiring.live_eq_some present).1

theorem Aged.absent {engine after : OnyxEngine} {key : Bytes} (aged : engine.Aged after key)
    (missing : engine.lookup key = Option.none) : after.lookup key = Option.none := by
  rcases aged with same | ⟨reading, _, purged⟩
  · rw [same, missing]
  · rw [purged, missing]
    rfl

theorem Evicts.after_ages {engine middle after : OnyxEngine} {protectedKeys : List Bytes}
    {victims : List (Bytes × DataEntry)} (ages : engine.Ages middle)
    (evicts : middle.Evicts after protectedKeys victims) : engine.Evicts after protectedKeys victims where
  touches := (ages.mono (List.nil_subset _)).trans evicts.touches
  unprotected := evicts.unprotected
  removed := evicts.removed
  held := fun victim member => (ages.aged victim.1 List.not_mem_nil).held (evicts.held victim member)
  nodup := evicts.nodup

/-- One more victim in front. -/
theorem Evicts.cons {engine middle after : OnyxEngine} {protectedKeys : List Bytes} {key : Bytes}
    {entry : DataEntry} {victims : List (Bytes × DataEntry)} (sets : engine.Sets middle key Option.none)
    (held : engine.lookup key = some entry) (unprotected : key ∉ protectedKeys)
    (evicts : middle.Evicts after protectedKeys victims) :
    engine.Evicts after protectedKeys ((key, entry) :: victims) := by
  have gone : middle.lookup key = Option.none := sets.slot
  have fresh : key ∉ victims.map Prod.fst := by
    intro member
    obtain ⟨victim, listed, rfl⟩ := List.mem_map.mp member
    have present := evicts.held victim listed
    rw [gone] at present
    cases present
  refine ⟨?_, ?_, ?_, ?_, ?_⟩
  · exact (sets.touches.mono (by simp)).trans (evicts.touches.mono (by simp))
  · intro victim member
    rcases List.mem_cons.mp member with rfl | later
    · exact unprotected
    · exact evicts.unprotected victim later
  · intro victim member
    rcases List.mem_cons.mp member with rfl | later
    · exact (evicts.touches.aged key fresh).absent gone
    · exact evicts.removed victim later
  · intro victim member
    rcases List.mem_cons.mp member with rfl | later
    · exact held
    · have differ : victim.1 ≠ key := by
        intro same
        exact fresh (same ▸ List.mem_map_of_mem later)
      rw [← sets.other differ]
      exact evicts.held victim later
  · rw [List.map_cons, List.nodup_cons]
    exact ⟨fresh, evicts.nodup⟩

variable [Platform]

/-- Removing a chosen entry. -/
theorem removeChosen_sets (engine : OnyxEngine) {index : Fin numShards} (key : Key index) :
    engine.Sets (engine.withShard index (fun guard => guard.remove key)).2 key.1 none ∧
      (engine.withShard index (fun guard => guard.remove key)).1 =
        fresh engine.clock.now (engine.lookup key.1) := by
  obtain ⟨name, rfl⟩ := key
  exact engine.remove_sets name

theorem evictLoop_evicts (maxmemoryBytes : Nat) (policy : EvictionPolicy) (protectedKeys : List Bytes)
    (fuel : Nat) (engine : OnyxEngine) (evicted : List (Bytes × DataEntry)) :
    ∃ victims, (evictLoop maxmemoryBytes policy protectedKeys fuel engine evicted).1 = evicted ++ victims ∧
      engine.Evicts (evictLoop maxmemoryBytes policy protectedKeys fuel engine evicted).2 protectedKeys
        victims := by
  induction fuel generalizing engine evicted with
  | zero => exact ⟨[], (List.append_nil _).symm, .none _ (Touches.refl _ _)⟩
  | succ fuel rest =>
      have swept := engine.totalMemoryBytes_ages
      unfold evictLoop
      cases measured : engine.totalMemoryBytes with
      | mk used next =>
          rw [measured] at swept
          simp only
          split
          · exact ⟨[], (List.append_nil _).symm, .none _ swept⟩
          · cases chosen : next.bestCandidate policy protectedKeys with
            | none => exact ⟨[], (List.append_nil _).symm, .none _ swept⟩
            | some victim =>
                obtain ⟨index, key, score⟩ := victim
                obtain ⟨_, victim⟩ := bestCandidate_victim chosen
                let drawn : OnyxEngine := { next with clock := { next.clock with
                  nanos := fun later => next.clock.nanos (later + numShards) } }
                have same : next.Ages drawn := ⟨⟨0, rfl⟩, fun _ _ => Or.inl rfl⟩
                obtain ⟨sets, result⟩ := drawn.removeChosen_sets key
                simp only
                cases removed : drawn.withShard index (fun guard => guard.remove key) with
                | mk entry after =>
                    rw [removed] at sets result
                    simp only at sets result
                    cases entry with
                    | none =>
                        rw [result] at sets
                        have purged : drawn.Ages after := sets.ages sets.leads.shows_now
                        obtain ⟨victims, listed, evicts⟩ := rest after evicted
                        exact ⟨victims, listed, .after_ages (swept.trans (same.trans purged)) evicts⟩
                    | some entry =>
                        have held : drawn.lookup key.1 = some entry := (Expiring.live_eq_some result.symm).1
                        obtain ⟨victims, listed, evicts⟩ := rest after (evicted ++ [(key.1, entry)])
                        refine ⟨(key.1, entry) :: victims, ?_, ?_⟩
                        · rw [listed, List.append_assoc, List.singleton_append]
                        · exact .after_ages (swept.trans same) (.cons sets held victim.eligible.unprotected evicts)

/-- Eviction takes what its victims held and writes nothing else. -/
theorem evictToFit_evicts (engine : OnyxEngine) (maxmemoryBytes : Nat) (policy : EvictionPolicy)
    (protectedKeys : List Bytes) :
    engine.Evicts (engine.evictToFit maxmemoryBytes policy protectedKeys).2 protectedKeys
      (engine.evictToFit maxmemoryBytes policy protectedKeys).1 := by
  unfold evictToFit
  split
  · exact .none _ (Touches.refl _ _)
  · obtain ⟨victims, listed, evicts⟩ :=
      evictLoop_evicts maxmemoryBytes policy protectedKeys (engine.physicalEntries + 1) engine []
    rw [listed, List.nil_append]
    exact evicts

end OnyxEngine

end OnyxDB.Engine
