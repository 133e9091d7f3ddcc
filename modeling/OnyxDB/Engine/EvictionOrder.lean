import OnyxDB.Engine.KeyCount

/-! The order of eviction: a pass of the loop takes the victim the policy asks for, every pass makes progress, and
the loop ends when the memory fits or nothing is left to take. -/

namespace OnyxDB.Engine
open OnyxDB.Library OnyxDB.Engine.Value

namespace OnyxEngine

section Measuring
variable [Platform]

/-- No entry has expired at `time`. -/
def Swept (engine : OnyxEngine) (time : Nat) : Prop :=
  ∀ key entry, engine.lookup key = some entry → entry.expired time = false

/-- At a fixed clock, measuring the memory keeps the live entries and no others. -/
theorem totalMemoryBytes_swept {engine : OnyxEngine} {time : Nat} (fixed : engine.clock.Fixed time) :
    engine.totalMemoryBytes.2.Swept time := by
  intro key entry held
  rw [totalMemoryBytes_eq] at held
  obtain ⟨_, reading, ⟨index, _, _, shown, _⟩, live⟩ := runShards_sweeps_alive
    (fun _ guard => (guard.expireKeys.2.shard.memBytes, guard.expireKeys.2)) (fun _ _ => rfl) _ engine
    (List.mem_finRange _) held
  rw [shown, fixed index] at live
  exact live

/-- The memory measured is what the shards account for afterwards. -/
theorem totalMemoryBytes_sum (engine : OnyxEngine) :
    engine.totalMemoryBytes.1 =
      ((List.finRange numShards).map (fun index => (engine.totalMemoryBytes.2.shards index).memBytes)).sum := by
  rw [totalMemoryBytes_eq]
  have measured := runShards_measures (fun _ guard => (guard.expireKeys.2.shard.memBytes, guard.expireKeys.2))
    (fun _ shard => shard.memBytes) (fun _ _ => rfl) (List.finRange numShards) (List.nodup_finRange numShards) engine
  simp only [forShards]
  rw [measured]

theorem expireKeys_settled {index : Fin numShards} (guard : Guard index)
    (live : ∀ key entry, guard.lookup key = some entry → entry.expired guard.clock.now = false) :
    guard.expireKeys.2 = { guard with clock := guard.clock.tick } := by
  have none : guard.shard.data.visit.filter (fun entry => entry.2.expired guard.clock.now) = [] := by
    rw [List.filter_eq_nil_iff]
    intro entry visited
    rw [live entry.1 entry.2 ((guard.shard.data.mem_visit _ _).mp visited)]
    exact Bool.false_ne_true
  unfold Guard.expireKeys Guard.unixSeconds
  simp only [none, List.map_nil, Guard.removeAll]

/-- Passes that only sweep leave the shards of a swept engine as they are. -/
theorem runShards_settled {α : Type} (operation : (index : Fin numShards) → Guard index → α × Guard index)
    (sweeps : ∀ index guard, (operation index guard).2 = guard.expireKeys.2) (indices : List (Fin numShards))
    {engine : OnyxEngine} {time : Nat} (fixed : engine.clock.Fixed time) (swept : engine.Swept time) :
    (runShards operation indices engine).2.shards = engine.shards := by
  induction indices generalizing engine with
  | nil => rfl
  | cons index indices rest =>
      have live : ∀ key entry, (engine.guard index).lookup key = some entry →
          entry.expired (engine.guard index).clock.now = false := by
        rintro ⟨key, home⟩ entry held
        have shown : engine.clock.now = time := fixed.now
        change entry.expired engine.clock.now = false
        rw [shown]
        apply swept key entry
        rw [← engine.shard_get index key home]
        exact held
      have kept : (operation index (engine.guard index)).2 = { engine.guard index with clock := engine.clock.tick } :=
        (sweeps index _).trans (expireKeys_settled _ live)
      have same : (engine.withShard index (operation index)).2.shards = engine.shards := by
        change Function.update engine.shards index (operation index (engine.guard index)).2.shard = engine.shards
        rw [kept]
        exact Function.update_eq_self index engine.shards
      have ticked : (engine.withShard index (operation index)).2.clock = engine.clock.tick := by
        change (operation index (engine.guard index)).2.clock = engine.clock.tick
        rw [kept]
      have looked : (engine.withShard index (operation index)).2.lookup = engine.lookup := by
        funext key
        unfold lookup
        rw [same]
      have later : (engine.withShard index (operation index)).2.clock.Fixed time := by
        rw [ticked]
        exact engine.clock.leads_tick.fixed fixed
      have still : (engine.withShard index (operation index)).2.Swept time := by
        intro key entry held
        rw [looked] at held
        exact swept key entry held
      exact (rest later still).trans same

/-- Measuring a second time gives the same memory. -/
theorem totalMemoryBytes_again {engine : OnyxEngine} {time : Nat} (fixed : engine.clock.Fixed time) :
    engine.totalMemoryBytes.2.totalMemoryBytes.1 = engine.totalMemoryBytes.1 := by
  have later := engine.totalMemoryBytes_ages.leads.fixed fixed
  have swept := totalMemoryBytes_swept fixed
  have settled : engine.totalMemoryBytes.2.totalMemoryBytes.2.shards = engine.totalMemoryBytes.2.shards := by
    rw [totalMemoryBytes_eq engine.totalMemoryBytes.2]
    exact runShards_settled (fun _ guard => (guard.expireKeys.2.shard.memBytes, guard.expireKeys.2))
      (fun _ _ => rfl) _ later swept
  rw [totalMemoryBytes_sum engine.totalMemoryBytes.2, settled, ← totalMemoryBytes_sum]

end Measuring

section Loop
variable [Platform] (maxmemoryBytes : Nat) (policy : EvictionPolicy) (protectedKeys : List Bytes)

/-- The loop stops: the memory fits, or nothing is left that may be taken. -/
def Stops (engine : OnyxEngine) : Prop :=
  engine.totalMemoryBytes.1 ≤ maxmemoryBytes ∨
    ∀ key entry, ¬ engine.totalMemoryBytes.2.Eligible policy protectedKeys key entry

/-- One pass takes an entry. -/
structure Takes (engine after : OnyxEngine) (key : Bytes) (entry : DataEntry) : Prop where
  exceeds : maxmemoryBytes < engine.totalMemoryBytes.1
  victim : engine.totalMemoryBytes.2.Victim policy protectedKeys key entry
  gone : engine.totalMemoryBytes.2.Sets after key none

/-- The passes of the loop, each measuring the memory anew, up to the one that stops. -/
inductive Evicting : OnyxEngine → List (Bytes × DataEntry) → OnyxEngine → Prop where
  | stops {engine : OnyxEngine} (stops : Stops maxmemoryBytes policy protectedKeys engine) :
      Evicting engine [] engine.totalMemoryBytes.2
  | takes {engine middle after : OnyxEngine} {key : Bytes} {entry : DataEntry} {victims : List (Bytes × DataEntry)}
      (takes : Takes maxmemoryBytes policy protectedKeys engine middle key entry)
      (others : Evicting middle victims after) : Evicting engine ((key, entry) :: victims) after

variable {maxmemoryBytes policy protectedKeys}

/-- A pass leaves fewer entries. -/
theorem Takes.progress {engine after : OnyxEngine} {key : Bytes} {entry : DataEntry}
    (takes : Takes maxmemoryBytes policy protectedKeys engine after key entry) :
    after.keys.length < engine.keys.length := by
  have absent : key ∉ after.keys := by
    intro member
    obtain ⟨held, present⟩ := (after.mem_keys key).mp member
    rw [takes.gone.slot] at present
    cases present
  have distinct : (key :: after.keys).Nodup := List.nodup_cons.mpr ⟨absent, after.nodup_keys⟩
  have aged := engine.totalMemoryBytes_ages
  have within : key :: after.keys ⊆ engine.keys := by
    intro other member
    apply (engine.mem_keys other).mpr
    rcases List.mem_cons.mp member with rfl | later
    · exact ⟨entry, (aged.aged other List.not_mem_nil).held takes.victim.eligible.held⟩
    · obtain ⟨held, present⟩ := (after.mem_keys other).mp later
      have differ : other ≠ key := fun same => absent (same ▸ later)
      rw [takes.gone.other differ] at present
      exact ⟨held, (aged.aged other List.not_mem_nil).held present⟩
  exact (List.subperm_of_subset distinct within).length_le

theorem Takes.fixed {engine after : OnyxEngine} {key : Bytes} {entry : DataEntry}
    (takes : Takes maxmemoryBytes policy protectedKeys engine after key entry) {time : Nat}
    (fixed : engine.clock.Fixed time) : after.clock.Fixed time :=
  takes.gone.leads.fixed (engine.totalMemoryBytes_ages.leads.fixed fixed)

omit [Platform] in
theorem lookup_timed (engine : OnyxEngine) (clock : Clock) :
    ({ engine with clock := clock } : OnyxEngine).lookup = engine.lookup := rfl

omit [Platform] in
/-- Drawing nanoseconds from the clock leaves its seconds. -/
theorem Sets.redrawn {engine after : OnyxEngine} {nanos : Nat → Nat} {key : Bytes} {slot : Option DataEntry}
    (sets : ({ engine with clock := { engine.clock with nanos := nanos } } : OnyxEngine).Sets after key slot) :
    engine.Sets after key slot :=
  ⟨sets.leads, sets.lookup⟩

variable (maxmemoryBytes policy protectedKeys)

/-- What one pass of the loop does at a fixed clock. -/
theorem evictLoop_pass {engine : OnyxEngine} {time : Nat} (fixed : engine.clock.Fixed time) :
    (Stops maxmemoryBytes policy protectedKeys engine ∧ ∀ fuel evicted,
      evictLoop maxmemoryBytes policy protectedKeys (fuel + 1) engine evicted =
        (evicted, engine.totalMemoryBytes.2)) ∨
      ∃ key entry after, Takes maxmemoryBytes policy protectedKeys engine after key entry ∧ ∀ fuel evicted,
        evictLoop maxmemoryBytes policy protectedKeys (fuel + 1) engine evicted =
          evictLoop maxmemoryBytes policy protectedKeys fuel after (evicted ++ [(key, entry)]) := by
  have swept := totalMemoryBytes_swept fixed
  have later := engine.totalMemoryBytes_ages.leads.fixed fixed
  by_cases fits : engine.totalMemoryBytes.1 ≤ maxmemoryBytes
  · refine Or.inl ⟨Or.inl fits, fun fuel evicted => ?_⟩
    rw [evictLoop]
    exact if_pos fits
  · cases chosen : engine.totalMemoryBytes.2.bestCandidate policy protectedKeys with
    | none =>
        refine Or.inl ⟨Or.inr (bestCandidate_none chosen), fun fuel evicted => ?_⟩
        rw [evictLoop]
        simp only [if_neg fits, chosen]
    | some candidate =>
        obtain ⟨index, key, score⟩ := candidate
        obtain ⟨entry, victim⟩ := bestCandidate_victim chosen
        let measured := engine.totalMemoryBytes.2
        let drawn : OnyxEngine := { measured with clock := { measured.clock with
          nanos := fun next => measured.clock.nanos (next + numShards) } }
        obtain ⟨sets, result⟩ := drawn.removeChosen_sets key
        have shown : drawn.clock.now = time := later.now
        have held : drawn.lookup key.1 = some entry :=
          (congrFun (lookup_timed measured _) key.1).trans victim.eligible.held
        have live : fresh time (some entry) = some entry := fresh_live (swept _ _ victim.eligible.held) le_rfl
        rw [shown, held, live] at result
        have gone : measured.Sets (drawn.withShard index (fun guard => guard.remove key)).2 key.1 none := sets.redrawn
        refine Or.inr ⟨key.1, entry, _, ⟨Nat.lt_of_not_le fits, victim, gone⟩, fun fuel evicted => ?_⟩
        rw [evictLoop]
        simp only [if_neg fits, chosen]
        split
        next taken after removed =>
          change drawn.withShard index (fun guard => guard.remove key) = (some taken, after) at removed
          rw [removed] at result ⊢
          rw [Option.some.inj result]
        next after removed =>
          change drawn.withShard index (fun guard => guard.remove key) = (none, after) at removed
          rw [removed] at result
          cases result

/-- With more passes at hand than entries, the loop runs to its end. -/
theorem evictLoop_evicting {fuel : Nat} {engine : OnyxEngine} {time : Nat} (fixed : engine.clock.Fixed time)
    (enough : engine.keys.length < fuel) (evicted : List (Bytes × DataEntry)) :
    ∃ victims after, Evicting maxmemoryBytes policy protectedKeys engine victims after ∧
      ∀ spare, evictLoop maxmemoryBytes policy protectedKeys (fuel + spare) engine evicted =
        (evicted ++ victims, after) := by
  induction fuel generalizing engine evicted with
  | zero => exact absurd enough (Nat.not_lt_zero _)
  | succ fuel rest =>
      rcases evictLoop_pass maxmemoryBytes policy protectedKeys fixed with ⟨stops, ends⟩ | ⟨key, entry, middle, takes, goes⟩
      · refine ⟨[], _, .stops stops, fun spare => ?_⟩
        rw [Nat.add_right_comm, ends, List.append_nil]
      · have fewer := takes.progress
        obtain ⟨victims, after, others, runs⟩ := rest (takes.fixed fixed) (by omega) (evicted ++ [(key, entry)])
        refine ⟨(key, entry) :: victims, after, .takes takes others, fun spare => ?_⟩
        rw [Nat.add_right_comm, goes, runs, List.append_assoc, List.singleton_append]

omit [Platform] in
theorem length_keys (engine : OnyxEngine) : engine.keys.length = engine.physicalEntries := by
  unfold keys physicalEntries
  rw [List.length_flatMap]
  simp only [List.length_map]

/-- Eviction goes pass by pass until it stops, and no number of further passes would change it. -/
theorem evictToFit_evicting {engine : OnyxEngine} {time : Nat} (fixed : engine.clock.Fixed time)
    (evicts : policy ≠ .noEviction) (limited : maxmemoryBytes ≠ 0) :
    Evicting maxmemoryBytes policy protectedKeys engine (engine.evictToFit maxmemoryBytes policy protectedKeys).1
        (engine.evictToFit maxmemoryBytes policy protectedKeys).2 ∧
      ∀ fuel, engine.physicalEntries < fuel → evictLoop maxmemoryBytes policy protectedKeys fuel engine [] =
        engine.evictToFit maxmemoryBytes policy protectedKeys := by
  have enough : engine.keys.length < engine.physicalEntries + 1 := by
    rw [length_keys]
    exact Nat.lt_succ_self _
  obtain ⟨victims, after, evicting, runs⟩ :=
    evictLoop_evicting maxmemoryBytes policy protectedKeys fixed enough []
  have whole : engine.evictToFit maxmemoryBytes policy protectedKeys = (victims, after) := by
    unfold evictToFit
    rw [if_neg (not_or.mpr ⟨evicts, limited⟩)]
    exact runs 0
  rw [whole]
  refine ⟨evicting, fun fuel more => ?_⟩
  obtain ⟨spare, rfl⟩ := Nat.exists_eq_add_of_lt more
  have same := runs spare
  rw [Nat.add_right_comm] at same
  exact same

end Loop

end OnyxEngine

end OnyxDB.Engine
