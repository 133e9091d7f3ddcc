import OnyxDB.Engine.Lifetimes

/-! How many readings of the clock an operation takes, where it matters at which one something is decided. -/

namespace OnyxDB.Engine
open OnyxDB.Library OnyxDB.Engine.Value

namespace Clock
variable {clock middle later : Clock} {first second : Nat}

/-- `later` is `clock` after so many readings. -/
def Takes (clock : Clock) (readings : Nat) (later : Clock) : Prop :=
  later.seconds = fun index => clock.seconds (index + readings)

/-- `later` is `clock` after at most so many readings. -/
def TakesUpTo (clock : Clock) (bound : Nat) (later : Clock) : Prop := ∃ readings ≤ bound, clock.Takes readings later

theorem Takes.none (clock : Clock) : clock.Takes 0 clock := rfl

theorem takes_tick (clock : Clock) : clock.Takes 1 clock.tick := rfl

theorem Takes.append (early : clock.Takes first middle) (late : middle.Takes second later) :
    clock.Takes (first + second) later := by
  rw [Takes, late, early]
  funext index
  exact congrArg clock.seconds (by omega)

theorem Takes.reading {readings : Nat} (takes : clock.Takes readings later) (index : Nat) :
    later.seconds index = clock.seconds (index + readings) := congrFun takes index

theorem Takes.upTo {readings bound : Nat} (takes : clock.Takes readings later) (few : readings ≤ bound) :
    clock.TakesUpTo bound later := ⟨readings, few, takes⟩

theorem TakesUpTo.append {bound more : Nat} (early : clock.TakesUpTo bound middle)
    (late : middle.TakesUpTo more later) :
    clock.TakesUpTo (bound + more) later := by
  obtain ⟨first, few, early⟩ := early
  obtain ⟨second, small, late⟩ := late
  exact ⟨first + second, by omega, early.append late⟩

theorem TakesUpTo.mono {bound more : Nat} (takes : clock.TakesUpTo bound later) (order : bound ≤ more) :
    clock.TakesUpTo more later := by
  obtain ⟨readings, few, takes⟩ := takes
  exact ⟨readings, few.trans order, takes⟩

end Clock

variable [Platform]

namespace Guard
variable {index : Fin numShards}

theorem insert_clock (guard : Guard index) (key : Key index) (entry : DataEntry) :
    (guard.insert key entry).2.clock = guard.clock.tick := by
  unfold insert
  cases inserted : guard.shard.data.insert key entry with
  | mk old data =>
      simp only [unixSeconds, inserted]
      cases old <;> rfl

end Guard

namespace OnyxEngine

/-- A peek at a key that has gone removes what is left of it from the count. -/
theorem peek_totalKeys (engine : OnyxEngine) (key : Bytes) :
    (engine.peek key).2.totalKeys = engine.totalKeys -
      (if (engine.lookup key).any (fun entry => entry.expired engine.clock.now) then 1 else 0) := by
  let guard : Guard (shardForKey key) := ⟨engine.shards (shardForKey key), engine.totalKeys, engine.clock.tick⟩
  change (guard.purgeIfExpired ⟨key, rfl⟩ engine.clock.now).2.totalKeys = _
  have slot : guard.lookup ⟨key, rfl⟩ = engine.lookup key := rfl
  unfold Guard.purgeIfExpired
  rw [slot]
  cases held : engine.lookup key with
  | none => rfl
  | some entry =>
      simp only [Option.any_some]
      by_cases past : entry.expired engine.clock.now = true
      case neg =>
        rw [if_neg past, if_neg past]
        rfl
      case pos =>
          rw [if_pos past, if_pos past]
          have removed : (guard.removeEntry ⟨key, rfl⟩).2.totalKeys = engine.totalKeys - 1 := by
            have found := guard.removeEntry_fst ⟨key, rfl⟩
            rw [slot, held] at found
            unfold Guard.removeEntry at found ⊢
            cases taken : guard.shard.data.remove ⟨key, rfl⟩ with
            | mk previous data =>
                rw [taken] at found
                cases previous with
                | none => cases found
                | some previous => rfl
          exact removed

section Sweeps
variable {α : Type}

omit [Platform] in
/-- A pass that reads the clock once a shard. -/
theorem runShards_takes (operation : (index : Fin numShards) → Guard index → α × Guard index)
    (ticks : ∀ index guard, (operation index guard).2.clock = guard.clock.tick) (indices : List (Fin numShards))
    (engine : OnyxEngine) : engine.clock.Takes indices.length (runShards operation indices engine).2.clock := by
  induction indices generalizing engine with
  | nil => exact Clock.Takes.none _
  | cons index indices rest =>
      have first : (engine.withShard index (operation index)).2.clock = engine.clock.tick := ticks index _
      have later := rest (engine.withShard index (operation index)).2
      rw [first] at later
      rw [List.length_cons, Nat.add_comm]
      exact engine.clock.takes_tick.append later

theorem stats_takes (engine : OnyxEngine) : engine.clock.Takes numShards engine.stats.2.clock := by
  rw [stats_eq]
  have takes := runShards_takes (fun _ guard => shardCounts guard) (fun _ guard => guard.expireKeys_clock)
    (List.finRange numShards) engine
  rwa [List.length_finRange] at takes

theorem totalMemoryBytes_takes (engine : OnyxEngine) :
    engine.clock.Takes numShards engine.totalMemoryBytes.2.clock := by
  rw [totalMemoryBytes_eq]
  have takes := runShards_takes (fun _ guard => (guard.expireKeys.2.shard.memBytes, guard.expireKeys.2))
    (fun _ guard => guard.expireKeys_clock) (List.finRange numShards) engine
  rwa [List.length_finRange] at takes

end Sweeps

section Writes
variable {engine : OnyxEngine} {source target : Bytes}

/-- A copy of a present entry to another key. -/
theorem copy_puts {held : DataEntry} (present : fresh engine.clock.now (engine.lookup source) = some held)
    (differ : source ≠ target) :
    (engine.copy source target).2.lookup = Function.update engine.lookup target
        (some ⟨held.value, held.expiresAt, engine.clock.now, engine.clock.now⟩) ∧
      engine.clock.Takes 2 (engine.copy source target).2.clock := by
  let ticked : OnyxEngine := { engine with clock := engine.clock.tick }
  obtain ⟨looked, result⟩ := ticked.inspect_sets source engine.clock.now
  have clock : (ticked.withKey source (fun _ key guard =>
      ((guard.purgeIfExpired key engine.clock.now).2.lookup key,
        (guard.purgeIfExpired key engine.clock.now).2))).2.clock = engine.clock.tick :=
    Guard.purgeIfExpired_clock _ _ _
  unfold copy unixSeconds
  simp only
  cases ran : ticked.withKey source (fun _ key guard =>
      ((guard.purgeIfExpired key engine.clock.now).2.lookup key, (guard.purgeIfExpired key engine.clock.now).2)) with
  | mk entry middle =>
      rw [ran] at looked result clock
      have found : entry = some held := result.trans present
      have slots : middle.lookup = engine.lookup := by
        rw [looked.lookup]
        change Function.update engine.lookup source (fresh engine.clock.now (engine.lookup source)) = _
        rw [present, ← fresh_held present, Function.update_eq_self]
      subst found
      simp only [ticked] at ran
      simp only [if_neg differ]
      have inserted := middle.insert_sets target ⟨held.value, held.expiresAt, engine.clock.now, engine.clock.now⟩
      refine ⟨by rw [inserted.lookup, slots], ?_⟩
      have ends : (middle.withKey target (fun _ key guard => guard.insert key
          ⟨held.value, held.expiresAt, engine.clock.now, engine.clock.now⟩)).2.clock = middle.clock.tick :=
        Guard.insert_clock _ _ _
      rw [ends, clock]
      rfl

end Writes

section Evictions

end Evictions

end OnyxEngine

end OnyxDB.Engine
