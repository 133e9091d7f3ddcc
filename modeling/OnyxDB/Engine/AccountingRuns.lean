import Mathlib.Algebra.BigOperators.Fin
import Mathlib.Algebra.Order.BigOperators.Group.Finset
import OnyxDB.Engine.Accounting
import OnyxDB.Engine.Operation
import OnyxDB.Engine.Reference

/-! The counters over whole runs of the engine. An operation is a chain of shard methods, each run under
the lock of its shard; no method of any chain reaches the floor of a subtraction. -/

namespace OnyxDB.Engine
open OnyxDB.Library OnyxDB.Engine.Value
variable [Platform]

theorem Method.sound {index : Fin numShards} {α : Type} (method : Method index α) {guard : Guard index}
    (covered : guard.Covered) : Guard.Sound (fun current => (method.run current).2) guard := by
  cases method with
  | purgeIfExpired key timestamp => exact Guard.purgeIfExpired_sound covered key timestamp
  | get key => exact Guard.get_sound covered key
  | insert key entry => exact Guard.insert_sound covered key entry
  | remove key => exact Guard.remove_sound covered key
  | expireKeys => exact Guard.expireKeys_sound covered
  | updateIfExistsWithAction key mutate => exact Guard.updateIfExistsWithAction_sound covered key mutate
  | updateEntryOrInsertWithPresence key default mutate =>
      exact Guard.updateEntryOrInsertWithPresence_sound covered key default mutate
  | setExpiryConditional key timestamp requireExpiry =>
      exact Guard.setExpiryConditional_sound covered key timestamp requireExpiry
  | insertIfAbsent key entry => exact Guard.insertIfAbsent_sound covered key entry

namespace Guard
variable {index : Fin numShards}

/-- A chain of methods and clock readings on a locked shard, none of which reaches a floor. -/
inductive Calls : Guard index → Guard index → Prop
  | done (guard : Guard index) : Calls guard guard
  | clock {guard after : Guard index} (later : Clock) :
      Calls { guard with clock := later } after → Calls guard after
  | call {guard after : Guard index} {α : Type} (method : Method index α) :
      Exact (fun current => (method.run current).2) guard → Calls (method.run guard).2 after →
        Calls guard after

theorem Calls.trans {guard middle after : Guard index} (first : Calls guard middle)
    (second : Calls middle after) : Calls guard after := by
  induction first with
  | done => exact second
  | clock later _ rest => exact .clock later (rest second)
  | call method exact _ rest => exact .call method exact (rest second)

theorem Calls.keeps {guard after : Guard index} (calls : Calls guard after) (covered : guard.Covered) :
    guard.Keeps after := by
  induction calls with
  | done => exact Keeps.refl _
  | clock later _ rest =>
      have same := rest ⟨covered.memBytes, covered.keyCount, covered.totalKeys⟩
      exact ⟨same.memBytes, same.keyCount, same.totalKeys⟩
  | call method _ _ rest =>
      have first := (method.sound covered).keeps
      exact first.trans (rest (first.covered covered))

/-- One method on covered counters, and what follows it. -/
theorem Covered.call {guard after : Guard index} (covered : guard.Covered) {α : Type}
    (method : Method index α)
    (rest : (method.run guard).2.Covered → Calls (method.run guard).2 after) : Calls guard after := by
  have sound := method.sound covered
  exact .call method sound.exact (rest (sound.keeps.covered covered))

theorem Covered.method {guard : Guard index} (covered : guard.Covered) {α : Type}
    (method : Method index α) : Calls guard (method.run guard).2 :=
  covered.call method (fun _ => .done _)

/-- Reading the clock and purging a key. -/
theorem Covered.purge {guard after : Guard index} (covered : guard.Covered) (key : Key index)
    (rest : (guard.purgeNow key).2.Covered → Calls (guard.purgeNow key).2 after) : Calls guard after := by
  apply Calls.clock guard.clock.tick
  have ticked : Covered { guard with clock := guard.clock.tick } :=
    ⟨covered.memBytes, covered.keyCount, covered.totalKeys⟩
  exact ticked.call (.purgeIfExpired key guard.clock.now) rest

theorem Covered.tick {guard : Guard index} (covered : guard.Covered) (clock : Clock) :
    Covered { guard with clock := clock } :=
  ⟨covered.memBytes, covered.keyCount, covered.totalKeys⟩

omit [Platform] in
theorem expiryReached_clock (guard : Guard index) (expiry : Option Nat) :
    ∃ clock, (OnyxEngine.expiryReached guard expiry).2 = { guard with clock := clock } := by
  cases expiry with
  | none => exact ⟨guard.clock, rfl⟩
  | some moment => exact ⟨guard.clock.tick, rfl⟩

end Guard

namespace OnyxEngine

/-- The lock of one shard. -/
def guard (engine : OnyxEngine) (index : Fin numShards) : Guard index :=
  ⟨engine.shards index, engine.totalKeys, engine.clock⟩

/-- Gives the lock of a shard back. -/
def release {index : Fin numShards} (engine : OnyxEngine) (guard : Guard index) : OnyxEngine :=
  { engine with
    shards := Function.update engine.shards index guard.shard
    totalKeys := guard.totalKeys
    clock := guard.clock }

/-- The counters are exact. -/
structure Accounted (engine : OnyxEngine) : Prop where
  memBytes : ∀ index, (engine.shards index).memBytes = (engine.shards index).data.memory
  keyCount : ∀ index, (engine.shards index).keyCount = (engine.shards index).data.visit.length
  totalKeys : engine.totalKeys = ∑ index, (engine.shards index).keyCount

/-- A chain of critical sections, each a chain of shard methods that are exact. -/
inductive Calls : OnyxEngine → OnyxEngine → Prop
  | done (engine : OnyxEngine) : Calls engine engine
  | clock {engine after : OnyxEngine} (later : Clock) :
      Calls { engine with clock := later } after → Calls engine after
  | locked {engine after : OnyxEngine} (index : Fin numShards) (next : Guard index) :
      (engine.guard index).Calls next → Calls (engine.release next) after → Calls engine after

theorem Calls.trans {engine middle after : OnyxEngine} (first : Calls engine middle)
    (second : Calls middle after) : Calls engine after := by
  induction first with
  | done => exact second
  | clock later _ rest => exact .clock later (rest second)
  | locked index next section' _ rest => exact .locked index next section' (rest second)

/-- Operations neither open nor close an epoch. -/
theorem Calls.snapshotActive {engine after : OnyxEngine} (calls : Calls engine after) :
    after.snapshotActive = engine.snapshotActive := by
  induction calls with
  | done => rfl
  | clock _ _ rest => exact rest
  | locked _ _ _ _ rest => exact rest

theorem Accounted.covered {engine : OnyxEngine} (accounted : engine.Accounted) (index : Fin numShards) :
    (engine.guard index).Covered := by
  refine ⟨(accounted.memBytes index).ge, (accounted.keyCount index).ge, ?_⟩
  change (engine.shards index).keyCount ≤ engine.totalKeys
  rw [accounted.totalKeys]
  exact Finset.single_le_sum (f := fun index => (engine.shards index).keyCount)
    (fun _ _ => Nat.zero_le _) (Finset.mem_univ index)

/-- Moving the counters of one shard with its entries keeps all counters exact. -/
theorem Accounted.release {engine : OnyxEngine} (accounted : engine.Accounted) {index : Fin numShards}
    {next : Guard index} (keeps : (engine.guard index).Keeps next) :
    (engine.release next).Accounted := by
  obtain ⟨bytes, count, total⟩ := keeps
  have heldBytes := accounted.memBytes index
  have heldCount := accounted.keyCount index
  change _ + (engine.shards index).data.memory = (engine.shards index).memBytes + _ at bytes
  change _ + (engine.shards index).data.visit.length = (engine.shards index).keyCount + _ at count
  change _ + (engine.shards index).keyCount = engine.totalKeys + _ at total
  refine ⟨?_, ?_, ?_⟩
  · intro other
    by_cases same : other = index
    · subst same
      simp only [OnyxEngine.release, Function.update_self]
      omega
    · simp only [OnyxEngine.release, Function.update_of_ne same]
      exact accounted.memBytes other
  · intro other
    by_cases same : other = index
    · subst same
      simp only [OnyxEngine.release, Function.update_self]
      omega
    · simp only [OnyxEngine.release, Function.update_of_ne same]
      exact accounted.keyCount other
  · have before := Finset.add_sum_erase Finset.univ (fun other => (engine.shards other).keyCount)
      (Finset.mem_univ index)
    have after := Finset.add_sum_erase Finset.univ
      (fun other => ((engine.release next).shards other).keyCount) (Finset.mem_univ index)
    have others : ∑ other ∈ Finset.univ.erase index, ((engine.release next).shards other).keyCount =
        ∑ other ∈ Finset.univ.erase index, (engine.shards other).keyCount := by
      apply Finset.sum_congr rfl
      intro other member
      simp only [OnyxEngine.release, Function.update_of_ne (Finset.ne_of_mem_erase member)]
    have here : ((engine.release next).shards index).keyCount = next.shard.keyCount := by
      simp only [OnyxEngine.release, Function.update_self]
    have sum := accounted.totalKeys
    change next.totalKeys = _
    omega

/-- What an operation has to establish: it is a chain of exact calls, and the counters stay exact. -/
structure Handled (engine after : OnyxEngine) : Prop where
  calls : Calls engine after
  accounted : after.Accounted

theorem Handled.trans {engine middle after : OnyxEngine} (first : Handled engine middle)
    (second : Handled middle after) : Handled engine after :=
  ⟨first.calls.trans second.calls, second.accounted⟩

theorem Accounted.unchanged {engine : OnyxEngine} (accounted : engine.Accounted) :
    Handled engine engine := ⟨.done engine, accounted⟩

theorem Accounted.time {engine : OnyxEngine} (accounted : engine.Accounted) (clock : Clock) :
    Handled engine { engine with clock := clock } :=
  ⟨.clock clock (.done _), ⟨accounted.memBytes, accounted.keyCount, accounted.totalKeys⟩⟩

/-- An operation that holds the lock of one shard. -/
theorem Accounted.section {engine : OnyxEngine} (accounted : engine.Accounted) {α : Type}
    (index : Fin numShards) (operation : Guard index → α × Guard index)
    (calls : ∀ guard : Guard index, guard.Covered → guard.Calls (operation guard).2) :
    Handled engine (engine.withShard index operation).2 := by
  have chain := calls (engine.guard index) (accounted.covered index)
  refine ⟨.locked index _ chain (.done _), ?_⟩
  exact accounted.release (chain.keeps (accounted.covered index))

theorem Accounted.method {engine : OnyxEngine} (accounted : engine.Accounted) {α : Type}
    {index : Fin numShards} (method : Method index α) :
    Handled engine (engine.withShard index method.run).2 :=
  accounted.section index method.run (fun _ covered => covered.method method)

/-- A pass over shards. -/
theorem Accounted.pass {α : Type}
    (operation : (index : Fin numShards) → Guard index → α × Guard index)
    (calls : ∀ index (guard : Guard index), guard.Covered → guard.Calls (operation index guard).2)
    (indices : List (Fin numShards)) {engine : OnyxEngine} (accounted : engine.Accounted) :
    Handled engine (runShards operation indices engine).2 := by
  induction indices generalizing engine with
  | nil => exact accounted.unchanged
  | cons index indices rest =>
      have first := accounted.section index (operation index) (calls index)
      exact first.trans (rest first.accounted)

/-- A pass that sweeps every shard. -/
theorem Accounted.sweep {α : Type}
    (operation : (index : Fin numShards) → Guard index → α × Guard index)
    (sweeps : ∀ index guard, (operation index guard).2 = guard.expireKeys.2) {engine : OnyxEngine}
    (accounted : engine.Accounted) : Handled engine (engine.forShards operation).2 := by
  apply Accounted.pass operation _ _ accounted
  intro index guard covered
  rw [sweeps]
  exact covered.method .expireKeys

/-- The check of an expiry and what follows it, in `set` and `apply_entry`. -/
theorem insertUnlessExpired_calls {index : Fin numShards} {guard : Guard index} (covered : guard.Covered)
    (key : Key index) (expires : Option Nat) (install : Guard index → Option DataEntry × Guard index)
    (installs : ∀ current : Guard index, current.Covered → current.Calls (install current).2) :
    guard.Calls (insertUnlessExpired guard key expires install).2 := by
  unfold insertUnlessExpired
  apply covered.purge key
  intro purged
  obtain ⟨clock, same⟩ := Guard.expiryReached_clock (guard.purgeNow key).2 expires
  rw [same]
  apply Guard.Calls.clock clock
  cases (expiryReached (guard.purgeNow key).2 expires).1 with
  | true => exact (purged.tick clock).method (.remove key)
  | false => exact installs _ (purged.tick clock)

theorem set_handled {engine : OnyxEngine} (accounted : engine.Accounted) (key : Bytes) (value : OnyxValue)
    (expires : Option Nat) : Handled engine (engine.set key value expires).2 := by
  apply accounted.section
  intro guard covered
  apply insertUnlessExpired_calls covered _ expires
    (fun current => current.unixSeconds.2.unixSeconds.2.insert ⟨key, rfl⟩
      ⟨value, expires, current.clock.now, current.clock.tick.now⟩)
  intro current enough
  apply Guard.Calls.clock current.clock.tick.tick
  exact (enough.tick current.clock.tick.tick).method
    (.insert ⟨key, rfl⟩ ⟨value, expires, current.clock.now, current.clock.tick.now⟩)

theorem applyEntry_handled {engine : OnyxEngine} (accounted : engine.Accounted) (key : Bytes)
    (entry : DataEntry) : Handled engine (engine.applyEntry key entry).2 := by
  apply accounted.section
  intro guard covered
  apply insertUnlessExpired_calls covered _ entry.expiresAt
    (fun current => current.insert ⟨key, rfl⟩ entry)
  intro current enough
  exact enough.method (.insert ⟨key, rfl⟩ entry)

theorem setConditional_handled {engine : OnyxEngine} (accounted : engine.Accounted) (key : Bytes)
    (value : OnyxValue) (expiresAt : Option Nat) (condition : Option Bool) :
    Handled engine (engine.setConditional key value expiresAt condition).2 := by
  apply accounted.section
  intro guard covered
  apply covered.purge ⟨key, rfl⟩
  intro purged
  simp only
  split
  · let clock := (guard.purgeNow ⟨key, rfl⟩).2.clock
    apply Guard.Calls.clock clock.tick
    exact (purged.tick clock.tick).method (.insert ⟨key, rfl⟩ ⟨value, expiresAt, clock.now, clock.now⟩)
  · exact .done _

theorem setIfAbsent_handled {engine : OnyxEngine} (accounted : engine.Accounted) (key : Bytes)
    (value : OnyxValue) : Handled engine (engine.setIfAbsent key value).2 := by
  apply accounted.section
  intro guard covered
  apply Guard.Calls.clock guard.clock.tick
  exact (covered.tick guard.clock.tick).method
    (.insertIfAbsent ⟨key, rfl⟩ ⟨value, none, guard.clock.now, guard.clock.now⟩)

theorem rename_handled {engine : OnyxEngine} (accounted : engine.Accounted) (source target : Bytes) :
    Handled engine (engine.rename source target).2 := by
  have removed := accounted.method (.remove ⟨source, rfl⟩)
  unfold rename
  change Handled engine (engine.withKey source (fun _ key guard => guard.remove key)).2 at removed
  cases ran : engine.withKey source (fun _ key guard => guard.remove key) with
  | mk entry after =>
      rw [ran] at removed
      cases entry with
      | none => exact removed
      | some entry => exact removed.trans (removed.accounted.method (.insert ⟨target, rfl⟩ entry))

theorem copy_handled {engine : OnyxEngine} (accounted : engine.Accounted) (source target : Bytes) :
    Handled engine (engine.copy source target).2 := by
  have timed := accounted.time engine.clock.tick
  have purged := timed.trans (timed.accounted.method
    (.purgeIfExpired ⟨source, rfl⟩ engine.clock.now))
  unfold copy
  simp only [unixSeconds]
  change Handled engine (({ engine with clock := engine.clock.tick } : OnyxEngine).withKey source
    (fun _ key guard => ((guard.purgeIfExpired key engine.clock.now).2.lookup key,
      (guard.purgeIfExpired key engine.clock.now).2))).2 at purged
  cases ran : ({ engine with clock := engine.clock.tick } : OnyxEngine).withKey source
      (fun _ key guard => ((guard.purgeIfExpired key engine.clock.now).2.lookup key,
        (guard.purgeIfExpired key engine.clock.now).2)) with
  | mk entry after =>
      rw [ran] at purged
      cases entry with
      | none => exact purged
      | some entry =>
          by_cases same : source = target
          · simp only [same, if_true]
            exact purged
          · simp only [same, if_false]
            exact purged.trans (purged.accounted.method (.insert ⟨target, rfl⟩
              ⟨entry.value, entry.expiresAt, engine.clock.now, engine.clock.now⟩))

theorem getAll_calls {index : Fin numShards} (keys : List (Nat × Key index)) {guard : Guard index}
    (covered : guard.Covered) : guard.Calls (getAll guard keys).2 := by
  induction keys generalizing guard with
  | nil => exact .done _
  | cons request keys rest => exact covered.call (.get request.2) rest

/-- Every operation is a chain of exact calls and keeps the counters exact. -/
theorem operation_handled {engine : OnyxEngine} (accounted : engine.Accounted) {α : Type}
    (operation : Operation α) : Handled engine (operation.run engine).2 := by
  cases operation with
  | get key => exact accounted.method (.get ⟨key, rfl⟩)
  | peek key =>
      apply accounted.section
      intro guard covered
      exact covered.purge ⟨key, rfl⟩ (fun _ => .done _)
  | set key value expires => exact set_handled accounted key value expires
  | setConditional key value expiresAt condition =>
      exact setConditional_handled accounted key value expiresAt condition
  | setIfAbsent key value => exact setIfAbsent_handled accounted key value
  | applyEntry key entry => exact applyEntry_handled accounted key entry
  | delete key => exact accounted.method (.remove ⟨key, rfl⟩)
  | read key inspect => exact accounted.method (.get ⟨key, rfl⟩)
  | updateIfExists key mutate =>
      exact accounted.method (.updateIfExistsWithAction ⟨key, rfl⟩
        (fun value => (.keep (mutate value).1, (mutate value).2)))
  | updateIfExistsWithAction key mutate =>
      exact accounted.method (.updateIfExistsWithAction ⟨key, rfl⟩ mutate)
  | updateOrInsert key default mutate =>
      exact accounted.method (.updateEntryOrInsertWithPresence ⟨key, rfl⟩ default
        (fun entry _ => ((mutate entry.value).1, { entry with value := (mutate entry.value).2 })))
  | updateOrInsertWithPresence key default mutate =>
      exact accounted.method (.updateEntryOrInsertWithPresence ⟨key, rfl⟩ default
        (fun entry existed =>
          ((mutate entry.value existed).1, { entry with value := (mutate entry.value existed).2 })))
  | updateEntryOrInsertWithPresence key default mutate =>
      exact accounted.method (.updateEntryOrInsertWithPresence ⟨key, rfl⟩ default mutate)
  | setExpiry key timestamp =>
      exact accounted.method (.setExpiryConditional ⟨key, rfl⟩ timestamp none)
  | setExpiryConditional key timestamp requireExpiry =>
      exact accounted.method (.setExpiryConditional ⟨key, rfl⟩ timestamp requireExpiry)
  | rename source target => exact rename_handled accounted source target
  | copy source target => exact copy_handled accounted source target
  | mget keys =>
      simp only [Operation.run, mget_eq]
      exact Accounted.pass (fun index guard => getAll guard (keysOfShard keys index))
        (fun index _ covered => getAll_calls (keysOfShard keys index) covered)
        (List.finRange numShards) accounted
  | allKeys =>
      simp only [Operation.run, allKeys_eq]
      exact Accounted.sweep (fun _ guard => liveKeys guard) (fun _ _ => rfl) accounted
  | snapshotAll =>
      simp only [Operation.run, snapshotAll_eq]
      exact Accounted.sweep (fun _ guard => liveEntries guard) (fun _ _ => rfl) accounted
  | gcExpired =>
      simp only [Operation.run, gcExpired_eq]
      exact Accounted.sweep (fun _ guard => guard.expireKeys) (fun _ _ => rfl) accounted

theorem insertAll_handled (entries : List (Bytes × DataEntry)) {engine : OnyxEngine}
    (accounted : engine.Accounted) : Handled engine (engine.insertAll entries) := by
  induction entries generalizing engine with
  | nil => exact accounted.unchanged
  | cons entry entries rest =>
      have first := accounted.method (.insert ⟨entry.1, rfl⟩ entry.2)
      exact first.trans (rest first.accounted)

omit [Platform] in
/-- A pass that empties shards leaves those it has not reached as they were. -/
theorem clearShards_shard (indices : List (Fin numShards)) (engine : OnyxEngine) (index : Fin numShards) :
    (index ∉ indices →
      (runShards (fun _ guard => clearShard guard) indices engine).2.shards index = engine.shards index) ∧
    (index ∈ indices → ∃ opCount lastModified,
      (runShards (fun _ guard => clearShard guard) indices engine).2.shards index =
        ⟨.flat ∅, opCount, lastModified, 0, 0⟩) := by
  induction indices generalizing engine with
  | nil => exact ⟨fun _ => rfl, fun member => absurd member List.not_mem_nil⟩
  | cons first indices rest =>
      obtain ⟨later, done⟩ := rest (engine.withShard first (fun guard => clearShard guard)).2
      constructor
      · intro absent
        simp only [List.mem_cons, not_or] at absent
        rw [runShards, later absent.2]
        exact Function.update_of_ne absent.1 _ _
      · intro member
        by_cases again : index ∈ indices
        · exact done again
        · have here : index = first := (List.mem_cons.mp member).resolve_right again
          subst here
          rw [runShards, later again]
          exact ⟨_, _, Function.update_self _ _ _⟩

omit [Platform] in
theorem cleared_shard (engine : OnyxEngine) (index : Fin numShards) : ∃ opCount lastModified,
    engine.cleared.shards index = ⟨.flat ∅, opCount, lastModified, 0, 0⟩ := by
  have emptied := (clearShards_shard (List.finRange numShards) engine index).2 (List.mem_finRange index)
  unfold cleared forShards
  generalize runShards (fun _ guard => clearShard guard) (List.finRange numShards) engine = swept
    at emptied
  exact emptied

theorem cleared_accounted (engine : OnyxEngine) : engine.cleared.Accounted := by
  have empty := engine.cleared_shard
  refine ⟨?_, ?_, ?_⟩
  · intro index
    obtain ⟨_, _, shape⟩ := empty index
    rw [shape]
    rfl
  · intro index
    obtain ⟨_, _, shape⟩ := empty index
    rw [shape]
    rfl
  · change 0 = _
    symm
    apply Finset.sum_eq_zero
    intro index _
    obtain ⟨_, _, shape⟩ := empty index
    rw [shape]

/-- Where the calls of an upkeep start: `replace_all` first empties the shards, which subtracts from no
counter. -/
def upkeepStart : Upkeep → OnyxEngine → OnyxEngine
  | .replaceAll _, engine => engine.cleared
  | _, engine => engine

theorem totalMemoryBytes_handled {engine : OnyxEngine} (accounted : engine.Accounted) :
    Handled engine engine.totalMemoryBytes.2 := by
  simp only [totalMemoryBytes_eq]
  exact Accounted.sweep _ (fun _ _ => rfl) accounted

theorem evictLoop_handled (maxmemoryBytes : Nat) (policy : EvictionPolicy) (protectedKeys : List Bytes)
    (fuel : Nat) {engine : OnyxEngine} (accounted : engine.Accounted)
    (evicted : List (Bytes × DataEntry)) :
    Handled engine (evictLoop maxmemoryBytes policy protectedKeys fuel engine evicted).2 := by
  induction fuel generalizing engine evicted with
  | zero => exact accounted.unchanged
  | succ fuel rest =>
      have swept := totalMemoryBytes_handled accounted
      unfold evictLoop
      cases measured : engine.totalMemoryBytes with
      | mk used next =>
          rw [measured] at swept
          by_cases fits : used ≤ maxmemoryBytes
          · simp only [fits, if_true]
            exact swept
          · simp only [fits, if_false]
            cases next.bestCandidate policy protectedKeys with
            | none => exact swept
            | some victim =>
                obtain ⟨index, key, score⟩ := victim
                have timed := swept.trans (swept.accounted.time { next.clock with
                  nanos := fun later => next.clock.nanos (later + numShards) })
                have removed := timed.trans (timed.accounted.method (.remove key))
                change Handled engine (({ next with clock := { next.clock with
                  nanos := fun later => next.clock.nanos (later + numShards) } } : OnyxEngine).withShard
                    index (fun guard => guard.remove key)).2 at removed
                simp only
                cases ran : ({ next with clock := { next.clock with
                    nanos := fun later => next.clock.nanos (later + numShards) } } : OnyxEngine).withShard
                    index (fun guard => guard.remove key) with
                | mk entry after =>
                    rw [ran] at removed
                    cases entry with
                    | none => exact removed.trans (rest removed.accounted _)
                    | some entry => exact removed.trans (rest removed.accounted _)

theorem upkeep_handled {engine : OnyxEngine} (accounted : engine.Accounted) (upkeep : Upkeep) :
    Handled (upkeepStart upkeep engine) (upkeep.run engine) := by
  cases upkeep with
  | stats =>
      simp only [Upkeep.run, upkeepStart, stats_eq]
      exact Accounted.sweep (fun _ guard => shardCounts guard) (fun _ _ => rfl) accounted
  | totalMemoryBytes => exact totalMemoryBytes_handled accounted
  | evictToFit maxmemoryBytes policy protectedKeys =>
      simp only [Upkeep.run, upkeepStart, evictToFit]
      split
      · exact accounted.unchanged
      · exact evictLoop_handled _ _ _ _ accounted _
  | replaceAll entries =>
      simp only [Upkeep.run, upkeepStart, replaceAll_eq]
      exact insertAll_handled entries engine.cleared_accounted

/-- Entering and leaving a snapshot epoch moves entries within a shard and touches no counter. -/
theorem Accounted.reshaped {engine after : OnyxEngine} (accounted : engine.Accounted)
    (slots : ∀ index, (after.shards index).data.get = (engine.shards index).data.get)
    (memBytes : ∀ index, (after.shards index).memBytes = (engine.shards index).memBytes)
    (keyCount : ∀ index, (after.shards index).keyCount = (engine.shards index).keyCount)
    (totalKeys : after.totalKeys = engine.totalKeys) : after.Accounted := by
  have order (index : Fin numShards) :
      (after.shards index).data.visit.Perm (engine.shards index).data.visit := by
    have lists := (after.shards index).data.listing
    rw [slots] at lists
    exact lists.perm (engine.shards index).data.listing
  refine ⟨?_, ?_, ?_⟩
  · intro index
    rw [memBytes, accounted.memBytes]
    exact (((order index).map _).sum_eq).symm
  · intro index
    rw [keyCount, accounted.keyCount]
    exact (order index).length_eq.symm
  · rw [totalKeys, accounted.totalKeys]
    exact Finset.sum_congr rfl (fun index _ => (keyCount index).symm)

omit [Platform] in
theorem finishSnapshotShard_shard (engine : OnyxEngine) (index other : Fin numShards) :
    (engine.finishSnapshotShard index).shards other = engine.shards other ∨
      (engine.finishSnapshotShard index).shards other =
        { engine.shards other with data := (engine.shards other).data.finishSnapshot } := by
  by_cases same : other = index
  · subst same
    exact Or.inr (Function.update_self _ _ _)
  · exact Or.inl (Function.update_of_ne same _ _)

theorem Accounted.finishSnapshotShard {engine : OnyxEngine} (accounted : engine.Accounted)
    (index : Fin numShards) : (engine.finishSnapshotShard index).Accounted := by
  apply accounted.reshaped
  · intro other
    rcases engine.finishSnapshotShard_shard index other with same | folded
    · rw [same]
    · rw [folded]
      exact ShardData.get_finishSnapshot _
  · intro other
    rcases engine.finishSnapshotShard_shard index other with same | folded
    · rw [same]
    · rw [folded]
  · intro other
    rcases engine.finishSnapshotShard_shard index other with same | folded
    · rw [same]
    · rw [folded]
  · rfl

theorem new_accounted (clock : Clock) : (OnyxEngine.new clock).Accounted := by
  refine ⟨fun _ => rfl, fun _ => rfl, ?_⟩
  change 0 = _
  exact (Finset.sum_eq_zero (fun _ _ => rfl)).symm

/-- The states of the engine over all sequences of its operations, with snapshot epochs begun, left
shard by shard and ended anywhere between them. -/
inductive Reachable : OnyxEngine → Prop
  | new (clock : Clock) : Reachable (.new clock)
  | operation {engine : OnyxEngine} {α : Type} (operation : Operation α) :
      Reachable engine → Reachable (operation.run engine).2
  | upkeep {engine : OnyxEngine} (upkeep : Upkeep) : Reachable engine → Reachable (upkeep.run engine)
  | beginSnapshot {engine : OnyxEngine} :
      engine.snapshotActive = false → Reachable engine → Reachable engine.beginSnapshot.2
  | finishSnapshotShard {engine : OnyxEngine} (index : Fin numShards) :
      engine.snapshotActive = true → Reachable engine → Reachable (engine.finishSnapshotShard index)
  | finishSnapshot {engine : OnyxEngine} :
      engine.snapshotActive = true → Reachable engine → Reachable engine.finishSnapshot

theorem Reachable.accounted {engine : OnyxEngine} (reachable : Reachable engine) : engine.Accounted := by
  induction reachable with
  | new clock => exact new_accounted clock
  | operation operation _ held => exact (operation_handled held operation).accounted
  | upkeep upkeep _ held => exact (upkeep_handled held upkeep).accounted
  | beginSnapshot _ _ held =>
      exact held.reshaped (fun index => ShardData.get_beginSnapshot _) (fun _ => rfl) (fun _ => rfl) rfl
  | finishSnapshotShard index _ _ held => exact held.finishSnapshotShard index
  | finishSnapshot _ _ held =>
      exact held.reshaped (fun index => ShardData.get_finishSnapshot _) (fun _ => rfl) (fun _ => rfl) rfl

/-- The counters of every reachable engine are exact and every key lies in its shard. No subtraction of
any shard method reaches its floor, and whatever operation comes next is a chain of such methods. -/
theorem reachable_counters_exact {engine : OnyxEngine} (reachable : Reachable engine) :
    (∀ index,
      (engine.shards index).memBytes = ((engine.shards index).data.visit.map
        (fun entry => approxEntrySize entry.1 entry.2)).sum ∧
      (engine.shards index).keyCount = (engine.shards index).data.visit.length ∧
      ∀ entry ∈ (engine.shards index).data.visit, shardForKey entry.1 = index) ∧
    engine.totalKeys = ∑ index, (engine.shards index).keyCount ∧
    (∀ index {α : Type} (method : Method index α),
      Guard.Exact (fun guard => (method.run guard).2) (engine.guard index)) ∧
    (∀ {α : Type} (operation : Operation α), Calls engine (operation.run engine).2) ∧
    ∀ upkeep : Upkeep, Calls (upkeepStart upkeep engine) (upkeep.run engine) := by
  have accounted := reachable.accounted
  refine ⟨?_, accounted.totalKeys, ?_, ?_, ?_⟩
  · intro index
    exact ⟨accounted.memBytes index, accounted.keyCount index, fun entry _ => entry.1.2⟩
  · intro index α method
    exact (method.sound (accounted.covered index)).exact
  · intro α operation
    exact (operation_handled accounted operation).calls
  · intro upkeep
    exact (upkeep_handled accounted upkeep).calls

end OnyxEngine

end OnyxDB.Engine

namespace OnyxDB.Engine
open OnyxDB.Engine.Value

/-- An engine that holds one key, enters an epoch and then deletes the entry in place. -/
def emptiedInEpoch [Platform] : OnyxEngine :=
  ((((OnyxEngine.new (.constant 0)).set [107] (.blob [1, 2]) none).2.beginSnapshot.2).updateIfExistsWithAction
    [107] (fun value => (.delete (), value))).2

theorem emptiedInEpoch_counters :
    letI := Reference.platform (fun _ => .error "unsupported")
    OnyxEngine.Reachable emptiedInEpoch ∧ emptiedInEpoch.snapshotActive = true ∧
      emptiedInEpoch.totalKeys = ∑ index, (emptiedInEpoch.shards index).keyCount := by
  let _ := Reference.platform (fun _ => .error "unsupported")
  have filled : OnyxEngine.Reachable ((OnyxEngine.new (.constant 0)).set [107] (.blob [1, 2]) none).2 :=
    .operation (.set [107] (.blob [1, 2]) none) (.new (.constant 0))
  have inactive := (OnyxEngine.set_handled (OnyxEngine.new_accounted (.constant 0)) [107] (.blob [1, 2])
    none).calls.snapshotActive
  have frozen := OnyxEngine.Reachable.beginSnapshot inactive filled
  have reachable : OnyxEngine.Reachable emptiedInEpoch :=
    .operation (.updateIfExistsWithAction [107] (fun value => (.delete (), value))) frozen
  have active := (OnyxEngine.operation_handled frozen.accounted
    (.updateIfExistsWithAction [107] (fun value => (.delete (), value)))).calls.snapshotActive
  exact ⟨reachable, active, (OnyxEngine.reachable_counters_exact reachable).2.1⟩

end OnyxDB.Engine
