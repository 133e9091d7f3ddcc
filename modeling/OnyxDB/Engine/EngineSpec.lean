import OnyxDB.Engine.Engine
import OnyxDB.Engine.ShardSpec

/-! What the operations of the engine do to the slots of its keys. Everything above the engine is
proved from these lemmas; none looks into a shard. -/

namespace OnyxDB.Engine.OnyxEngine
open OnyxDB.Library OnyxDB.Engine OnyxDB.Engine.Value

/-- The slot of a key. -/
def lookup (engine : OnyxEngine) (key : Bytes) : Option DataEntry :=
  (engine.shards (shardForKey key)).data.get (.home key)

/-- What the engine shows at `time`: the live content. -/
def view (engine : OnyxEngine) (time : Nat) (key : Bytes) : Option PersistentEntry :=
  shown time (engine.lookup key)

/-- `after` differs from `engine` in the slot of one key, and the clock has gone on. -/
structure Sets (engine after : OnyxEngine) (key : Bytes) (slot : Option DataEntry) : Prop where
  leads : engine.clock.Leads after.clock
  lookup : after.lookup = Function.update engine.lookup key slot

theorem Sets.trans {engine middle after : OnyxEngine} {key : Bytes}
    {first second : Option DataEntry} (before : engine.Sets middle key first)
    (later : middle.Sets after key second) : engine.Sets after key second := by
  refine ⟨before.leads.trans later.leads, ?_⟩
  rw [later.lookup, before.lookup, Function.update_idem]

theorem Sets.slot {engine after : OnyxEngine} {key : Bytes} {slot : Option DataEntry}
    (sets : engine.Sets after key slot) : after.lookup key = slot := by
  rw [sets.lookup, Function.update_self]

theorem Sets.other {engine after : OnyxEngine} {key other : Bytes} {slot : Option DataEntry}
    (sets : engine.Sets after key slot) (differ : other ≠ key) :
    after.lookup other = engine.lookup other := by
  rw [sets.lookup, Function.update_of_ne differ]

theorem Sets.view {engine after : OnyxEngine} {key : Bytes} {slot : Option DataEntry}
    (sets : engine.Sets after key slot) (time : Nat) :
    after.view time = Function.update (engine.view time) key (shown time slot) := by
  funext other
  by_cases same : other = key
  · subst same
    rw [Function.update_self, OnyxEngine.view, sets.slot]
  · rw [Function.update_of_ne same, OnyxEngine.view, sets.other same]
    rfl

theorem shard_get (engine : OnyxEngine) (index : Fin numShards) (key : Bytes)
    (here : shardForKey key = index) : (engine.shards index).data.get ⟨key, here⟩ = engine.lookup key := by
  subst here
  rfl

theorem lookup_withShard {α : Type} (engine : OnyxEngine) (index : Fin numShards)
    (operation : Guard index → α × Guard index) (key : Bytes) :
    (engine.withShard index operation).2.lookup key =
      if here : shardForKey key = index then
        (operation ⟨engine.shards index, engine.totalKeys, engine.clock⟩).2.lookup ⟨key, here⟩
      else engine.lookup key := by
  by_cases here : shardForKey key = index
  · subst here
    rw [dif_pos rfl]
    simp only [withShard, lookup, Function.update_self]
    rfl
  · rw [dif_neg here]
    simp only [withShard, lookup, Function.update_of_ne here]

/-- An operation that sets the slot of its key in the locked shard sets it in the engine. -/
theorem withKey_sets_here {α : Type} (engine : OnyxEngine) (key : Bytes)
    (operation : (index : Fin numShards) → Key index → Guard index → α × Guard index)
    (slot : Option DataEntry)
    (sets : Guard.Sets ⟨engine.shards (shardForKey key), engine.totalKeys, engine.clock⟩
      (operation (shardForKey key) ⟨key, rfl⟩
        ⟨engine.shards (shardForKey key), engine.totalKeys, engine.clock⟩).2 ⟨key, rfl⟩ slot) :
    engine.Sets (engine.withKey key operation).2 key slot := by
  obtain ⟨leads, slots⟩ := sets
  refine ⟨leads, ?_⟩
  funext other
  rw [withKey, lookup_withShard]
  by_cases here : shardForKey other = shardForKey key
  · rw [dif_pos here, slots]
    by_cases same : other = key
    · subst same
      rw [Function.update_self, Function.update_self]
    · have differ : (⟨other, here⟩ : Key (shardForKey key)) ≠ ⟨key, rfl⟩ := by
        intro equal
        exact same (congrArg Subtype.val equal)
      rw [Function.update_of_ne differ, Function.update_of_ne same]
      exact engine.shard_get (shardForKey key) other here
  · have differ : other ≠ key := by
      rintro rfl
      exact here rfl
    rw [dif_neg here, Function.update_of_ne differ]

theorem withKey_sets {α : Type} (engine : OnyxEngine) (key : Bytes)
    (operation : (index : Fin numShards) → Key index → Guard index → α × Guard index)
    (slot : Option DataEntry)
    (sets : ∀ guard : Guard (shardForKey key), guard.clock = engine.clock →
      guard.lookup ⟨key, rfl⟩ = engine.lookup key →
        guard.Sets (operation (shardForKey key) ⟨key, rfl⟩ guard).2 ⟨key, rfl⟩ slot) :
    engine.Sets (engine.withKey key operation).2 key slot :=
  withKey_sets_here engine key operation slot (sets _ rfl rfl)

theorem withKey_fst {α : Type} (engine : OnyxEngine) (key : Bytes)
    (operation : (index : Fin numShards) → Key index → Guard index → α × Guard index) (result : α)
    (returns : ∀ guard : Guard (shardForKey key), guard.clock = engine.clock →
      guard.lookup ⟨key, rfl⟩ = engine.lookup key →
        (operation (shardForKey key) ⟨key, rfl⟩ guard).1 = result) :
    (engine.withKey key operation).1 = result :=
  returns ⟨engine.shards (shardForKey key), engine.totalKeys, engine.clock⟩ rfl rfl

/-- The check of an expiry sees some reading of the clock; without an expiry any will do. -/
theorem expiryReached_cases {index : Fin numShards} (guard : Guard index) (expiry : Option Nat) :
    (expiryReached guard expiry).2.lookup = guard.lookup ∧
      guard.clock.Leads (expiryReached guard expiry).2.clock ∧
      ∃ reading, guard.clock.Shows (expiryReached guard expiry).2.clock reading ∧
        (expiryReached guard expiry).1 = expiryPassed reading expiry := by
  cases expiry with
  | none => exact ⟨rfl, Clock.Leads.refl _, guard.clock.now, ⟨0, 0, le_rfl, rfl, rfl⟩, rfl⟩
  | some moment => exact ⟨rfl, guard.clock.leads_tick, guard.clock.now, guard.clock.shows_tick, rfl⟩

theorem fresh_fresh_cases (first second : Nat) (slot : Option DataEntry) :
    fresh second (fresh first slot) = fresh first slot ∨
      fresh second (fresh first slot) = fresh second slot := by
  cases slot with
  | none => exact Or.inl rfl
  | some entry =>
      rw [fresh_some]
      cases past : entry.expired first with
      | true => exact Or.inl rfl
      | false => exact Or.inr rfl

/-- The slot of `key` is as it was, or was checked for expiry at some reading. -/
def Aged (engine after : OnyxEngine) (key : Bytes) : Prop :=
  after.lookup key = engine.lookup key ∨
    ∃ reading, engine.clock.Shows after.clock reading ∧
      after.lookup key = fresh reading (engine.lookup key)

theorem Aged.trans {engine middle after : OnyxEngine} {key : Bytes} (before : engine.Aged middle key)
    (later : middle.Aged after key) (early : engine.clock.Leads middle.clock)
    (late : middle.clock.Leads after.clock) : engine.Aged after key := by
  rcases before with same | ⟨first, shown, purged⟩
  · rcases later with unchanged | ⟨second, taken, gone⟩
    · exact Or.inl (unchanged.trans same)
    · exact Or.inr ⟨second, early.shows taken, by rw [gone, same]⟩
  · rcases later with unchanged | ⟨second, taken, gone⟩
    · exact Or.inr ⟨first, shown.extend late, by rw [unchanged, purged]⟩
    · unfold Aged
      rw [gone, purged]
      rcases fresh_fresh_cases first second (engine.lookup key) with earlier | latest
      · exact Or.inr ⟨first, shown.extend late, earlier⟩
      · exact Or.inr ⟨second, early.shows taken, latest⟩

theorem Aged.view {engine after : OnyxEngine} {key : Bytes} (aged : engine.Aged after key) {time : Nat}
    (upto : engine.clock.Upto after.clock time) : after.view time key = engine.view time key := by
  rcases aged with same | ⟨reading, taken, purged⟩
  · rw [OnyxEngine.view, same, OnyxEngine.view]
  · rw [OnyxEngine.view, purged, shown_fresh (upto reading taken), OnyxEngine.view]

/-- Only the slots of `keys` may have been written; all others have at most been purged. -/
structure Touches (engine after : OnyxEngine) (keys : List Bytes) : Prop where
  leads : engine.clock.Leads after.clock
  aged : ∀ key, key ∉ keys → engine.Aged after key

/-- No slot has been written. -/
abbrev Ages (engine after : OnyxEngine) : Prop := engine.Touches after []

theorem Touches.refl (engine : OnyxEngine) (keys : List Bytes) : engine.Touches engine keys :=
  ⟨Clock.Leads.refl _, fun _ _ => Or.inl rfl⟩

theorem Touches.mono {engine after : OnyxEngine} {keys more : List Bytes}
    (touches : engine.Touches after keys) (within : keys ⊆ more) : engine.Touches after more :=
  ⟨touches.leads, fun key absent => touches.aged key (fun member => absent (within member))⟩

theorem Touches.trans {engine middle after : OnyxEngine} {keys : List Bytes}
    (before : engine.Touches middle keys) (later : middle.Touches after keys) :
    engine.Touches after keys := by
  refine ⟨before.leads.trans later.leads, ?_⟩
  intro key absent
  exact (before.aged key absent).trans (later.aged key absent) before.leads later.leads

theorem Touches.view {engine after : OnyxEngine} {keys : List Bytes}
    (touches : engine.Touches after keys) {time : Nat} (upto : engine.clock.Upto after.clock time)
    {key : Bytes} (absent : key ∉ keys) : after.view time key = engine.view time key :=
  (touches.aged key absent).view upto

theorem Touches.same_view {engine after : OnyxEngine} (ages : engine.Ages after) {time : Nat}
    (upto : engine.clock.Upto after.clock time) : after.view time = engine.view time :=
  funext fun _ => ages.view upto List.not_mem_nil

theorem Sets.touches {engine after : OnyxEngine} {key : Bytes} {slot : Option DataEntry}
    (sets : engine.Sets after key slot) : engine.Touches after [key] := by
  refine ⟨sets.leads, ?_⟩
  intro other absent
  exact Or.inl (sets.other (fun same => absent (List.mem_singleton.mpr same)))

/-- Setting a slot to what is left of it after a purge writes nothing. -/
theorem Sets.ages {engine after : OnyxEngine} {key : Bytes} {reading : Nat}
    (sets : engine.Sets after key (fresh reading (engine.lookup key)))
    (taken : engine.clock.Shows after.clock reading) : engine.Ages after := by
  refine ⟨sets.leads, ?_⟩
  intro other _
  by_cases same : other = key
  · subst same
    exact Or.inr ⟨reading, taken, sets.slot⟩
  · exact Or.inl (sets.other same)

variable [Platform]

theorem expireKeys_ages (engine : OnyxEngine) {α : Type} (index : Fin numShards)
    (operation : Guard index → α × Guard index)
    (sweeps : ∀ guard, (operation guard).2 = guard.expireKeys.2) :
    engine.Ages (engine.withShard index operation).2 := by
  have clock : (engine.withShard index operation).2.clock = engine.clock.tick := by
    simp only [withShard]
    rw [sweeps, Guard.expireKeys_clock]
  refine ⟨by rw [clock]; exact engine.clock.leads_tick, ?_⟩
  intro key _
  unfold Aged
  rw [lookup_withShard]
  by_cases here : shardForKey key = index
  · rw [dif_pos here, sweeps, Guard.expireKeys_lookup]
    right
    refine ⟨engine.clock.now, by rw [clock]; exact engine.clock.shows_tick, ?_⟩
    exact congrArg _ (engine.shard_get index key here)
  · rw [dif_neg here]
    exact Or.inl rfl

/-- A pass over the shards that only sweeps them writes no slot. -/
theorem runShards_ages {α : Type} (operation : (index : Fin numShards) → Guard index → α × Guard index)
    (sweeps : ∀ index guard, (operation index guard).2 = guard.expireKeys.2)
    (indices : List (Fin numShards)) (engine : OnyxEngine) :
    engine.Ages (runShards operation indices engine).2 := by
  induction indices generalizing engine with
  | nil => exact Touches.refl _ _
  | cons index indices rest =>
      exact (expireKeys_ages engine index _ (sweeps index)).trans (rest _)

/-- The keys of a shard that have not expired. -/
def liveKeys {index : Fin numShards} (guard : Guard index) : List Bytes × Guard index :=
  (guard.expireKeys.2.shard.data.visit.map (fun entry => entry.1.1), guard.expireKeys.2)

theorem allKeys_eq (engine : OnyxEngine) :
    engine.allKeys = ((engine.forShards (fun _ guard => liveKeys guard)).1.flatten,
      (engine.forShards (fun _ guard => liveKeys guard)).2) := by
  unfold allKeys liveKeys
  generalize engine.forShards _ = collected
  cases collected
  rfl

theorem snapshotAll_eq (engine : OnyxEngine) :
    engine.snapshotAll = ((engine.forShards (fun _ guard => liveEntries guard)).1.flatten,
      (engine.forShards (fun _ guard => liveEntries guard)).2) := by
  unfold snapshotAll
  generalize engine.forShards _ = collected
  cases collected
  rfl

theorem gcExpired_eq (engine : OnyxEngine) :
    engine.gcExpired = ((engine.forShards (fun _ guard => guard.expireKeys)).1.sum,
      (engine.forShards (fun _ guard => guard.expireKeys)).2) := by
  unfold gcExpired
  generalize engine.forShards _ = collected
  cases collected
  rfl

theorem totalMemoryBytes_eq (engine : OnyxEngine) :
    engine.totalMemoryBytes =
      ((engine.forShards (fun _ guard => (guard.expireKeys.2.shard.memBytes, guard.expireKeys.2))).1.sum,
      (engine.forShards (fun _ guard => (guard.expireKeys.2.shard.memBytes, guard.expireKeys.2))).2) := by
  unfold totalMemoryBytes
  generalize engine.forShards _ = collected
  cases collected
  rfl

/-- The key and operation counts of a shard after a sweep. -/
def shardCounts {index : Fin numShards} (guard : Guard index) : (Nat × Nat) × Guard index :=
  ((guard.expireKeys.2.shard.keyCount, guard.expireKeys.2.shard.opCount), guard.expireKeys.2)

theorem stats_eq (engine : OnyxEngine) :
    engine.stats =
      (⟨((engine.forShards (fun _ guard => shardCounts guard)).1.map Prod.fst).sum,
        ((engine.forShards (fun _ guard => shardCounts guard)).1.map Prod.snd).sum,
        OnyxDB.Engine.numShards⟩, (engine.forShards (fun _ guard => shardCounts guard)).2) := by
  unfold stats shardCounts
  generalize engine.forShards _ = collected
  cases collected
  rfl

theorem mget_eq (engine : OnyxEngine) (keys : List Bytes) :
    engine.mget keys =
      ((engine.forShards (fun index guard => getAll guard (keysOfShard keys index))).1.flatten.foldl
        (fun results answer => results.set answer.1 answer.2) (List.replicate keys.length none),
      (engine.forShards (fun index guard => getAll guard (keysOfShard keys index))).2) := by
  unfold mget
  generalize engine.forShards _ = collected
  cases collected
  rfl

theorem stats_ages (engine : OnyxEngine) : engine.Ages engine.stats.2 := by
  unfold stats forShards
  exact runShards_ages _ (by intros; rfl) _ engine

theorem totalMemoryBytes_ages (engine : OnyxEngine) : engine.Ages engine.totalMemoryBytes.2 := by
  unfold totalMemoryBytes forShards
  exact runShards_ages _ (by intros; rfl) _ engine

theorem allKeys_ages (engine : OnyxEngine) : engine.Ages engine.allKeys.2 := by
  unfold allKeys forShards
  exact runShards_ages _ (by intros; rfl) _ engine

theorem peek_sets (engine : OnyxEngine) (key : Bytes) :
    engine.Sets (engine.peek key).2 key (fresh engine.clock.now (engine.lookup key)) := by
  apply withKey_sets
  intro guard clock slot
  rw [← clock, ← slot]
  exact guard.purgeNow_sets ⟨key, rfl⟩

theorem peek_fst (engine : OnyxEngine) (key : Bytes) :
    (engine.peek key).1 = fresh engine.clock.now (engine.lookup key) := by
  apply withKey_fst
  intro guard clock slot
  rw [← clock, ← slot]
  exact guard.purgeNow_slot ⟨key, rfl⟩

theorem peek_clock (engine : OnyxEngine) (key : Bytes) :
    (engine.peek key).2.clock = engine.clock.tick :=
  Guard.purgeNow_clock ⟨engine.shards (shardForKey key), engine.totalKeys, engine.clock⟩ ⟨key, rfl⟩

theorem peek_ages (engine : OnyxEngine) (key : Bytes) : engine.Ages (engine.peek key).2 := by
  apply (engine.peek_sets key).ages
  rw [peek_clock]
  exact engine.clock.shows_tick

/-- The slot a read leaves: the fresh entry with a new access time. -/
def touched (timestamp : Nat) (slot : Option DataEntry) : Option DataEntry :=
  (fresh timestamp slot).map (fun entry => { entry with lastAccessed := timestamp })

theorem get_sets (engine : OnyxEngine) (key : Bytes) :
    engine.Sets (engine.get key).2 key (touched engine.clock.now (engine.lookup key)) := by
  apply withKey_sets
  intro guard clock slot
  rw [← clock, ← slot]
  exact guard.get_sets ⟨key, rfl⟩

theorem get_fst (engine : OnyxEngine) (key : Bytes) :
    (engine.get key).1 = touched engine.clock.now (engine.lookup key) := by
  apply withKey_fst
  intro guard clock slot
  rw [← clock, ← slot]
  exact guard.get_fst ⟨key, rfl⟩

theorem read_sets {α : Type} (engine : OnyxEngine) (key : Bytes) (inspect : DataEntry → α) :
    engine.Sets (engine.read key inspect).2 key (touched engine.clock.now (engine.lookup key)) := by
  apply withKey_sets
  intro guard clock slot
  rw [← clock, ← slot]
  exact guard.get_sets ⟨key, rfl⟩

theorem read_fst {α : Type} (engine : OnyxEngine) (key : Bytes) (inspect : DataEntry → α) :
    (engine.read key inspect).1 =
      (touched engine.clock.now (engine.lookup key)).map inspect := by
  apply withKey_fst
  intro guard clock slot
  rw [← clock, ← slot]
  exact congrArg (Option.map inspect) (guard.get_fst ⟨key, rfl⟩)

theorem delete_sets (engine : OnyxEngine) (key : Bytes) :
    engine.Sets (engine.delete key).2 key none := by
  have removed : engine.Sets (engine.withKey key (fun _ key guard => guard.remove key)).2 key none := by
    apply withKey_sets
    intro guard _ _
    exact (guard.remove_cases ⟨key, rfl⟩).1
  exact removed

theorem delete_fst (engine : OnyxEngine) (key : Bytes) :
    (engine.delete key).1 = (fresh engine.clock.now (engine.lookup key)).isSome := by
  have removed : (engine.withKey key (fun _ key guard => guard.remove key)).1 =
      fresh engine.clock.now (engine.lookup key) := by
    apply withKey_fst
    intro guard clock slot
    rw [← clock, ← slot]
    exact (guard.remove_cases ⟨key, rfl⟩).2
  exact congrArg Option.isSome removed

/-- What `set` and `apply_entry` share: the key is purged and a new entry installed, unless its expiry
has passed, which removes the key. -/
def insertUnlessExpired {index : Fin numShards} (guard : Guard index) (key : Key index)
    (expires : Option Nat) (install : Guard index → Option DataEntry × Guard index) :
    Option DataEntry × Guard index :=
  match (expiryReached (guard.purgeNow key).2 expires).1 with
  | true => (expiryReached (guard.purgeNow key).2 expires).2.remove key
  | false => install (expiryReached (guard.purgeNow key).2 expires).2

theorem insertUnlessExpired_sets {index : Fin numShards} (guard : Guard index) (key : Key index)
    (expires : Option Nat) (entry : Guard index → DataEntry)
    (install : Guard index → Option DataEntry × Guard index)
    (expiry : ∀ guard, (entry guard).expiresAt = expires)
    (installs : ∀ guard : Guard index, guard.Sets (install guard).2 key (some (entry guard))) :
    ∃ reading later, guard.clock.Shows (insertUnlessExpired guard key expires install).2.clock reading ∧
      guard.Sets (insertUnlessExpired guard key expires install).2 key
        (fresh reading (some (entry later))) := by
  unfold insertUnlessExpired
  obtain ⟨slots, leads, reading, taken, checked⟩ :=
    expiryReached_cases (guard.purgeNow key).2 expires
  have ready : guard.Sets (expiryReached (guard.purgeNow key).2 expires).2 key
      (fresh guard.clock.now (guard.lookup key)) := by
    refine ⟨(guard.purgeNow_sets key).leads.trans leads, ?_⟩
    rw [slots, Guard.purgeNow_lookup]
  have early := (guard.purgeNow_sets key).leads.shows taken
  refine ⟨reading, (expiryReached (guard.purgeNow key).2 expires).2, ?_⟩
  rw [checked, fresh_some]
  unfold DataEntry.expired
  rw [expiry]
  cases past : expiryPassed reading expires with
  | true =>
      have removed := ((expiryReached (guard.purgeNow key).2 expires).2.remove_cases key).1
      exact ⟨early.extend removed.leads, ready.trans removed⟩
  | false =>
      have installed := installs (expiryReached (guard.purgeNow key).2 expires).2
      exact ⟨early.extend installed.leads, ready.trans installed⟩

/-- Installing an entry leaves what is left of it at some reading. -/
theorem applyEntry_sets (engine : OnyxEngine) (key : Bytes) (entry : DataEntry) :
    ∃ reading, engine.clock.Shows (engine.applyEntry key entry).2.clock reading ∧
      engine.Sets (engine.applyEntry key entry).2 key (fresh reading (some entry)) := by
  obtain ⟨reading, _, taken, sets⟩ := insertUnlessExpired_sets
    ⟨engine.shards (shardForKey key), engine.totalKeys, engine.clock⟩ ⟨key, rfl⟩ entry.expiresAt
    (fun _ => entry) (fun guard => guard.insert ⟨key, rfl⟩ entry) (fun _ => rfl)
    (fun guard => guard.insert_sets ⟨key, rfl⟩ entry)
  exact ⟨reading, taken, withKey_sets_here engine key _ _ sets⟩

theorem set_sets (engine : OnyxEngine) (key : Bytes) (value : OnyxValue) (expires : Option Nat) :
    ∃ reading created accessed, engine.clock.Shows (engine.set key value expires).2.clock reading ∧
      engine.Sets (engine.set key value expires).2 key
        (fresh reading (some ⟨value, expires, created, accessed⟩)) := by
  obtain ⟨reading, later, taken, sets⟩ := insertUnlessExpired_sets
    ⟨engine.shards (shardForKey key), engine.totalKeys, engine.clock⟩ ⟨key, rfl⟩ expires
    (fun guard => ⟨value, expires, guard.clock.now, guard.clock.tick.now⟩)
    (fun guard => guard.unixSeconds.2.unixSeconds.2.insert ⟨key, rfl⟩
      ⟨value, expires, guard.clock.now, guard.clock.tick.now⟩)
    (fun _ => rfl)
    (fun guard => ⟨(guard.clock.leads_tick.trans guard.clock.tick.leads_tick).trans
        (guard.unixSeconds.2.unixSeconds.2.insert_sets ⟨key, rfl⟩ _).leads,
      (guard.unixSeconds.2.unixSeconds.2.insert_sets ⟨key, rfl⟩ _).lookup⟩)
  exact ⟨reading, _, _, taken, withKey_sets_here engine key _ _ sets⟩

theorem snapshotAll_ages (engine : OnyxEngine) : engine.Ages engine.snapshotAll.2 := by
  unfold snapshotAll forShards
  exact runShards_ages _ (by intros; rfl) _ engine

end OnyxDB.Engine.OnyxEngine
