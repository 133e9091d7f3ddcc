import OnyxDB.Store.ShardedStore

/-! What the operations of the store do to the live content. Content is compared at a time that no
clock reading exceeds. -/

namespace OnyxDB.Store
open OnyxDB.Library OnyxDB.Engine OnyxDB.Engine.Value

/-- The entries of `content` that have not expired at `time`. -/
def visible (time : Nat) (content : Bytes → Option PersistentEntry) (key : Bytes) :
    Option PersistentEntry :=
  Expiring.live (fun time entry => entry.expired time) time (content key)

theorem persistent_expired :
    Expiring.Persistent (fun time (entry : PersistentEntry) => entry.expired time) := by
  intro early late entry order past
  exact expiryPassed_mono order past

theorem visible_visible {early late : Nat} (order : early ≤ late)
    (content : Bytes → Option PersistentEntry) :
    visible late (visible early content) = visible late content :=
  funext fun key => Expiring.live_live persistent_expired order (content key)

/-- Hiding what has expired before more writes hides nothing that is visible after them. -/
theorem visible_replay_visible {early late : Nat} (order : early ≤ late)
    (content : Bytes → Option PersistentEntry)
    (writes : List (Expiring.Write Bytes PersistentEntry)) :
    visible late (Expiring.replay (visible early content) writes) =
      visible late (Expiring.replay content writes) := by
  have push (start : Bytes → Option PersistentEntry) := Expiring.live_replay
    (fun time (entry : PersistentEntry) => entry.expired time) late start writes
  calc
    visible late (Expiring.replay (visible early content) writes)
      = Expiring.replay (visible late (visible early content)) _ := push _
    _ = Expiring.replay (visible late content) _ := by rw [visible_visible order]
    _ = visible late (Expiring.replay content writes) := (push content).symm

theorem shown_eq_live (time : Nat) (slot : Option DataEntry) :
    shown time slot = Expiring.live (fun time (entry : PersistentEntry) => entry.expired time) time
      (slot.map PersistentEntry.ofDataEntry) := by
  cases slot with
  | none => rfl
  | some entry =>
      rw [shown_some, Option.map_some, Expiring.live_some]
      rfl

theorem visible_view (engine : OnyxEngine) (time : Nat) :
    visible time (engine.view time) = engine.view time := by
  funext key
  rw [visible, OnyxEngine.view, shown_eq_live, Expiring.live_live persistent_expired le_rfl]

/-- Setting a slot is a write to the live content. -/
theorem view_of_sets {engine after : OnyxEngine} {key : Bytes} {slot : Option DataEntry}
    (sets : engine.Sets after key slot) (time : Nat) :
    after.view time = visible time
      (Expiring.replay (engine.view time) [(key, slot.map PersistentEntry.ofDataEntry)]) := by
  rw [sets.view time]
  funext other
  rw [visible, Expiring.replay_cons, Expiring.replay_nil]
  by_cases same : other = key
  · subst same
    rw [Function.update_self, Function.update_self, shown_eq_live]
  · rw [Function.update_of_ne same, Function.update_of_ne same]
    exact (congrFun (visible_view engine time) other).symm

/-- Writing what is left of an entry at a reading is writing the entry. -/
theorem view_of_sets_fresh {engine after : OnyxEngine} {key : Bytes} {reading time : Nat}
    {slot : Option DataEntry} (sets : engine.Sets after key (fresh reading slot))
    (order : reading ≤ time) :
    after.view time = visible time
      (Expiring.replay (engine.view time) [(key, slot.map PersistentEntry.ofDataEntry)]) := by
  rw [view_of_sets sets time]
  funext other
  rw [visible, visible, Expiring.replay_cons, Expiring.replay_nil, Expiring.replay_cons,
    Expiring.replay_nil]
  by_cases same : other = key
  · subst same
    rw [Function.update_self, Function.update_self, ← shown_eq_live, ← shown_eq_live,
      shown_fresh order]
  · rw [Function.update_of_ne same, Function.update_of_ne same]

/-- The store after some writes, seen at any time from its last reading on. -/
structure Writes (store after : ShardedStore)
    (writes : List (Expiring.Write Bytes PersistentEntry)) : Prop where
  leads : store.engine.clock.Leads after.engine.clock
  view : ∀ time, store.engine.clock.Upto after.engine.clock time →
    after.view time = visible time (Expiring.replay (store.view time) writes)

theorem Writes.refl (store : ShardedStore) : Writes store store [] :=
  ⟨Clock.Leads.refl _, fun time _ => (visible_view store.engine time).symm⟩

theorem Writes.trans {store middle after : ShardedStore}
    {first second : List (Expiring.Write Bytes PersistentEntry)} (before : Writes store middle first)
    (later : Writes middle after second) : Writes store after (first ++ second) := by
  refine ⟨before.leads.trans later.leads, ?_⟩
  intro time upto
  rw [later.view time (upto.rest before.leads), before.view time (upto.start later.leads),
    visible_replay_visible le_rfl, ← Expiring.replay_append]

variable [Platform]

theorem applyEntry_writes (store : ShardedStore) (key : Bytes) (entry : DataEntry) :
    Writes store (store.applyEntry key entry).2 [(key, some (.ofDataEntry entry))] := by
  obtain ⟨reading, taken, sets⟩ := store.engine.applyEntry_sets key entry
  refine ⟨sets.leads, ?_⟩
  intro time upto
  exact view_of_sets_fresh sets (upto reading taken)

theorem setValue_writes (store : ShardedStore) (key : Bytes) (value : OnyxValue)
    (expiresAt : Option Nat) :
    Writes store (store.setValue key value expiresAt).2 [(key, some ⟨value, expiresAt⟩)] := by
  obtain ⟨reading, created, accessed, taken, sets⟩ := store.engine.set_sets key value expiresAt
  refine ⟨sets.leads, ?_⟩
  intro time upto
  exact view_of_sets_fresh sets (upto reading taken)

theorem deleteBytes_writes (store : ShardedStore) (key : Bytes) :
    Writes store (store.deleteBytes key).2 [(key, none)] :=
  ⟨(store.engine.delete_sets key).leads, fun time _ => view_of_sets (store.engine.delete_sets key) time⟩

theorem replaceAll_leads (store : ShardedStore) (entries : List (Bytes × DataEntry)) :
    store.engine.clock.Leads (store.replaceAll entries).engine.clock :=
  (store.engine.replaceAll_lookup entries).1

theorem rawEntries_leads (store : ShardedStore) :
    store.engine.clock.Leads store.rawEntries.2.engine.clock :=
  store.engine.snapshotAll_ages.leads

/-- The store that `replace_all` fills with the entries of another store. -/
theorem replaceAll_rawEntries_view (store staging : ShardedStore) {time : Nat}
    (upto : staging.engine.clock.Upto staging.rawEntries.2.engine.clock time) :
    (store.replaceAll staging.rawEntries.1).view time = staging.view time := by
  have slots := store.engine.replaceAll_snapshotAll staging.engine
  have swept := (staging.engine.snapshotAll_ages).same_view upto
  funext key
  calc
    (store.replaceAll staging.rawEntries.1).view time key
      = shown time (staging.engine.snapshotAll.2.lookup key) := congrArg (shown time) (congrFun slots key)
    _ = staging.view time key := congrFun swept key

end OnyxDB.Store
