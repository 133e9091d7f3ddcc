import OnyxDB.Engine.Clock
import OnyxDB.Engine.Platform
import OnyxDB.Library.AssociationList
import OnyxDB.Library.Expiring

/-! One shard of the engine. The key type of a shard holds only the keys that hash to it, so an entry
cannot be stored in the wrong place. Operations run while the shard's lock is held, on a `Guard`
that also owns the engine's key counter and the clock. -/

namespace OnyxDB.Engine
open OnyxDB.Library OnyxDB.Engine.Value

def numShards : Nat := 64

/-- FNV-1a over 64 bits. -/
def hashKey (key : Bytes) : UInt64 :=
  key.foldl (fun hash byte => (hash ^^^ byte.toUInt64) * 0x100000001b3) 0xcbf29ce484222325

def shardForKey (key : Bytes) : Fin numShards :=
  ⟨(hashKey key).toNat % numShards, Nat.mod_lt _ (by decide)⟩

/-- The keys that belong to a shard. -/
abbrev Key (index : Fin numShards) := { key : Bytes // shardForKey key = index }

/-- A key as one of its own shard. -/
abbrev Key.home (key : Bytes) : Key (shardForKey key) := ⟨key, rfl⟩

/-- What is left of a slot once it is checked for expiry at `timestamp`. -/
def fresh (timestamp : Nat) (slot : Option DataEntry) : Option DataEntry :=
  Expiring.live (fun time entry => entry.expired time) timestamp slot

/-- What a slot shows at `time`: the persistent part of its entry, unless that has expired. -/
def shown (time : Nat) (slot : Option DataEntry) : Option PersistentEntry :=
  (fresh time slot).map PersistentEntry.ofDataEntry

/-- Bytes of a value in the engine's accounting. Sizes are sums over what fits in memory, where the
source's saturation at `usize::MAX` is out of reach. -/
def approxValueSize [Platform] : OnyxValue → Nat
  | .blob bytes => bytes.length
  | .int _ => 8
  | .float _ => 8
  | .list items => (items.map (fun item => item.length + 8)).sum
  | .hash fields => (fields.entries.map (fun field => field.1.length + field.2.length + 16)).sum
  | .set members => (members.members.map (fun member => member.length + 8)).sum
  | .json document => (utf8Bytes (Platform.jsonToString document)).length
  | .vector components => components.length * 4

def approxEntrySize [Platform] (key : Bytes) (entry : DataEntry) : Nat :=
  key.length + approxValueSize entry.value + 64

/-- The entries of a shard. During a snapshot epoch the base is immutable and live writes record
only the keys they change. -/
inductive ShardData (index : Fin numShards) where
  | flat (data : AList (fun _ : Key index => DataEntry))
  | snapshot (base : AList (fun _ : Key index => DataEntry))
      (changes : AList (fun _ : Key index => Option DataEntry))

namespace ShardData
variable {index : Fin numShards}

def get (data : ShardData index) (key : Key index) : Option DataEntry :=
  match data with
  | .flat data => data.lookup key
  | .snapshot base changes =>
      match changes.lookup key with
      | some change => change
      | none => base.lookup key

/-- `get_mut` followed by an assignment through the reference it returns. -/
def update (data : ShardData index) (key : Key index) (change : DataEntry → DataEntry) :
    ShardData index :=
  match data with
  | .flat data =>
      match data.lookup key with
      | some entry => .flat (data.replace key (change entry))
      | none => .flat data
  | .snapshot base changes =>
      .snapshot base (changes.insert key ((ShardData.snapshot base changes).get key |>.map change))

def insert (data : ShardData index) (key : Key index) (entry : DataEntry) :
    Option DataEntry × ShardData index :=
  match data with
  | .flat data => (data.lookup key, .flat (data.insert key entry))
  | .snapshot base changes =>
      ((ShardData.snapshot base changes).get key, .snapshot base (changes.insert key (some entry)))

def remove (data : ShardData index) (key : Key index) : Option DataEntry × ShardData index :=
  match data with
  | .flat data => (data.lookup key, .flat (data.erase key))
  | .snapshot base changes =>
      match (ShardData.snapshot base changes).get key with
      | some previous => (some previous, .snapshot base (changes.insert key none))
      | none => (none, .snapshot base changes)

/-- The entries in the order `visit` passes over them. -/
def visit (data : ShardData index) : List (Key index × DataEntry) :=
  match data with
  | .flat data => data.entries.map (fun entry => (entry.1, entry.2))
  | .snapshot base changes =>
      changes.entries.filterMap (fun change => change.2.map (fun entry => (change.1, entry))) ++
        (base.entries.filter (fun entry => !(changes.lookup entry.1).isSome)).map
          (fun entry => (entry.1, entry.2))

@[simp]
theorem get_insert (data : ShardData index) (key : Key index) (entry : DataEntry) :
    (data.insert key entry).2.get = Function.update data.get key (some entry) := by
  funext other
  by_cases same : other = key
  · subst same
    cases data <;> simp [insert, get]
  · cases data <;> simp [insert, get, same, AList.lookup_insert_ne]

@[simp]
theorem insert_fst (data : ShardData index) (key : Key index) (entry : DataEntry) :
    (data.insert key entry).1 = data.get key := by
  cases data <;> rfl

@[simp]
theorem get_remove (data : ShardData index) (key : Key index) :
    (data.remove key).2.get = Function.update data.get key none := by
  funext other
  by_cases same : other = key
  · subst same
    cases data with
    | flat data => simp [remove, get]
    | snapshot base changes =>
        simp only [remove]
        cases held : (ShardData.snapshot base changes).get other with
        | none => simp [held]
        | some previous => simp [get]
  · cases data with
    | flat data => simp [remove, get, same, AList.lookup_erase_ne]
    | snapshot base changes =>
        simp only [remove]
        cases held : (ShardData.snapshot base changes).get key with
        | none => simp [same]
        | some previous => simp [get, same, AList.lookup_insert_ne]

@[simp]
theorem remove_fst (data : ShardData index) (key : Key index) :
    (data.remove key).1 = data.get key := by
  cases data with
  | flat data => rfl
  | snapshot base changes =>
      simp only [remove]
      cases held : (ShardData.snapshot base changes).get key with
      | none => rfl
      | some previous => rfl

@[simp]
theorem get_update (data : ShardData index) (key : Key index) (change : DataEntry → DataEntry) :
    (data.update key change).get = Function.update data.get key ((data.get key).map change) := by
  funext other
  by_cases same : other = key
  · subst same
    cases data with
    | flat data =>
        cases held : data.lookup other with
        | none => simp [update, get, held]
        | some entry => simp [update, get, held, lookup_replace_self]
    | snapshot base changes => simp [update, get]
  · cases data with
    | flat data =>
        cases held : data.lookup key with
        | none => simp [update, get, held, same]
        | some entry => simp [update, get, held, same, lookup_replace_ne]
    | snapshot base changes => simp [update, get, same, AList.lookup_insert_ne]

theorem mem_visit (data : ShardData index) (key : Key index) (entry : DataEntry) :
    (key, entry) ∈ data.visit ↔ data.get key = some entry := by
  cases data with
  | flat data =>
      simp only [visit, get, List.mem_map, Prod.mk.injEq]
      rw [← Option.mem_def, AList.mem_lookup_iff]
      constructor
      · rintro ⟨⟨_, _⟩, member, rfl, rfl⟩
        exact member
      · intro member
        exact ⟨⟨key, entry⟩, member, rfl, rfl⟩
  | snapshot base changes =>
      simp only [visit, get, List.mem_append, List.mem_filterMap, List.mem_map, List.mem_filter]
      cases change : changes.lookup key with
      | some slot =>
          have recorded : ⟨key, slot⟩ ∈ changes.entries := AList.mem_lookup_iff.mp change
          constructor
          · rintro (⟨⟨other, held⟩, member, mapped⟩ | ⟨⟨other, held⟩, ⟨_, unchanged⟩, mapped⟩)
            · obtain ⟨value, rfl, same⟩ := Option.map_eq_some_iff.mp mapped
              cases same
              have found := AList.mem_lookup_iff.mpr member
              rw [Option.mem_def, change] at found
              exact Option.some.inj found
            · cases mapped
              simp [change] at unchanged
          · rintro rfl
            exact Or.inl ⟨⟨key, some entry⟩, recorded, rfl⟩
      | none =>
          constructor
          · rintro (⟨⟨other, held⟩, member, mapped⟩ | ⟨⟨other, held⟩, ⟨member, _⟩, mapped⟩)
            · obtain ⟨value, rfl, same⟩ := Option.map_eq_some_iff.mp mapped
              cases same
              have found := AList.mem_lookup_iff.mpr member
              rw [Option.mem_def, change] at found
              cases found
            · cases mapped
              exact AList.mem_lookup_iff.mpr member
          · intro found
            exact Or.inr ⟨⟨key, entry⟩, ⟨AList.mem_lookup_iff.mp found, by simp [change]⟩, rfl⟩

private theorem keys_filterMap_sublist (changes : List (Sigma fun _ : Key index => Option DataEntry)) :
    ((changes.filterMap (fun change => change.2.map (fun entry => (change.1, entry)))).map
      Prod.fst).Sublist changes.keys := by
  induction changes with
  | nil => exact List.Sublist.slnil
  | cons change changes rest =>
      obtain ⟨key, slot⟩ := change
      cases slot with
      | none => exact rest.cons key
      | some entry => exact rest.cons_cons key

theorem visit_nodup (data : ShardData index) : (data.visit.map Prod.fst).Nodup := by
  cases data with
  | flat data =>
      have keys : (ShardData.flat data).visit.map Prod.fst = data.entries.keys := by
        simp [visit, List.keys, Function.comp_def]
      rw [keys]
      exact data.nodupKeys
  | snapshot base changes =>
      simp only [visit, List.map_append, List.map_map]
      rw [List.nodup_append]
      refine ⟨List.Nodup.sublist (keys_filterMap_sublist changes.entries) changes.nodupKeys, ?_, ?_⟩
      · have kept : (base.entries.filter
            (fun entry => !(changes.lookup entry.1).isSome)).keys.Sublist base.entries.keys :=
          List.filter_sublist.map _
        exact List.Nodup.sublist kept base.nodupKeys
      · intro first changed second unchanged same
        subst same
        have recorded := (keys_filterMap_sublist changes.entries).mem changed
        obtain ⟨⟨key, entry⟩, member, rfl⟩ := List.mem_map.mp unchanged
        have absent := (List.mem_filter.mp member).2
        have present : (changes.lookup key).isSome := AList.lookup_isSome.mpr recorded
        simp [present] at absent

end ShardData

structure Shard (index : Fin numShards) where
  data : ShardData index
  opCount : Nat
  lastModified : Nat
  memBytes : Nat
  keyCount : Nat

def Shard.new (index : Fin numShards) : Shard index := ⟨.flat ∅, 0, 0, 0, 0⟩

/-- What `update_if_exists_with_action` does with the entry after its closure has run. -/
inductive EntryMutation (α : Type) where
  | keep (result : α)
  | delete (result : α)

def EntryMutation.result {α : Type} : EntryMutation α → α
  | .keep result => result
  | .delete result => result

inductive EvictionPolicy where
  | noEviction
  | allKeysLru
  | volatileLru
  | allKeysRandom
  | volatileRandom
  deriving DecidableEq, Repr

/-- `cheap_random_index`, from the nanoseconds the clock shows. -/
def cheapRandomIndex (nanos len : Nat) : Nat :=
  if len = 0 then 0 else nanos * 2654435761 % 2 ^ 64 % len

/-- A locked shard. -/
structure Guard (index : Fin numShards) where
  shard : Shard index
  totalKeys : Nat
  clock : Clock

namespace Guard
variable {index : Fin numShards}

def lookup (guard : Guard index) : Key index → Option DataEntry := guard.shard.data.get

/-- `unix_seconds`. -/
def unixSeconds (guard : Guard index) : Nat × Guard index :=
  (guard.clock.now, { guard with clock := guard.clock.tick })

variable [Platform]

/-- The accounting of a removed entry. -/
def recordKeyRemoval (guard : Guard index) (key : Key index) (entry : DataEntry) : Guard index :=
  { guard with
    shard := { guard.shard with
      memBytes := guard.shard.memBytes - approxEntrySize key entry
      keyCount := guard.shard.keyCount - 1 }
    totalKeys := guard.totalKeys - 1 }

def removeEntry (guard : Guard index) (key : Key index) : Option DataEntry × Guard index :=
  let (removed, data) := guard.shard.data.remove key
  let guard := { guard with shard := { guard.shard with data := data } }
  match removed with
  | some entry => (some entry, guard.recordKeyRemoval key entry)
  | none => (none, guard)

def purgeIfExpired (guard : Guard index) (key : Key index) (timestamp : Nat) : Bool × Guard index :=
  match guard.lookup key with
  | some entry =>
      if entry.expired timestamp then (true, (guard.removeEntry key).2) else (false, guard)
  | none => (false, guard)

/-- Reads the clock and purges the key; the reading is returned for later use. -/
def purgeNow (guard : Guard index) (key : Key index) : Nat × Guard index :=
  let (timestamp, guard) := guard.unixSeconds
  (timestamp, (guard.purgeIfExpired key timestamp).2)

def get (guard : Guard index) (key : Key index) : Option DataEntry × Guard index :=
  let (timestamp, guard) := guard.purgeNow key
  match guard.lookup key with
  | some entry =>
      (some { entry with lastAccessed := timestamp },
        { guard with shard := { guard.shard with
            data := guard.shard.data.update key
              (fun entry => { entry with lastAccessed := timestamp }) } })
  | none => (none, guard)

def insert (guard : Guard index) (key : Key index) (entry : DataEntry) :
    Option DataEntry × Guard index :=
  let (timestamp, guard) := guard.unixSeconds
  let (old, data) := guard.shard.data.insert key entry
  let shard := { guard.shard with
    data := data, opCount := guard.shard.opCount + 1, lastModified := timestamp }
  match old with
  | none =>
      (none, { guard with
        shard := { shard with
          keyCount := shard.keyCount + 1
          memBytes := shard.memBytes + approxEntrySize key entry }
        totalKeys := guard.totalKeys + 1 })
  | some oldEntry =>
      (some oldEntry, { guard with
        shard := { shard with
          memBytes := shard.memBytes - approxEntrySize key oldEntry + approxEntrySize key entry } })

def remove (guard : Guard index) (key : Key index) : Option DataEntry × Guard index :=
  let (timestamp, guard) := guard.unixSeconds
  match guard.purgeIfExpired key timestamp with
  | (true, guard) => (none, guard)
  | (false, guard) =>
      let (timestamp, guard) := guard.unixSeconds
      { guard with shard := { guard.shard with
          opCount := guard.shard.opCount + 1, lastModified := timestamp } }.removeEntry key

def removeAll (guard : Guard index) : List (Key index) → Guard index
  | [] => guard
  | key :: rest => (guard.removeEntry key).2.removeAll rest

/-- Removes expired keys and returns their number. -/
def expireKeys (guard : Guard index) : Nat × Guard index :=
  let (now, guard) := guard.unixSeconds
  let expired := (guard.shard.data.visit.filter (fun entry => entry.2.expired now)).map Prod.fst
  (expired.length, guard.removeAll expired)

def read {α : Type} (guard : Guard index) (key : Key index) (inspect : DataEntry → α) :
    Option α × Guard index :=
  let (entry, guard) := guard.get key
  (entry.map inspect, guard)

def updateIfExistsWithAction {α : Type} (guard : Guard index) (key : Key index)
    (mutate : OnyxValue → EntryMutation α × OnyxValue) : Option α × Guard index :=
  let (timestamp, guard) := guard.purgeNow key
  match guard.lookup key with
  | none => (none, guard)
  | some entry =>
      let oldSize := approxEntrySize key entry
      let (action, value) := mutate entry.value
      let updated := { entry with lastAccessed := timestamp, value := value }
      let shard := { guard.shard with
        data := guard.shard.data.update key (fun _ => updated)
        opCount := guard.shard.opCount + 1
        lastModified := timestamp }
      match action with
      | .delete result =>
          (some result, { guard with
            shard := { shard with
              data := (shard.data.remove key).2
              memBytes := shard.memBytes - oldSize
              keyCount := shard.keyCount - 1 }
            totalKeys := guard.totalKeys - 1 })
      | .keep result =>
          (some result, { guard with
            shard := { shard with
              memBytes := shard.memBytes - oldSize + approxEntrySize key updated } })

def updateIfExists {α : Type} (guard : Guard index) (key : Key index)
    (mutate : OnyxValue → α × OnyxValue) : Option α × Guard index :=
  guard.updateIfExistsWithAction key (fun value =>
    let (result, value) := mutate value
    (.keep result, value))

/-- Mutates an entry in place, after inserting `default` when the key is absent. -/
def updateEntryOrInsertWithPresence {α : Type} (guard : Guard index) (key : Key index)
    (default : OnyxValue) (mutate : DataEntry → Bool → α × DataEntry) : α × Guard index :=
  let (timestamp, guard) := guard.purgeNow key
  let shard := { guard.shard with
    opCount := guard.shard.opCount + 1, lastModified := timestamp }
  match guard.lookup key with
  | some entry =>
      let oldSize := approxEntrySize key entry
      let (result, updated) := mutate { entry with lastAccessed := timestamp } true
      (result, { guard with
        shard := { shard with
          data := shard.data.update key (fun _ => updated)
          memBytes := shard.memBytes - oldSize + approxEntrySize key updated } })
  | none =>
      let (result, updated) := mutate ⟨default, none, timestamp, timestamp⟩ false
      (result, { guard with
        shard := { shard with
          data := (shard.data.insert key updated).2
          keyCount := shard.keyCount + 1
          memBytes := shard.memBytes + approxEntrySize key updated }
        totalKeys := guard.totalKeys + 1 })

/-- Updates the expiry of an existing key; an expiry that has already passed removes the key. A key
that was purged is absent, which covers the early return of the source. -/
def setExpiryConditional (guard : Guard index) (key : Key index) (timestamp : Nat)
    (requireExpiry : Option Bool) : Bool × Guard index :=
  let (current, guard) := guard.purgeNow key
  match guard.lookup key with
  | none => (false, guard)
  | some entry =>
      if requireExpiry.any (fun required => required != entry.expiresAt.isSome) then (false, guard)
      else if timestamp ≤ current then
        let (removed, guard) := guard.remove key
        (removed.isSome, guard)
      else
        let (modified, guard) := guard.unixSeconds
        (true, { guard with shard := { guard.shard with
          data := guard.shard.data.update key
            (fun entry => { entry with expiresAt := some timestamp })
          opCount := guard.shard.opCount + 1
          lastModified := modified } })

def insertIfAbsent (guard : Guard index) (key : Key index) (entry : DataEntry) :
    Bool × Guard index :=
  let (_, guard) := guard.purgeNow key
  match guard.lookup key with
  | some _ => (false, guard)
  | none =>
      let (timestamp, guard) := guard.unixSeconds
      (true, { guard with
        shard := { guard.shard with
          data := (guard.shard.data.insert key entry).2
          opCount := guard.shard.opCount + 1
          lastModified := timestamp
          memBytes := guard.shard.memBytes + approxEntrySize key entry
          keyCount := guard.shard.keyCount + 1 }
        totalKeys := guard.totalKeys + 1 })

end Guard

namespace Shard
variable {index : Fin numShards}

/-- Whether a key may be evicted: it is not protected, and volatile policies want an expiry. -/
def eligible (policy : EvictionPolicy) (protectedKeys : List Bytes) (entry : Key index × DataEntry) :
    Bool :=
  let onlyVolatile := policy = .volatileLru ∨ policy = .volatileRandom
  decide (entry.1.1 ∉ protectedKeys) && (!decide onlyVolatile || entry.2.expiresAt.isSome)

/-- The shard's candidate for eviction with its score; random policies consume the nanoseconds of
one clock reading. -/
def evictionCandidate (shard : Shard index) (policy : EvictionPolicy) (protectedKeys : List Bytes)
    (nanos : Nat) : Option (Key index × Nat) :=
  let candidates := shard.data.visit.filter (eligible policy protectedKeys)
  if policy = .allKeysRandom ∨ policy = .volatileRandom then
    (candidates[cheapRandomIndex nanos candidates.length]?).map (fun entry => (entry.1, 0))
  else
    candidates.foldl (fun selected entry =>
      match selected with
      | some (_, score) =>
          if entry.2.lastAccessed < score then some (entry.1, entry.2.lastAccessed) else selected
      | none => some (entry.1, entry.2.lastAccessed)) none

end Shard

end OnyxDB.Engine
