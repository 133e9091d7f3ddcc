import OnyxDB.Engine.Shard

/-! The engine: sixty-four shards, the key counter they share, and operations across them. The locks
of the source serialise operations; here an operation runs on the whole engine at once. -/

namespace OnyxDB.Engine
open OnyxDB.Engine.Value

structure OnyxEngine where
  shards : (index : Fin numShards) → Shard index
  totalKeys : Nat
  snapshotActive : Bool
  clock : Clock

def OnyxEngine.new (clock : Clock) : OnyxEngine := ⟨Shard.new, 0, false, clock⟩

namespace OnyxEngine

/-- Runs an operation while the lock of one shard is held. -/
def withShard {α : Type} (engine : OnyxEngine) (index : Fin numShards)
    (operation : Guard index → α × Guard index) : α × OnyxEngine :=
  let (result, guard) := operation ⟨engine.shards index, engine.totalKeys, engine.clock⟩
  (result, { engine with
    shards := Function.update engine.shards index guard.shard
    totalKeys := guard.totalKeys
    clock := guard.clock })

def withKey {α : Type} (engine : OnyxEngine) (key : Bytes)
    (operation : (index : Fin numShards) → Key index → Guard index → α × Guard index) :
    α × OnyxEngine :=
  engine.withShard (shardForKey key) (operation (shardForKey key) (.home key))

/-- Runs an operation on the listed shards in turn and collects the results. -/
def runShards {α : Type} (operation : (index : Fin numShards) → Guard index → α × Guard index) :
    List (Fin numShards) → OnyxEngine → List α × OnyxEngine
  | [], engine => ([], engine)
  | index :: rest, engine =>
      let first := engine.withShard index (operation index)
      let others := runShards operation rest first.2
      (first.1 :: others.1, others.2)

/-- Runs an operation on every shard in index order. -/
def forShards {α : Type} (engine : OnyxEngine)
    (operation : (index : Fin numShards) → Guard index → α × Guard index) : List α × OnyxEngine :=
  runShards operation (List.finRange numShards) engine

def unixSeconds (engine : OnyxEngine) : Nat × OnyxEngine :=
  (engine.clock.now, { engine with clock := engine.clock.tick })

def physicalKeyCount (engine : OnyxEngine) : Nat := engine.totalKeys

variable [Platform]

def get (engine : OnyxEngine) (key : Bytes) : Option DataEntry × OnyxEngine :=
  engine.withKey key (fun _ key guard => guard.get key)

/-- Reads an entry without updating its access time. -/
def peek (engine : OnyxEngine) (key : Bytes) : Option DataEntry × OnyxEngine :=
  engine.withKey key (fun _ key guard =>
    let (_, guard) := guard.purgeNow key
    (guard.lookup key, guard))

/-- Whether an expiry has been reached; the clock is read only if there is one. -/
def expiryReached {index : Fin numShards} (guard : Guard index) (expiry : Option Nat) :
    Bool × Guard index :=
  match expiry with
  | none => (false, guard)
  | some moment =>
      let (now, guard) := guard.unixSeconds
      (decide (moment ≤ now), guard)

/-- Installs an entry as a committed effect describes it; one that has expired removes the key. -/
def applyEntry (engine : OnyxEngine) (key : Bytes) (entry : DataEntry) : Option DataEntry × OnyxEngine :=
  engine.withKey key (fun _ key guard =>
    let (_, guard) := guard.purgeNow key
    let (past, guard) := expiryReached guard entry.expiresAt
    match past with
    | true => guard.remove key
    | false => guard.insert key entry)

/-- Empties a shard for `replace_all`. -/
def clearShard {index : Fin numShards} (guard : Guard index) : Unit × Guard index :=
  let (timestamp, guard) := guard.unixSeconds
  ((), { guard with shard := { guard.shard with
    data := .flat ∅
    memBytes := 0
    keyCount := 0
    opCount := guard.shard.opCount + 1
    lastModified := timestamp } })

def insertAll (engine : OnyxEngine) (entries : List (Bytes × DataEntry)) : OnyxEngine :=
  entries.foldl (fun engine entry =>
    (engine.withKey entry.1 (fun _ key guard => guard.insert key entry.2)).2) engine

/-- Replaces the complete dataset. The source refuses this during a snapshot epoch. -/
def replaceAll (engine : OnyxEngine) (entries : List (Bytes × DataEntry)) : OnyxEngine :=
  let (_, engine) := engine.forShards (fun _ guard => clearShard guard)
  { engine with totalKeys := 0 }.insertAll entries

def set (engine : OnyxEngine) (key : Bytes) (value : OnyxValue) (expires : Option Nat) :
    Option DataEntry × OnyxEngine :=
  engine.withKey key (fun _ key guard =>
    let (_, guard) := guard.purgeNow key
    let (past, guard) := expiryReached guard expires
    match past with
    | true => guard.remove key
    | false =>
        let (created, guard) := guard.unixSeconds
        let (accessed, guard) := guard.unixSeconds
        guard.insert key ⟨value, expires, created, accessed⟩)

def delete (engine : OnyxEngine) (key : Bytes) : Bool × OnyxEngine :=
  let (removed, engine) := engine.withKey key (fun _ key guard => guard.remove key)
  (removed.isSome, engine)

def read {α : Type} (engine : OnyxEngine) (key : Bytes) (inspect : DataEntry → α) : Option α × OnyxEngine :=
  engine.withKey key (fun _ key guard => guard.read key inspect)

def updateIfExistsWithAction {α : Type} (engine : OnyxEngine) (key : Bytes)
    (mutate : OnyxValue → EntryMutation α × OnyxValue) : Option α × OnyxEngine :=
  engine.withKey key (fun _ key guard => guard.updateIfExistsWithAction key mutate)

def updateIfExists {α : Type} (engine : OnyxEngine) (key : Bytes) (mutate : OnyxValue → α × OnyxValue) :
    Option α × OnyxEngine :=
  engine.updateIfExistsWithAction key (fun value => (.keep (mutate value).1, (mutate value).2))

def updateEntryOrInsertWithPresence {α : Type} (engine : OnyxEngine) (key : Bytes) (default : OnyxValue)
    (mutate : DataEntry → Bool → α × DataEntry) : α × OnyxEngine :=
  engine.withKey key (fun _ key guard => guard.updateEntryOrInsertWithPresence key default mutate)

def updateOrInsertWithPresence {α : Type} (engine : OnyxEngine) (key : Bytes) (default : OnyxValue)
    (mutate : OnyxValue → Bool → α × OnyxValue) : α × OnyxEngine :=
  engine.updateEntryOrInsertWithPresence key default (fun entry existed =>
    ((mutate entry.value existed).1, { entry with value := (mutate entry.value existed).2 }))

def updateOrInsert {α : Type} (engine : OnyxEngine) (key : Bytes) (default : OnyxValue)
    (mutate : OnyxValue → α × OnyxValue) : α × OnyxEngine :=
  engine.updateOrInsertWithPresence key default (fun value _ => mutate value)

def setExpiryConditional (engine : OnyxEngine) (key : Bytes) (timestamp : Nat)
    (requireExpiry : Option Bool) : Bool × OnyxEngine :=
  engine.withKey key (fun _ key guard => guard.setExpiryConditional key timestamp requireExpiry)

def setExpiry (engine : OnyxEngine) (key : Bytes) (timestamp : Nat) : Bool × OnyxEngine :=
  engine.setExpiryConditional key timestamp none

/-- `some true` asks for an absent key (NX), `some false` for a present one (XX). -/
def setConditional (engine : OnyxEngine) (key : Bytes) (value : OnyxValue) (expiresAt : Option Nat)
    (condition : Option Bool) : Bool × OnyxEngine :=
  engine.withKey key (fun _ key guard =>
    let (_, guard) := guard.purgeNow key
    let exist := (guard.lookup key).isSome
    let allowed := match condition with
      | some true => !exist
      | some false => exist
      | none => true
    match allowed with
    | true =>
        let (timestamp, guard) := guard.unixSeconds
        (true, (guard.insert key ⟨value, expiresAt, timestamp, timestamp⟩).2)
    | false => (false, guard))

def setIfAbsent (engine : OnyxEngine) (key : Bytes) (value : OnyxValue) : Bool × OnyxEngine :=
  engine.withKey key (fun _ key guard =>
    let (timestamp, guard) := guard.unixSeconds
    guard.insertIfAbsent key ⟨value, none, timestamp, timestamp⟩)

/-- Moves an entry. The branches of the source differ in how they lock the two shards. -/
def rename (engine : OnyxEngine) (source target : Bytes) : Bool × OnyxEngine :=
  match engine.withKey source (fun _ key guard => guard.remove key) with
  | (some entry, engine) =>
      (true, (engine.withKey target (fun _ key guard => guard.insert key entry)).2)
  | (none, engine) => (false, engine)

/-- Copies value and expiry. The branches of the source differ in how they lock the two shards. -/
def copy (engine : OnyxEngine) (source target : Bytes) : Bool × OnyxEngine :=
  let (timestamp, engine) := engine.unixSeconds
  match engine.withKey source (fun _ key guard =>
      let (_, guard) := guard.purgeIfExpired key timestamp
      (guard.lookup key, guard)) with
  | (none, engine) => (false, engine)
  | (some entry, engine) =>
      if source = target then (true, engine)
      else
        (true, (engine.withKey target (fun _ key guard =>
          guard.insert key ⟨entry.value, entry.expiresAt, timestamp, timestamp⟩)).2)

/-- Reads keys of one shard, each for the position it was asked at. -/
def getAll {index : Fin numShards} (guard : Guard index) :
    List (Nat × Key index) → List (Nat × Option DataEntry) × Guard index
  | [] => ([], guard)
  | (position, key) :: rest =>
      let (entry, guard) := guard.get key
      let (entries, guard) := getAll guard rest
      ((position, entry) :: entries, guard)

/-- The requested keys of one shard with their positions. -/
def keysOfShard (keys : List Bytes) (index : Fin numShards) : List (Nat × Key index) :=
  keys.zipIdx.filterMap (fun request =>
    if home : shardForKey request.1 = index then some (request.2, ⟨request.1, home⟩) else none)

/-- Reads several keys, shard by shard; every answer goes to the position of its key. -/
def mget (engine : OnyxEngine) (keys : List Bytes) : List (Option DataEntry) × OnyxEngine :=
  let (found, engine) := engine.forShards (fun index guard => getAll guard (keysOfShard keys index))
  (found.flatten.foldl (fun results answer => results.set answer.1 answer.2)
    (List.replicate keys.length none), engine)

def allKeys (engine : OnyxEngine) : List Bytes × OnyxEngine :=
  let (keys, engine) := engine.forShards (fun _ guard =>
    let (_, guard) := guard.expireKeys
    (guard.shard.data.visit.map (fun entry => entry.1.1), guard))
  (keys.flatten, engine)

/-- The entries of a shard that have not expired. -/
def liveEntries {index : Fin numShards} (guard : Guard index) : List (Bytes × DataEntry) × Guard index :=
  let (_, guard) := guard.expireKeys
  (guard.shard.data.visit.map (fun entry => (entry.1.1, entry.2)), guard)

/-- Every entry that has not expired, for snapshots and full synchronisation. -/
def snapshotAll (engine : OnyxEngine) : List (Bytes × DataEntry) × OnyxEngine :=
  let (entries, engine) := engine.forShards (fun _ guard => liveEntries guard)
  (entries.flatten, engine)

structure EngineStats where
  totalKeys : Nat
  totalOps : Nat
  numShards : Nat
  deriving DecidableEq, Repr

def stats (engine : OnyxEngine) : EngineStats × OnyxEngine :=
  let (counts, engine) := engine.forShards (fun _ guard =>
    let (_, guard) := guard.expireKeys
    ((guard.shard.keyCount, guard.shard.opCount), guard))
  (⟨(counts.map Prod.fst).sum, (counts.map Prod.snd).sum, OnyxDB.Engine.numShards⟩, engine)

def totalMemoryBytes (engine : OnyxEngine) : Nat × OnyxEngine :=
  let (sizes, engine) := engine.forShards (fun _ guard =>
    let (_, guard) := guard.expireKeys
    (guard.shard.memBytes, guard))
  (sizes.sum, engine)

/-- Removes expired keys from every shard and returns their number. -/
def gcExpired (engine : OnyxEngine) : Nat × OnyxEngine :=
  let (counts, engine) := engine.forShards (fun _ guard => guard.expireKeys)
  (counts.sum, engine)

/-- The shard with the lowest score among the candidates of all shards, the first one on ties. -/
def bestCandidate (engine : OnyxEngine) (policy : EvictionPolicy) (protectedKeys : List Bytes) :
    Option ((index : Fin numShards) × Key index × Nat) :=
  (List.finRange numShards).foldl (fun best index =>
    match (engine.shards index).evictionCandidate policy protectedKeys
        (engine.clock.nanos index.val) with
    | none => best
    | some (key, score) =>
        match best with
        | none => some ⟨index, key, score⟩
        | some ⟨_, _, bestScore⟩ => if score < bestScore then some ⟨index, key, score⟩ else best)
    none

/-- The eviction loop. Every pass removes an entry that is physically present, so `fuel` above their
number is never exhausted. -/
def evictLoop (maxmemoryBytes : Nat) (policy : EvictionPolicy) (protectedKeys : List Bytes) :
    Nat → OnyxEngine → List (Bytes × DataEntry) → List (Bytes × DataEntry) × OnyxEngine
  | 0, engine, evicted => (evicted, engine)
  | fuel + 1, engine, evicted =>
      match engine.totalMemoryBytes with
      | (used, engine) =>
          if used ≤ maxmemoryBytes then (evicted, engine)
          else
            match engine.bestCandidate policy protectedKeys with
            | none => (evicted, engine)
            | some ⟨index, key, _⟩ =>
                let clock := { engine.clock with
                  nanos := fun next => engine.clock.nanos (next + numShards) }
                match { engine with clock := clock }.withShard index (fun guard => guard.remove key) with
                | (some entry, engine) =>
                    evictLoop maxmemoryBytes policy protectedKeys fuel engine
                      (evicted ++ [(key.1, entry)])
                | (none, engine) =>
                    evictLoop maxmemoryBytes policy protectedKeys fuel engine evicted

/-- The number of entries physically present. -/
def physicalEntries (engine : OnyxEngine) : Nat :=
  ((List.finRange numShards).map (fun index => (engine.shards index).data.visit.length)).sum

def evictToFit (engine : OnyxEngine) (maxmemoryBytes : Nat) (policy : EvictionPolicy)
    (protectedKeys : List Bytes) : List (Bytes × DataEntry) × OnyxEngine :=
  if policy = .noEviction ∨ maxmemoryBytes = 0 then ([], engine)
  else evictLoop maxmemoryBytes policy protectedKeys (engine.physicalEntries + 1) engine []

end OnyxEngine

end OnyxDB.Engine
