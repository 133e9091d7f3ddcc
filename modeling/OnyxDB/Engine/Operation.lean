import OnyxDB.Engine.SnapshotEpoch

/-! The operations of the engine as data, so that runs of any length and mixture can be spoken about. -/

namespace OnyxDB.Engine
open OnyxDB.Engine.Value

/-- The methods of a locked shard, by the type of what they return. -/
inductive Method (index : Fin numShards) : Type → Type 1 where
  | purgeIfExpired (key : Key index) (timestamp : Nat) : Method index Bool
  | get (key : Key index) : Method index (Option DataEntry)
  | insert (key : Key index) (entry : DataEntry) : Method index (Option DataEntry)
  | remove (key : Key index) : Method index (Option DataEntry)
  | expireKeys : Method index Nat
  | updateIfExistsWithAction {α : Type} (key : Key index)
      (mutate : OnyxValue → EntryMutation α × OnyxValue) : Method index (Option α)
  | updateEntryOrInsertWithPresence {α : Type} (key : Key index) (default : OnyxValue)
      (mutate : DataEntry → Bool → α × DataEntry) : Method index α
  | setExpiryConditional (key : Key index) (timestamp : Nat) (requireExpiry : Option Bool) :
      Method index Bool
  | insertIfAbsent (key : Key index) (entry : DataEntry) : Method index Bool

/-- The operations that answer from the map and change it. -/
inductive Operation : Type → Type 1 where
  | get (key : Bytes) : Operation (Option DataEntry)
  | peek (key : Bytes) : Operation (Option DataEntry)
  | set (key : Bytes) (value : OnyxValue) (expires : Option Nat) : Operation (Option DataEntry)
  | setConditional (key : Bytes) (value : OnyxValue) (expiresAt : Option Nat) (condition : Option Bool) :
      Operation Bool
  | setIfAbsent (key : Bytes) (value : OnyxValue) : Operation Bool
  | applyEntry (key : Bytes) (entry : DataEntry) : Operation (Option DataEntry)
  | delete (key : Bytes) : Operation Bool
  | read {α : Type} (key : Bytes) (inspect : DataEntry → α) : Operation (Option α)
  | updateIfExists {α : Type} (key : Bytes) (mutate : OnyxValue → α × OnyxValue) : Operation (Option α)
  | updateIfExistsWithAction {α : Type} (key : Bytes)
      (mutate : OnyxValue → EntryMutation α × OnyxValue) : Operation (Option α)
  | updateOrInsert {α : Type} (key : Bytes) (default : OnyxValue) (mutate : OnyxValue → α × OnyxValue) :
      Operation α
  | updateOrInsertWithPresence {α : Type} (key : Bytes) (default : OnyxValue)
      (mutate : OnyxValue → Bool → α × OnyxValue) : Operation α
  | updateEntryOrInsertWithPresence {α : Type} (key : Bytes) (default : OnyxValue)
      (mutate : DataEntry → Bool → α × DataEntry) : Operation α
  | setExpiry (key : Bytes) (timestamp : Nat) : Operation Bool
  | setExpiryConditional (key : Bytes) (timestamp : Nat) (requireExpiry : Option Bool) : Operation Bool
  | rename (source target : Bytes) : Operation Bool
  | copy (source target : Bytes) : Operation Bool
  | mget (keys : List Bytes) : Operation (List (Option DataEntry))
  | allKeys : Operation (List Bytes)
  | snapshotAll : Operation (List (Bytes × DataEntry))
  | gcExpired : Operation Nat

/-- The operations around the limits of the dataset and its replacement. -/
inductive Upkeep where
  | stats
  | totalMemoryBytes
  | evictToFit (maxmemoryBytes : Nat) (policy : EvictionPolicy) (protectedKeys : List Bytes)
  | replaceAll (entries : List (Bytes × DataEntry))

variable [Platform]

def Method.run {index : Fin numShards} {α : Type} : Method index α → Guard index → α × Guard index
  | .purgeIfExpired key timestamp, guard => guard.purgeIfExpired key timestamp
  | .get key, guard => guard.get key
  | .insert key entry, guard => guard.insert key entry
  | .remove key, guard => guard.remove key
  | .expireKeys, guard => guard.expireKeys
  | .updateIfExistsWithAction key mutate, guard => guard.updateIfExistsWithAction key mutate
  | .updateEntryOrInsertWithPresence key default mutate, guard =>
      guard.updateEntryOrInsertWithPresence key default mutate
  | .setExpiryConditional key timestamp requireExpiry, guard =>
      guard.setExpiryConditional key timestamp requireExpiry
  | .insertIfAbsent key entry, guard => guard.insertIfAbsent key entry

def Operation.run {α : Type} : Operation α → OnyxEngine → α × OnyxEngine
  | .get key, engine => engine.get key
  | .peek key, engine => engine.peek key
  | .set key value expires, engine => engine.set key value expires
  | .setConditional key value expiresAt condition, engine =>
      engine.setConditional key value expiresAt condition
  | .setIfAbsent key value, engine => engine.setIfAbsent key value
  | .applyEntry key entry, engine => engine.applyEntry key entry
  | .delete key, engine => engine.delete key
  | .read key inspect, engine => engine.read key inspect
  | .updateIfExists key mutate, engine => engine.updateIfExists key mutate
  | .updateIfExistsWithAction key mutate, engine => engine.updateIfExistsWithAction key mutate
  | .updateOrInsert key default mutate, engine => engine.updateOrInsert key default mutate
  | .updateOrInsertWithPresence key default mutate, engine =>
      engine.updateOrInsertWithPresence key default mutate
  | .updateEntryOrInsertWithPresence key default mutate, engine =>
      engine.updateEntryOrInsertWithPresence key default mutate
  | .setExpiry key timestamp, engine => engine.setExpiry key timestamp
  | .setExpiryConditional key timestamp requireExpiry, engine =>
      engine.setExpiryConditional key timestamp requireExpiry
  | .rename source target, engine => engine.rename source target
  | .copy source target, engine => engine.copy source target
  | .mget keys, engine => engine.mget keys
  | .allKeys, engine => engine.allKeys
  | .snapshotAll, engine => engine.snapshotAll
  | .gcExpired, engine => engine.gcExpired

def Upkeep.run : Upkeep → OnyxEngine → OnyxEngine
  | .stats, engine => engine.stats.2
  | .totalMemoryBytes, engine => engine.totalMemoryBytes.2
  | .evictToFit maxmemoryBytes policy protectedKeys, engine =>
      (engine.evictToFit maxmemoryBytes policy protectedKeys).2
  | .replaceAll entries, engine => engine.replaceAll entries

end OnyxDB.Engine
