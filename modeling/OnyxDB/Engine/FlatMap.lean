import OnyxDB.Engine.EngineSpec
import OnyxDB.Engine.Operation
import OnyxDB.Library.Listing

/-! What the engine is for: one map from keys to entries with lazy expiry. There are no shards, no
epochs and no counters here; an entry that has expired stays in its slot until somebody looks. -/

namespace OnyxDB.Engine
open OnyxDB.Library OnyxDB.Engine.Value

abbrev FlatMap := Bytes → Option DataEntry

/-- The readings of the clock an operation depends on: the one it is decided at, the stamps of a new
entry, and for operations on many keys the one each key or position is looked at. -/
structure Readings where
  time : Nat
  created : Nat
  accessed : Nat
  position : Nat → Nat
  key : Bytes → Nat

namespace Readings

/-- Every reading lies between `began` and `ended`. -/
structure Within (readings : Readings) (began ended : Nat) : Prop where
  time : began ≤ readings.time ∧ readings.time ≤ ended
  created : began ≤ readings.created ∧ readings.created ≤ ended
  accessed : began ≤ readings.accessed ∧ readings.accessed ≤ ended
  position : ∀ position, began ≤ readings.position position ∧ readings.position position ≤ ended
  key : ∀ key, began ≤ readings.key key ∧ readings.key key ≤ ended

/-- All readings are the same. -/
def single (time : Nat) : Readings := ⟨time, time, time, fun _ => time, fun _ => time⟩

theorem single_within {time began ended : Nat} (early : began ≤ time) (late : time ≤ ended) :
    (single time).Within began ended :=
  ⟨⟨early, late⟩, ⟨early, late⟩, ⟨early, late⟩, fun _ => ⟨early, late⟩, fun _ => ⟨early, late⟩⟩

end Readings

namespace FlatMap

/-- Marks the access to an entry. -/
def stamp (time : Nat) (slot : Option DataEntry) : Option DataEntry :=
  slot.map (fun entry => { entry with lastAccessed := time })

/-- An operation on one key sees the slot without an expired entry and decides what is left in it. -/
def atKey {α : Type} (map : FlatMap) (key : Bytes) (time : Nat)
    (decision : Option DataEntry → α × Option DataEntry) : α × FlatMap :=
  ((decision (fresh time (map key))).1, Function.update map key (decision (fresh time (map key))).2)

/-- Whether a conditional set may write: `some true` wants an absent key, `some false` a present one. -/
def allows (condition : Option Bool) (slot : Option DataEntry) : Bool :=
  match condition with
  | some true => slot.isNone
  | some false => slot.isSome
  | none => true

def withExpiry (time timestamp : Nat) (requireExpiry : Option Bool) (slot : Option DataEntry) :
    Bool × Option DataEntry :=
  match slot with
  | none => (false, none)
  | some entry =>
      if requireExpiry.any (fun required => required != entry.expiresAt.isSome) then (false, some entry)
      else if timestamp ≤ time then (true, none)
      else (true, some { entry with expiresAt := some timestamp })

def moved (map : FlatMap) (time : Nat) (source target : Bytes) : Bool × FlatMap :=
  match fresh time (map source) with
  | none => (false, Function.update map source none)
  | some entry => (true, Function.update (Function.update map source none) target (some entry))

def copied (map : FlatMap) (time : Nat) (source target : Bytes) : Bool × FlatMap :=
  match fresh time (map source) with
  | none => (false, Function.update map source none)
  | some entry =>
      if source = target then (true, map)
      else (true, Function.update map target (some ⟨entry.value, entry.expiresAt, time, time⟩))

/-- The map after every slot was checked for expiry. -/
def swept (map : FlatMap) (reading : Bytes → Nat) : FlatMap := fun key => fresh (reading key) (map key)

/-- What an operation may return and leave behind when it depends on these readings. The order in which
entries are listed is not specified. -/
def Answers {α : Type} (operation : Operation α) (readings : Readings) (map : FlatMap) (result : α)
    (after : FlatMap) : Prop :=
  let time := readings.time
  match operation with
  | .get key =>
      (result, after) = map.atKey key time (fun slot => (stamp time slot, stamp time slot))
  | .peek key => (result, after) = map.atKey key time (fun slot => (slot, slot))
  | .set key value expires =>
      (result, after) = map.atKey key time (fun slot =>
        (slot, fresh time (some ⟨value, expires, readings.created, readings.accessed⟩)))
  | .setConditional key value expiresAt condition =>
      (result, after) = map.atKey key time (fun slot =>
        (allows condition slot,
          if allows condition slot then some ⟨value, expiresAt, readings.created, readings.created⟩
          else slot))
  | .setIfAbsent key value =>
      (result, after) = map.atKey key time (fun slot =>
        (slot.isNone, slot.or (some ⟨value, none, readings.created, readings.created⟩)))
  | .applyEntry key entry =>
      (result, after) = map.atKey key time (fun slot => (slot, fresh time (some entry)))
  | .delete key => (result, after) = map.atKey key time (fun slot => (slot.isSome, none))
  | .read key inspect =>
      (result, after) = map.atKey key time (fun slot => ((stamp time slot).map inspect, stamp time slot))
  | .updateIfExists key mutate =>
      (result, after) = map.atKey key time (fun slot =>
        (slot.map (fun entry => (mutate entry.value).1),
          slot.map (fun entry =>
            { entry with lastAccessed := time, value := (mutate entry.value).2 })))
  | .updateIfExistsWithAction key mutate =>
      (result, after) = map.atKey key time (fun slot =>
        (slot.map (fun entry => (mutate entry.value).1.result), Guard.mutated time mutate slot))
  | .updateOrInsert key default mutate =>
      (result, after) = map.atKey key time (fun slot =>
        let entry := (Guard.prepared time default slot).1
        ((mutate entry.value).1, some { entry with value := (mutate entry.value).2 }))
  | .updateOrInsertWithPresence key default mutate =>
      (result, after) = map.atKey key time (fun slot =>
        let entry := (Guard.prepared time default slot).1
        ((mutate entry.value slot.isSome).1,
          some { entry with value := (mutate entry.value slot.isSome).2 }))
  | .updateEntryOrInsertWithPresence key default mutate =>
      (result, after) = map.atKey key time (fun slot =>
        ((mutate (Guard.prepared time default slot).1 slot.isSome).1,
          some (mutate (Guard.prepared time default slot).1 slot.isSome).2))
  | .setExpiry key timestamp =>
      (result, after) = map.atKey key time (withExpiry time timestamp none)
  | .setExpiryConditional key timestamp requireExpiry =>
      (result, after) = map.atKey key time (withExpiry time timestamp requireExpiry)
  | .rename source target => (result, after) = map.moved time source target
  | .copy source target => (result, after) = map.copied time source target
  | .mget keys =>
      result = keys.zipIdx.map (fun request =>
        stamp (readings.position request.2) (fresh (readings.position request.2) (map request.1))) ∧
      after = fun key =>
        if key ∈ keys then stamp (readings.key key) (fresh (readings.key key) (map key)) else map key
  | .allKeys =>
      after = map.swept readings.key ∧ result.Nodup ∧ ∀ key, key ∈ result ↔ (after key).isSome
  | .snapshotAll => after = map.swept readings.key ∧ Listing result after
  | .gcExpired =>
      after = map.swept readings.key ∧
      ∃ removed : List Bytes, removed.Nodup ∧ result = removed.length ∧
        ∀ key, key ∈ removed ↔ (map key).any (fun entry => entry.expired (readings.key key))

end FlatMap

end OnyxDB.Engine
