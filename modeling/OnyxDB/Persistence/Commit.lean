import OnyxDB.Persistence.Model
import OnyxDB.Store.StoreSpec

/-! Deriving a committed batch from images of the affected keys, and applying a batch to a store. -/

namespace OnyxDB.Persistence.Commit
open OnyxDB.Library OnyxDB.Engine OnyxDB.Engine.Value OnyxDB.Store OnyxDB.Persistence.Model

/-- The equality `PersistentEntry` derives. -/
def entryBeq (first second : PersistentEntry) : Bool :=
  first.value.beq second.value && first.expiresAt == second.expiresAt

def imageBeq : Option PersistentEntry → Option PersistentEntry → Bool
  | none, none => true
  | some first, some second => entryBeq first second
  | _, _ => false

/-- One deletion for each evicted key. -/
def evictionEffects (evicted : List Bytes) : List CommittedEffect :=
  evicted.eraseDups.map CommittedEffect.delete

/-- The effect on one key, if its image has changed. -/
def keyEffect (key : Bytes) (previous current : Option PersistentEntry) (wasEvicted : Bool) :
    List CommittedEffect :=
  if imageBeq previous current && !wasEvicted then []
  else
    match current with
    | some entry => [.put key entry]
    | none => if wasEvicted then [] else [.delete key]

/-- The write an effect stands for. -/
def effectWrite : CommittedEffect → Expiring.Write Bytes PersistentEntry
  | .put key entry => (key, some entry)
  | .delete key => (key, none)

def batchWrites (batch : CommittedBatch) : List (Expiring.Write Bytes PersistentEntry) :=
  batch.effects.map effectWrite

variable [Platform]

def keyEffects (before : Images) (evicted : List Bytes) :
    List Bytes → ShardedStore → List CommittedEffect × ShardedStore
  | [], store => ([], store)
  | key :: keys, store =>
      let previous := ((before.lookup key).getD none).map PersistentEntry.ofDataEntry
      let (entry, store) := store.peekEntry key
      let effects := keyEffect key previous (entry.map PersistentEntry.ofDataEntry)
        (decide (key ∈ evicted))
      let (rest, store) := keyEffects before evicted keys store
      (effects ++ rest, store)

def deriveCommittedBatch (store : ShardedStore) (keys : List Bytes) (before : Images)
    (evictedEntries : List (Bytes × DataEntry)) : Option CommittedBatch × ShardedStore :=
  let evicted := evictedEntries.map Prod.fst
  let (effects, store) := keyEffects before evicted keys store
  let effects := evictionEffects evicted ++ effects
  (if effects.isEmpty then none else some ⟨effects⟩, store)

def applyCommittedEffect (store : ShardedStore) : CommittedEffect → ShardedStore
  | .put key entry =>
      let (timestamp, store) := store.unixSeconds
      (store.applyEntry key (entry.intoDataEntry timestamp)).2
  | .delete key => (store.deleteBytes key).2

def applyCommittedBatch (store : ShardedStore) (batch : CommittedBatch) : ShardedStore :=
  batch.effects.foldl applyCommittedEffect store

theorem applyCommittedEffect_writes (store : ShardedStore) (effect : CommittedEffect) :
    Writes store (applyCommittedEffect store effect) [effectWrite effect] := by
  cases effect with
  | put key entry =>
      have installed := applyEntry_writes store.unixSeconds.2 key
        (entry.intoDataEntry store.unixSeconds.1)
      refine ⟨store.engine.clock.leads_tick.trans installed.leads, ?_⟩
      intro time upto
      exact installed.view time (upto.rest store.engine.clock.leads_tick)
  | delete key => exact deleteBytes_writes store key

/-- Applying a batch writes its effects in order. -/
theorem applyCommittedBatch_writes (store : ShardedStore) (batch : CommittedBatch) :
    Writes store (applyCommittedBatch store batch) (batchWrites batch) := by
  unfold applyCommittedBatch batchWrites
  induction batch.effects generalizing store with
  | nil => exact Writes.refl store
  | cons effect effects rest => exact (applyCommittedEffect_writes store effect).trans (rest _)

end OnyxDB.Persistence.Commit
