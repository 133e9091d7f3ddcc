import OnyxDB.Engine.DatasetSpec

/-! The storage facade over the engine: raw entries, admission against the configured limits and the
rollback of tentative mutations. -/

namespace OnyxDB.Store
open OnyxDB.Engine OnyxDB.Engine.Value

def maxKeys : Nat := 1000000

structure ShardedStore where
  engine : OnyxEngine
  maxmemoryBytes : Nat
  maxmemoryPolicy : EvictionPolicy

inductive StoreError where
  | wrongType
  deriving DecidableEq, Repr

def StoreError.message : StoreError → String
  | .wrongType => "WRONGTYPE Operation against a key holding the wrong kind of value"

inductive AdmissionError where
  | keyLimit
  | maxmemory
  deriving DecidableEq, Repr

def AdmissionError.message : AdmissionError → String
  | .keyLimit => "ERR database key limit reached"
  | .maxmemory => "OOM command not allowed because the projected memory usage exceeds maxmemory"

def keyLimitRequiresExactCount (physicalKeys possibleNewKeys : Nat) : Bool :=
  decide (possibleNewKeys > 0 ∧ physicalKeys + possibleNewKeys > maxKeys)

/-- The entries of some keys before a mutation. -/
abbrev Images := AList (fun _ : Bytes => Option DataEntry)

/-- The state a tentative mutation is admitted against and rolled back to. -/
structure MutationAttempt where
  beforeEntries : Images
  memoryBefore : Option Nat
  keyCountBefore : Option Nat
  evictedEntries : List (Bytes × DataEntry)

structure MutationRollback where
  beforeEntries : Images
  evictedEntries : List (Bytes × DataEntry)

def MutationRollback.fromBaseline (beforeEntries : Images) : MutationRollback := ⟨beforeEntries, []⟩

def MutationAttempt.intoRollback (attempt : MutationAttempt) : MutationRollback :=
  ⟨attempt.beforeEntries, attempt.evictedEntries⟩

namespace ShardedStore

def withMaxmemory (clock : Clock) (maxmemoryBytes : Nat) (maxmemoryPolicy : EvictionPolicy) :
    ShardedStore :=
  ⟨.new clock, maxmemoryBytes, maxmemoryPolicy⟩

def new (clock : Clock) : ShardedStore := withMaxmemory clock 0 .noEviction

/-- Runs an operation of the engine. -/
def run {α : Type} (store : ShardedStore) (operation : OnyxEngine → α × OnyxEngine) : α × ShardedStore :=
  let (result, engine) := operation store.engine
  (result, { store with engine := engine })

def view (store : ShardedStore) (time : Nat) : Bytes → Option PersistentEntry := store.engine.view time

def unixSeconds (store : ShardedStore) : Nat × ShardedStore := store.run OnyxEngine.unixSeconds

variable [Platform]

def peekEntry (store : ShardedStore) (key : Bytes) : Option DataEntry × ShardedStore :=
  store.run (fun engine => engine.peek key)

def getEntry (store : ShardedStore) (key : Bytes) : Option DataEntry × ShardedStore :=
  store.run (fun engine => engine.get key)

def applyEntry (store : ShardedStore) (key : Bytes) (entry : DataEntry) : Option DataEntry × ShardedStore :=
  store.run (fun engine => engine.applyEntry key entry)

def setValue (store : ShardedStore) (key : Bytes) (value : OnyxValue) (expiresAt : Option Nat) :
    Option DataEntry × ShardedStore :=
  store.run (fun engine => engine.set key value expiresAt)

def deleteBytes (store : ShardedStore) (key : Bytes) : Bool × ShardedStore :=
  store.run (fun engine => engine.delete key)

def rawEntries (store : ShardedStore) : List (Bytes × DataEntry) × ShardedStore :=
  store.run (fun engine => engine.snapshotAll)

def replaceAll (store : ShardedStore) (entries : List (Bytes × DataEntry)) : ShardedStore :=
  { store with engine := store.engine.replaceAll entries }

def stats (store : ShardedStore) : OnyxEngine.EngineStats × ShardedStore :=
  store.run OnyxEngine.stats

def usedMemoryBytes (store : ShardedStore) : Nat × ShardedStore :=
  store.run OnyxEngine.totalMemoryBytes

/-- The images of `keys`, each key peeked in turn. -/
def peekAll : List Bytes → Images → ShardedStore → Images × ShardedStore
  | [], images, store => (images, store)
  | key :: keys, images, store =>
      let (entry, store) := store.peekEntry key
      peekAll keys (images.insert key entry) store

def beginMutation (store : ShardedStore) (keys : List Bytes) : MutationAttempt × ShardedStore :=
  let (beforeEntries, store) := peekAll keys ∅ store
  let possibleNewKeys := beforeEntries.entries.countP (fun image => image.2.isNone)
  let (keyCountBefore, store) :=
    match keyLimitRequiresExactCount store.engine.physicalKeyCount possibleNewKeys with
    | true =>
        let (stats, store) := store.stats
        (some stats.totalKeys, store)
    | false => (none, store)
  let (memoryBefore, store) :=
    match decide (store.maxmemoryBytes > 0) with
    | true =>
        let (used, store) := store.usedMemoryBytes
        (some used, store)
    | false => (none, store)
  (⟨beforeEntries, memoryBefore, keyCountBefore, []⟩, store)

def applyEntries (store : ShardedStore) (entries : List (Bytes × DataEntry)) : ShardedStore :=
  entries.foldl (fun store entry => (store.applyEntry entry.1 entry.2).2) store

def restoreImages (store : ShardedStore) (images : List (Sigma fun _ : Bytes => Option DataEntry)) :
    ShardedStore :=
  images.foldl (fun store image =>
    match image.2 with
    | some entry => (store.applyEntry image.1 entry).2
    | none => (store.deleteBytes image.1).2) store

def restoreEntries (store : ShardedStore) (before : Images)
    (evictedEntries : List (Bytes × DataEntry)) : ShardedStore :=
  (store.restoreImages before.entries).applyEntries
    (evictedEntries.filter (fun entry => decide (entry.1 ∉ before.keys)))

/-- The key limit, checked against a count taken before the mutation when one was needed. -/
def checkKeyLimit (store : ShardedStore) (attempt : MutationAttempt) :
    Except AdmissionError Unit × ShardedStore :=
  match attempt.keyCountBefore with
  | none => (.ok (), store)
  | some keyCountBefore =>
      let (stats, store) := store.stats
      if stats.totalKeys > maxKeys ∧ stats.totalKeys > keyCountBefore then
        (.error .keyLimit, store)
      else (.ok (), store)

/-- The memory limit, with eviction where the policy allows it. The baseline is present whenever a
limit is set. -/
def checkMaxmemory (store : ShardedStore) (attempt : MutationAttempt) (protectedKeys : List Bytes) :
    Except AdmissionError MutationAttempt × ShardedStore :=
  if store.maxmemoryBytes = 0 then (.ok attempt, store)
  else
    let limit := store.maxmemoryBytes
    let (memoryAfter, store) := store.usedMemoryBytes
    if memoryAfter ≤ limit ∨ memoryAfter ≤ attempt.memoryBefore.getD 0 then (.ok attempt, store)
    else if store.maxmemoryPolicy = .noEviction then (.error .maxmemory, store)
    else
      let (evicted, store) := store.run (fun engine =>
        engine.evictToFit limit store.maxmemoryPolicy protectedKeys)
      let (used, store) := store.usedMemoryBytes
      if used ≤ limit then
        (.ok { attempt with evictedEntries := attempt.evictedEntries ++ evicted }, store)
      else (.error .maxmemory, store.applyEntries evicted)

def admitMutation (store : ShardedStore) (attempt : MutationAttempt) (protectedKeys : List Bytes) :
    Except AdmissionError MutationAttempt × ShardedStore :=
  match store.checkKeyLimit attempt with
  | (.error error, store) => (.error error, store)
  | (.ok _, store) => store.checkMaxmemory attempt protectedKeys

def rollback (store : ShardedStore) (attempt : MutationAttempt) : ShardedStore :=
  store.restoreEntries attempt.beforeEntries attempt.evictedEntries

end ShardedStore

variable [Platform]

def MutationRollback.restore (rollback : MutationRollback) (store : ShardedStore) : ShardedStore :=
  store.restoreEntries rollback.beforeEntries rollback.evictedEntries

end OnyxDB.Store
