import OnyxDB.Engine.Confinement
import OnyxDB.Store.Typed
import OnyxDB.Store.StoreSpec

/-! Programs on the store: which keys they may change, with one rule for each way of composing them. -/

namespace OnyxDB.Store
open OnyxDB.Engine OnyxDB.Engine.Value

/-- Only `keys` may show something else than before, and the limits are the same. -/
structure ShardedStore.Confines (store after : ShardedStore) (keys : List Bytes) : Prop where
  engine : store.engine.Confines after.engine keys
  maxmemoryBytes : after.maxmemoryBytes = store.maxmemoryBytes
  maxmemoryPolicy : after.maxmemoryPolicy = store.maxmemoryPolicy

namespace ShardedStore.Confines

theorem refl (store : ShardedStore) (keys : List Bytes) : store.Confines store keys :=
  ⟨OnyxEngine.Confines.refl _ _, rfl, rfl⟩

theorem mono {store after : ShardedStore} {keys more : List Bytes} (confines : store.Confines after keys)
    (within : keys ⊆ more) : store.Confines after more :=
  ⟨confines.engine.mono within, confines.maxmemoryBytes, confines.maxmemoryPolicy⟩

theorem trans {store middle after : ShardedStore} {keys : List Bytes} (before : store.Confines middle keys)
    (later : middle.Confines after keys) : store.Confines after keys :=
  ⟨before.engine.trans later.engine, later.maxmemoryBytes.trans before.maxmemoryBytes,
    later.maxmemoryPolicy.trans before.maxmemoryPolicy⟩

theorem leads {store after : ShardedStore} {keys : List Bytes} (confines : store.Confines after keys) :
    store.engine.clock.Leads after.engine.clock :=
  confines.engine.leads

theorem steady {store after : ShardedStore} {keys : List Bytes} (confines : store.Confines after keys)
    (steady : store.engine.clock.Nondecreasing) : after.engine.clock.Nondecreasing :=
  confines.leads.nondecreasing steady

theorem fixed {store after : ShardedStore} {keys : List Bytes} (confines : store.Confines after keys)
    {time : Nat} (fixed : store.engine.clock.Fixed time) : after.engine.clock.Fixed time :=
  confines.leads.fixed fixed

/-- With a clock that stands still the content at its time is compared. -/
theorem view {store after : ShardedStore} {keys : List Bytes} (confines : store.Confines after keys)
    {time : Nat} (fixed : store.engine.clock.Fixed time) {key : Bytes} (absent : key ∉ keys) :
    after.view time key = store.view time key :=
  confines.engine.view time fixed.upto key absent

end ShardedStore.Confines

/-- Whatever the store and its clock, the program changes only `keys`. -/
def Confined {α : Type} (keys : List Bytes) (program : StoreM α) : Prop :=
  ∀ store : ShardedStore, store.engine.clock.Nondecreasing → store.Confines (program store).2 keys

namespace Confined
variable {α β : Type} {keys : List Bytes}

theorem pure (value : α) : Confined keys (pure value : StoreM α) :=
  fun store _ => .refl store keys

theorem bind {program : StoreM α} {next : α → StoreM β} (first : Confined keys program)
    (rest : ∀ value, Confined keys (next value)) : Confined keys (program >>= next) :=
  fun store steady => (first store steady).trans (rest _ _ ((first store steady).steady steady))

theorem map {program : StoreM α} (confined : Confined keys program) (answer : α → β) :
    Confined keys (program >>= fun value => Pure.pure (answer value)) :=
  bind confined (fun _ => pure _)

theorem mono {program : StoreM α} {more : List Bytes} (confined : Confined keys program)
    (within : keys ⊆ more) : Confined more program :=
  fun store steady => (confined store steady).mono within

theorem now : Confined keys ShardedStore.now := by
  intro store _
  refine ⟨⟨store.engine.clock.leads_tick, fun _ _ _ _ => rfl⟩, rfl, rfl⟩

variable [Platform]

theorem perform {operation : Operation α} (within : operation.writes ⊆ keys) :
    Confined keys (ShardedStore.perform operation) :=
  fun _ steady => ⟨(OnyxEngine.run_confines steady operation).mono within, rfl, rfl⟩

/-- A program that reads only. -/
theorem reads {operation : Operation α} (only : operation.writes = []) :
    Confined keys (ShardedStore.perform operation) :=
  perform (by rw [only]; exact List.nil_subset keys)

end Confined

end OnyxDB.Store
