import OnyxDB.Engine.FlatRefinement

/-! Which keys an operation may change. What an operation does to the other keys, purging an expired entry or
noting an access, cannot be seen. -/

namespace OnyxDB.Engine
open OnyxDB.Library OnyxDB.Engine.Value

/-- The keys an operation may change. -/
def Operation.writes {α : Type} : Operation α → List Bytes
  | .get _ | .peek _ | .read _ _ | .mget _ | .allKeys | .snapshotAll | .gcExpired => []
  | .set key _ _ | .setConditional key _ _ _ | .setIfAbsent key _ | .applyEntry key _ | .delete key
  | .updateIfExists key _ | .updateIfExistsWithAction key _ | .updateOrInsert key _ _
  | .updateOrInsertWithPresence key _ _ | .updateEntryOrInsertWithPresence key _ _
  | .setExpiry key _ | .setExpiryConditional key _ _ => [key]
  | .rename source target => [source, target]
  | .copy _ target => [target]

namespace OnyxEngine

/-- Only `keys` may show something else than before. -/
structure Confines (engine after : OnyxEngine) (keys : List Bytes) : Prop where
  leads : engine.clock.Leads after.clock
  view : ∀ time, engine.clock.Upto after.clock time → ∀ key, key ∉ keys →
    after.view time key = engine.view time key

theorem Confines.refl (engine : OnyxEngine) (keys : List Bytes) : engine.Confines engine keys :=
  ⟨Clock.Leads.refl _, fun _ _ _ _ => rfl⟩

theorem Confines.mono {engine after : OnyxEngine} {keys more : List Bytes}
    (confines : engine.Confines after keys) (within : keys ⊆ more) : engine.Confines after more :=
  ⟨confines.leads, fun time upto key absent => confines.view time upto key (fun member => absent (within member))⟩

theorem Confines.trans {engine middle after : OnyxEngine} {keys : List Bytes}
    (before : engine.Confines middle keys) (later : middle.Confines after keys) :
    engine.Confines after keys := by
  refine ⟨before.leads.trans later.leads, ?_⟩
  intro time upto key absent
  rw [later.view time (upto.rest before.leads) key absent, before.view time (upto.start later.leads) key absent]

theorem Touches.confines {engine after : OnyxEngine} {keys : List Bytes}
    (touches : engine.Touches after keys) : engine.Confines after keys :=
  ⟨touches.leads, fun _ upto _ absent => touches.view upto absent⟩

/-- Nothing shows something else. -/
theorem Confines.same_view {engine after : OnyxEngine} (confines : engine.Confines after []) {time : Nat}
    (upto : engine.clock.Upto after.clock time) : after.view time = engine.view time :=
  funext fun key => confines.view time upto key List.not_mem_nil

end OnyxEngine

/-- An entry that is alive at `time` was so before. -/
theorem fresh_live {entry : DataEntry} {reading time : Nat} (live : entry.expired time = false) (order : reading ≤ time) :
    fresh reading (some entry) = some entry := by
  have early : entry.expired reading = false := by
    unfold DataEntry.expired expiryPassed at live ⊢
    cases deadline : entry.expiresAt with
    | none => rfl
    | some expiry =>
        simp only [deadline, decide_eq_false_iff_not] at live ⊢
        omega
  rw [fresh, Expiring.live_some, early]
  rfl

/-- Noting an access is not shown. -/
theorem shown_stamp (time : Nat) (slot : Option DataEntry) (stamp : Nat) :
    shown time (FlatMap.stamp stamp slot) = shown time slot := by
  cases slot with
  | none => rfl
  | some entry => exact shown_congr time rfl

namespace FlatMap

/-- A decision at one key is not seen at another. -/
theorem atKey_other {α : Type} {map after : FlatMap} {key other : Bytes} {time : Nat} {result : α}
    {decision : Option DataEntry → α × Option DataEntry}
    (decided : (result, after) = map.atKey key time decision) (differ : other ≠ key) :
    after other = map other := by
  have slots : after = Function.update map key _ := congrArg Prod.snd decided
  rw [slots, Function.update_of_ne differ]

/-- A decision that leaves what it found shows nothing new. -/
theorem atKey_shown {α : Type} {map after : FlatMap} {key : Bytes} {reading : Nat} {result : α}
    {decision : Option DataEntry → α × Option DataEntry}
    (decided : (result, after) = map.atKey key reading decision) {time : Nat} (order : reading ≤ time)
    (keeps : ∀ slot, shown time (decision slot).2 = shown time slot) (other : Bytes) :
    shown time (after other) = shown time (map other) := by
  by_cases same : other = key
  · subst same
    have slots : after = Function.update map other _ := congrArg Prod.snd decided
    rw [slots, Function.update_self, keeps, shown_fresh order]
  · rw [atKey_other decided same]

/-- Moving an entry is not seen at a third key. -/
theorem moved_other {map after : FlatMap} {source target other : Bytes} {time : Nat} {result : Bool}
    (decided : (result, after) = map.moved time source target) (left : other ≠ source)
    (right : other ≠ target) : after other = map other := by
  unfold moved at decided
  split at decided
  · cases decided
    rw [Function.update_of_ne left]
  · cases decided
    rw [Function.update_of_ne right, Function.update_of_ne left]

/-- A copy is seen at its target only. -/
theorem copied_shown {map after : FlatMap} {source target other : Bytes} {reading : Nat} {result : Bool}
    (decided : (result, after) = map.copied reading source target) {time : Nat} (order : reading ≤ time)
    (differ : other ≠ target) : shown time (after other) = shown time (map other) := by
  unfold copied at decided
  split at decided
  next gone =>
    cases decided
    by_cases same : other = source
    · rw [same, Function.update_self, ← gone, shown_fresh order]
    · rw [Function.update_of_ne same]
  next entry held =>
    split at decided
    · cases decided
      rfl
    · cases decided
      rw [Function.update_of_ne differ]

end FlatMap

namespace OnyxEngine
variable [Platform]

theorem run_confines {α : Type} {engine : OnyxEngine} (steady : engine.clock.Nondecreasing)
    (operation : Operation α) : engine.Confines (operation.run engine).2 operation.writes := by
  obtain ⟨leads, readings, within, answers⟩ := engine.refines steady operation
  refine ⟨leads, ?_⟩
  intro time upto key absent
  have latest : (operation.run engine).2.clock.now ≤ time := by
    apply upto
    obtain ⟨count, same⟩ := leads
    exact ⟨count, count, le_rfl, by simp [Clock.now, same], same⟩
  have order : readings.time ≤ time := within.time.2.trans latest
  unfold view
  cases operation with
  | get _ =>
      exact FlatMap.atKey_shown answers order (fun slot => shown_stamp time slot _) key
  | read _ inspect =>
      exact FlatMap.atKey_shown answers order (fun slot => shown_stamp time slot _) key
  | peek _ => exact FlatMap.atKey_shown answers order (fun _ => rfl) key
  | mget keys =>
      rw [answers.2]
      simp only
      split
      · rw [shown_stamp, shown_fresh ((within.key key).2.trans latest)]
      · rfl
  | allKeys => rw [answers.1, FlatMap.swept, shown_fresh ((within.key key).2.trans latest)]
  | snapshotAll => rw [answers.1, FlatMap.swept, shown_fresh ((within.key key).2.trans latest)]
  | gcExpired => rw [answers.1, FlatMap.swept, shown_fresh ((within.key key).2.trans latest)]
  | rename source target =>
      simp only [Operation.writes, List.mem_cons, List.not_mem_nil, or_false, not_or] at absent
      exact congrArg (shown time) (FlatMap.moved_other answers absent.1 absent.2)
  | copy source target =>
      exact FlatMap.copied_shown answers order (fun same => absent (List.mem_singleton.mpr same))
  | _ =>
      exact congrArg (shown time)
        (FlatMap.atKey_other answers (fun same => absent (List.mem_singleton.mpr same)))

end OnyxEngine

end OnyxDB.Engine
