import OnyxDB.Engine.KeyCount
import OnyxDB.Engine.Provenance

/-! Which operations date an entry, giving it an expiry, and how many readings of the clock operations take. -/

namespace OnyxDB.Engine
open OnyxDB.Library OnyxDB.Engine.Value

/-- What is in the slot does not expire. -/
def Undated (slot : Option DataEntry) : Prop := ∀ entry, slot = some entry → entry.expiresAt = none

/-- The operation dates no slot that is undated; the operations that take an expiry from elsewhere are left out. -/
def Operation.Timeless {α : Type} : Operation α → Prop
  | .set _ _ expires => expires = none
  | .setConditional _ _ expiresAt _ => expiresAt = none
  | .applyEntry _ entry => entry.expiresAt = none
  | .updateEntryOrInsertWithPresence _ _ mutate =>
      ∀ entry existed, entry.expiresAt = none → (mutate entry existed).2.expiresAt = none
  | .setExpiry _ _ | .setExpiryConditional _ _ _ | .rename _ _ | .copy _ _ => False
  | _ => True

namespace Undated

theorem none : Undated Option.none := nofun

theorem some_iff {entry : DataEntry} : Undated (some entry) ↔ entry.expiresAt = Option.none :=
  ⟨fun undated => undated entry rfl, fun none _ same => Option.some.inj same ▸ none⟩

theorem fresh {slot : Option DataEntry} (undated : Undated slot) (time : Nat) : Undated (fresh time slot) :=
  fun entry held => undated entry (OnyxEngine.fresh_held held)

/-- A change of the entry that keeps its expiry. -/
theorem map {slot : Option DataEntry} (undated : Undated slot) {change : DataEntry → DataEntry}
    (keeps : ∀ entry, (change entry).expiresAt = entry.expiresAt) : Undated (slot.map change) := by
  intro entry held
  obtain ⟨old, present, rfl⟩ := Option.map_eq_some_iff.mp held
  rw [keeps]
  exact undated old present

theorem prepared {slot : Option DataEntry} (undated : Undated slot) (time : Nat) (default : OnyxValue) :
    (Guard.prepared time default slot).1.expiresAt = Option.none := by
  cases slot with
  | none => rfl
  | some entry => exact undated entry rfl

theorem mutated {α : Type} {slot : Option DataEntry} (undated : Undated slot) (time : Nat)
    (mutate : OnyxValue → EntryMutation α × OnyxValue) : Undated (Guard.mutated time mutate slot) := by
  cases slot with
  | none => exact none
  | some entry =>
      rw [Guard.mutated, Option.bind_some]
      split
      · exact none
      · exact some_iff.mpr (undated entry rfl)

end Undated

/-- A decision at one key that dates nothing. -/
theorem atKey_undated {α : Type} {map after : FlatMap} {key : Bytes} {time : Nat} {result : α}
    {decision : Option DataEntry → α × Option DataEntry} (decided : (result, after) = map.atKey key time decision)
    (keeps : ∀ slot, Undated slot → Undated (decision slot).2) {other : Bytes} (undated : Undated (map other)) :
    Undated (after other) := by
  by_cases same : other = key
  · subst same
    have slots : after = Function.update map other _ := congrArg Prod.snd decided
    rw [slots, Function.update_self]
    exact keeps _ (undated.fresh time)
  · rw [FlatMap.atKey_other decided same]
    exact undated

namespace OnyxEngine

section Dating
variable [Platform] {α : Type}

/-- Whatever key it is about, a timeless operation leaves undated slots undated. -/
theorem run_undated {engine : OnyxEngine} (steady : engine.clock.Nondecreasing) {operation : Operation α}
    (timeless : operation.Timeless) {key : Bytes} (undated : Undated (engine.lookup key)) :
    Undated ((operation.run engine).2.lookup key) := by
  obtain ⟨_, readings, _, answers⟩ := engine.refines steady operation
  have swept (time : Nat) : Undated (fresh time (engine.lookup key)) := undated.fresh time
  have accessed (time : Nat) {slot : Option DataEntry} (kept : Undated slot) : Undated (FlatMap.stamp time slot) :=
    kept.map (fun _ => rfl)
  cases operation with
  | get _ => exact atKey_undated answers (fun _ kept => accessed _ kept) undated
  | peek _ => exact atKey_undated answers (fun _ kept => kept) undated
  | read _ _ => exact atKey_undated answers (fun _ kept => accessed _ kept) undated
  | set _ _ expires =>
      have none : expires = none := timeless
      exact atKey_undated answers (fun _ _ => (Undated.some_iff.mpr none).fresh _) undated
  | applyEntry _ entry =>
      have none : entry.expiresAt = none := timeless
      exact atKey_undated answers (fun _ _ => (Undated.some_iff.mpr none).fresh _) undated
  | setConditional _ _ _ condition =>
      refine atKey_undated answers ?_ undated
      intro slot kept
      simp only
      split
      · exact Undated.some_iff.mpr timeless
      · exact kept
  | setIfAbsent _ _ =>
      refine atKey_undated answers ?_ undated
      intro slot kept
      cases slot with
      | none => exact Undated.some_iff.mpr rfl
      | some _ => exact kept
  | delete _ => exact atKey_undated answers (fun _ _ => Undated.none) undated
  | updateIfExists _ _ => exact atKey_undated answers (fun _ kept => kept.map (fun _ => rfl)) undated
  | updateIfExistsWithAction _ mutate => exact atKey_undated answers (fun _ kept => kept.mutated _ mutate) undated
  | updateOrInsert _ default _ =>
      exact atKey_undated answers (fun _ kept => Undated.some_iff.mpr (kept.prepared _ default)) undated
  | updateOrInsertWithPresence _ default _ =>
      exact atKey_undated answers (fun _ kept => Undated.some_iff.mpr (kept.prepared _ default)) undated
  | updateEntryOrInsertWithPresence _ default _ =>
      refine atKey_undated answers ?_ undated
      exact fun slot kept => Undated.some_iff.mpr (timeless _ slot.isSome (kept.prepared _ default))
  | setExpiry _ _ => exact absurd timeless not_false
  | setExpiryConditional _ _ _ => exact absurd timeless not_false
  | rename _ _ => exact absurd timeless not_false
  | copy _ _ => exact absurd timeless not_false
  | mget keys =>
      rw [answers.2]
      simp only
      split
      · exact accessed _ (swept _)
      · exact undated
  | allKeys =>
      rw [answers.1]
      exact swept _
  | snapshotAll =>
      rw [answers.1]
      exact swept _
  | gcExpired =>
      rw [answers.1]
      exact swept _

end Dating

end OnyxEngine

end OnyxDB.Engine
