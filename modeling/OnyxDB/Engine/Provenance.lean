import OnyxDB.Engine.FlatRefinement

/-! Where the value of a slot comes from after an operation, whatever the clock does: it was there, a closure made
it from what was there or from a default, or the operation was told it. -/

namespace OnyxDB.Engine
open OnyxDB.Library OnyxDB.Engine.Value

namespace Operation
variable {α : Type}

/-- The operation runs its closure on the value of a key. -/
def Rewrites : Operation α → Bytes → OnyxValue → OnyxValue → Prop
  | .updateIfExists target mutate, key, old, new => key = target ∧ new = (mutate old).2
  | .updateIfExistsWithAction target mutate, key, old, new =>
      key = target ∧ ∃ result, mutate old = (.keep result, new)
  | .updateOrInsert target _ mutate, key, old, new => key = target ∧ new = (mutate old).2
  | .updateOrInsertWithPresence target _ mutate, key, old, new => key = target ∧ new = (mutate old true).2
  | .updateEntryOrInsertWithPresence target _ mutate, key, old, new =>
      key = target ∧ ∃ entry : DataEntry, entry.value = old ∧ new = (mutate entry true).2.value
  | _, _, _, _ => False

/-- The operation makes a value for a key that has none. -/
def Creates : Operation α → Bytes → OnyxValue → Prop
  | .setIfAbsent target value, key, new => key = target ∧ new = value
  | .updateOrInsert target default mutate, key, new => key = target ∧ new = (mutate default).2
  | .updateOrInsertWithPresence target default mutate, key, new => key = target ∧ new = (mutate default false).2
  | .updateEntryOrInsertWithPresence target default mutate, key, new =>
      key = target ∧ ∃ entry : DataEntry, entry.value = default ∧ new = (mutate entry false).2.value
  | _, _, _ => False

/-- The operation puts a value under a key without asking what is there. -/
def Replaces : Operation α → FlatMap → Bytes → OnyxValue → Prop
  | .set target value _, _, key, new => key = target ∧ new = value
  | .setConditional target value _ _, _, key, new => key = target ∧ new = value
  | .applyEntry target entry, _, key, new => key = target ∧ new = entry.value
  | .rename source target, map, key, new => key = target ∧ ∃ old, map source = some old ∧ new = old.value
  | .copy source target, map, key, new => key = target ∧ ∃ old, map source = some old ∧ new = old.value
  | _, _, _, _ => False

end Operation

namespace OnyxEngine

/-- Where a value under `key` comes from after `operation`. -/
inductive Origin {α : Type} (engine : OnyxEngine) (ends : Clock) (operation : Operation α) (key : Bytes)
    (new : OnyxValue) : Prop where
  | kept (old : DataEntry) (held : engine.lookup key = some old) (same : new = old.value)
  | rewritten (old : DataEntry) (held : engine.lookup key = some old)
      (rewrites : operation.Rewrites key old.value new)
  | created (reading : Nat) (shows : engine.clock.Shows ends reading)
      (absent : fresh reading (engine.lookup key) = none) (creates : operation.Creates key new)
  | replaced (replaces : operation.Replaces engine.lookup key new)

/-- Every value afterwards was under its key before. -/
def Fades (engine after : OnyxEngine) : Prop :=
  ∀ key new, after.lookup key = some new → ∃ old, engine.lookup key = some old ∧ new.value = old.value

theorem Fades.refl (engine : OnyxEngine) : engine.Fades engine := fun _ new held => ⟨new, held, rfl⟩

theorem Fades.trans {engine middle after : OnyxEngine} (before : engine.Fades middle) (later : middle.Fades after) :
    engine.Fades after := by
  intro key new held
  obtain ⟨between, present, same⟩ := later key new held
  obtain ⟨old, first, equal⟩ := before key between present
  exact ⟨old, first, same.trans equal⟩

theorem fresh_held {reading : Nat} {slot : Option DataEntry} {entry : DataEntry}
    (live : fresh reading slot = some entry) : slot = some entry := (Expiring.live_eq_some live).1

theorem touched_held {reading : Nat} {slot : Option DataEntry} {entry : DataEntry}
    (live : touched reading slot = some entry) : ∃ old, slot = some old ∧ entry.value = old.value := by
  obtain ⟨old, held, rfl⟩ := Option.map_eq_some_iff.mp live
  exact ⟨old, fresh_held held, rfl⟩

/-- Every entry afterwards was there before, as it is. -/
def Sheds (engine after : OnyxEngine) : Prop :=
  ∀ key new, after.lookup key = some new → engine.lookup key = some new

theorem Sheds.trans {engine middle after : OnyxEngine} (before : engine.Sheds middle) (later : middle.Sheds after) :
    engine.Sheds after := fun key new held => before key new (later key new held)

theorem Sheds.fades {engine after : OnyxEngine} (sheds : engine.Sheds after) : engine.Fades after :=
  fun key new held => ⟨new, sheds key new held, rfl⟩

theorem Touches.sheds {engine after : OnyxEngine} (ages : engine.Ages after) : engine.Sheds after := by
  intro key new held
  rcases ages.aged key List.not_mem_nil with same | ⟨reading, -, purged⟩
  · exact same ▸ held
  · exact fresh_held (purged ▸ held)

section Sets

variable {α : Type} {engine after : OnyxEngine} {key : Bytes} {slot : Option DataEntry}

/-- An operation that sets one slot. -/
theorem Sets.origin (sets : engine.Sets after key slot) {operation : Operation α}
    (here : ∀ new, slot = some new → engine.Origin after.clock operation key new.value) {other : Bytes}
    {new : DataEntry} (held : after.lookup other = some new) :
    engine.Origin after.clock operation other new.value := by
  by_cases same : other = key
  · subst same
    exact here new (sets.slot.symm.trans held)
  · exact .kept new ((sets.other same).symm.trans held) rfl

theorem Sets.fades (sets : engine.Sets after key slot)
    (here : ∀ new, slot = some new → ∃ old, engine.lookup key = some old ∧ new.value = old.value) :
    engine.Fades after := by
  intro other new held
  by_cases same : other = key
  · subst same
    exact here new (sets.slot.symm.trans held)
  · exact ⟨new, (sets.other same).symm.trans held, rfl⟩

end Sets

theorem Fades.origin {α : Type} {engine after : OnyxEngine} (fades : engine.Fades after) (operation : Operation α)
    {key : Bytes} {new : DataEntry} (held : after.lookup key = some new) :
    engine.Origin after.clock operation key new.value := by
  obtain ⟨old, present, same⟩ := fades key new held
  exact .kept old present same

variable [Platform]

section Passes

/-- Reading keys of one shard keeps the values. -/
theorem getAll_fades {index : Fin numShards} (requests : List (Nat × Key index)) (guard : Guard index)
    {key : Key index} {new : DataEntry} (held : (getAll guard requests).2.lookup key = some new) :
    ∃ old, guard.lookup key = some old ∧ new.value = old.value := by
  induction requests generalizing guard with
  | nil => exact ⟨new, held, rfl⟩
  | cons request requests rest =>
      obtain ⟨between, present, same⟩ := rest (guard.get request.2).2 held
      have sets := guard.get_sets request.2
      rw [sets.lookup] at present
      by_cases here : key = request.2
      · rw [here, Function.update_self] at present
        obtain ⟨old, first, equal⟩ := touched_held present
        exact ⟨old, here ▸ first, same.trans equal⟩
      · rw [Function.update_of_ne here] at present
        exact ⟨between, present, same⟩

omit [Platform] in
/-- A pass over the shards keeps the values if it keeps them in each shard. -/
theorem runShards_fades {α : Type} (operation : (index : Fin numShards) → Guard index → α × Guard index)
    (fades : ∀ index guard key new, (operation index guard).2.lookup key = some new →
      ∃ old, guard.lookup key = some old ∧ new.value = old.value)
    (indices : List (Fin numShards)) (engine : OnyxEngine) :
    engine.Fades (runShards operation indices engine).2 := by
  induction indices generalizing engine with
  | nil => exact Fades.refl engine
  | cons index indices rest =>
      have first : engine.Fades (engine.withShard index (operation index)).2 := by
        intro key new held
        rw [lookup_withShard] at held
        by_cases here : shardForKey key = index
        · rw [dif_pos here] at held
          obtain ⟨old, present, same⟩ := fades index _ _ new held
          exact ⟨old, (engine.shard_get index key here).symm.trans present, same⟩
        · rw [dif_neg here] at held
          exact ⟨new, held, rfl⟩
      exact first.trans (rest _)

end Passes

section Runs

variable {α : Type} {engine : OnyxEngine} {key target : Bytes} {new : DataEntry}

/-- An update-or-insert rewrites what it finds and creates what it does not find. -/
theorem upsert_origin {default : OnyxValue} {mutate : DataEntry → Bool → α × DataEntry} {operation : Operation α}
    (rewrites : ∀ old : DataEntry, operation.Rewrites target old.value
      (mutate { old with lastAccessed := engine.clock.now } true).2.value)
    (creates : ∀ entry : DataEntry, entry.value = default → operation.Creates target (mutate entry false).2.value)
    (held : (engine.updateEntryOrInsertWithPresence target default mutate).2.lookup key = some new) :
    engine.Origin (engine.updateEntryOrInsertWithPresence target default mutate).2.clock operation key new.value := by
  have sets := engine.updateEntryOrInsertWithPresence_sets target default mutate
  refine sets.origin ?_ held
  intro made same
  cases found : fresh engine.clock.now (engine.lookup target) with
  | none =>
      rw [found] at same
      rw [← Option.some.inj same]
      exact .created engine.clock.now sets.leads.shows_now found (creates _ rfl)
  | some old =>
      rw [found] at same
      rw [← Option.some.inj same]
      exact .rewritten old (fresh_held found) (rewrites old)

/-- A conditional set leaves what is alive under its key, or puts its value there. -/
theorem setConditional_sets (engine : OnyxEngine) (target : Bytes) (value : OnyxValue) (expiresAt : Option Nat)
    (condition : Option Bool) :
    ∃ slot, engine.Sets (engine.setConditional target value expiresAt condition).2 target slot ∧
      (slot = fresh engine.clock.now (engine.lookup target) ∨ ∃ entry, slot = some entry ∧ entry.value = value) := by
  let guard : Guard (shardForKey target) :=
    ⟨engine.shards (shardForKey target), engine.totalKeys, engine.clock⟩
  have clean := guard.purgeNow_sets ⟨target, rfl⟩
  rw [setConditional_eq]
  cases allowed : FlatMap.allows condition ((guard.purgeNow ⟨target, rfl⟩).2.lookup ⟨target, rfl⟩) with
  | true =>
      let entry : DataEntry :=
        ⟨value, expiresAt, (guard.purgeNow ⟨target, rfl⟩).2.clock.now, (guard.purgeNow ⟨target, rfl⟩).2.clock.now⟩
      have inserted := (guard.purgeNow ⟨target, rfl⟩).2.unixSeconds.2.insert_sets ⟨target, rfl⟩ entry
      have ran : setWhere value expiresAt condition ⟨target, rfl⟩ guard =
          (true, ((guard.purgeNow ⟨target, rfl⟩).2.unixSeconds.2.insert ⟨target, rfl⟩ entry).2) := if_pos allowed
      refine ⟨some entry, ?_, Or.inr ⟨entry, rfl, rfl⟩⟩
      apply withKey_sets_here
      rw [ran]
      exact clean.trans ⟨(Clock.leads_tick _).trans inserted.leads, inserted.lookup⟩
  | false =>
      have ran : setWhere value expiresAt condition ⟨target, rfl⟩ guard =
          (false, (guard.purgeNow ⟨target, rfl⟩).2) := if_neg (ne_true_of_eq_false allowed)
      refine ⟨fresh engine.clock.now (engine.lookup target), ?_, Or.inl rfl⟩
      apply withKey_sets_here
      rw [ran]
      exact clean

theorem setConditional_origin {value : OnyxValue} {expiresAt : Option Nat} {condition : Option Bool}
    (held : (engine.setConditional target value expiresAt condition).2.lookup key = some new) :
    engine.Origin (engine.setConditional target value expiresAt condition).2.clock
      (.setConditional target value expiresAt condition) key new.value := by
  obtain ⟨slot, sets, outcome⟩ := engine.setConditional_sets target value expiresAt condition
  refine sets.origin ?_ held
  intro made same
  rcases outcome with left | ⟨entry, put, rfl⟩
  · exact .kept made (fresh_held (left.symm.trans same)) rfl
  · rw [put] at same
    rw [← Option.some.inj same]
    exact .replaced ⟨rfl, rfl⟩

theorem setIfAbsent_sets (engine : OnyxEngine) (target : Bytes) (value : OnyxValue) :
    engine.clock.tick.Leads (engine.setIfAbsent target value).2.clock ∧
      engine.Sets (engine.setIfAbsent target value).2 target
        (some ((fresh engine.clock.tick.now (engine.lookup target)).getD
          ⟨value, none, engine.clock.now, engine.clock.now⟩)) := by
  let guard : Guard (shardForKey target) :=
    ⟨engine.shards (shardForKey target), engine.totalKeys, engine.clock.tick⟩
  have inserted := guard.insertIfAbsent_sets ⟨target, rfl⟩ ⟨value, none, engine.clock.now, engine.clock.now⟩
  exact ⟨inserted.leads,
    withKey_sets_here engine target _ _ ⟨engine.clock.leads_tick.trans inserted.leads, inserted.lookup⟩⟩

theorem setIfAbsent_origin {value : OnyxValue}
    (held : (engine.setIfAbsent target value).2.lookup key = some new) :
    engine.Origin (engine.setIfAbsent target value).2.clock (.setIfAbsent target value) key new.value := by
  obtain ⟨leads, sets⟩ := engine.setIfAbsent_sets target value
  refine sets.origin ?_ held
  intro made same
  cases found : fresh engine.clock.tick.now (engine.lookup target) with
  | none =>
      rw [found] at same
      rw [← Option.some.inj same]
      exact .created _ (engine.clock.leads_tick.shows leads.shows_now) found ⟨rfl, rfl⟩
  | some old =>
      rw [found] at same
      rw [← Option.some.inj same]
      exact .kept old (fresh_held found) rfl

/-- A new expiry keeps the value. -/
theorem setExpiryConditional_fades (timestamp : Nat) (condition : Option Bool) :
    engine.clock.Leads (engine.setExpiryConditional target timestamp condition).2.clock ∧
      engine.Fades (engine.setExpiryConditional target timestamp condition).2 := by
  let guard : Guard (shardForKey target) :=
    ⟨engine.shards (shardForKey target), engine.totalKeys, engine.clock⟩
  obtain ⟨slot, written, outcome⟩ := guard.setExpiryConditional_sets ⟨target, rfl⟩ timestamp condition
  have sets : engine.Sets (engine.setExpiryConditional target timestamp condition).2 target slot :=
    withKey_sets_here engine target _ _ written
  refine ⟨sets.leads, sets.fades ?_⟩
  intro made same
  rcases outcome with gone | left | ⟨entry, left, changed⟩
  · rw [gone] at same
    cases same
  · exact ⟨made, fresh_held (left.symm.trans same), rfl⟩
  · rw [changed] at same
    rw [← Option.some.inj same]
    exact ⟨entry, fresh_held left, rfl⟩

theorem rename_origin {source : Bytes} (held : (engine.rename source target).2.lookup key = some new) :
    engine.Origin (engine.rename source target).2.clock (.rename source target) key new.value := by
  obtain ⟨removed, result⟩ := engine.remove_sets source
  unfold rename at held ⊢
  cases ran : engine.withKey source (fun _ key guard => guard.remove key) with
  | mk entry middle =>
      rw [ran] at removed result
      simp only [ran] at held ⊢
      cases entry with
      | none => exact removed.origin (fun made same => absurd same nofun) held
      | some entry =>
          have inserted := middle.insert_sets target entry
          have slots := inserted.lookup
          rw [removed.lookup] at slots
          rw [slots] at held
          by_cases here : key = target
          · rw [here, Function.update_self] at held
            rw [← Option.some.inj held]
            exact .replaced ⟨here, entry, fresh_held result.symm, rfl⟩
          · rw [Function.update_of_ne here] at held
            by_cases there : key = source
            · rw [there, Function.update_self] at held
              cases held
            · rw [Function.update_of_ne there] at held
              exact .kept new held rfl

theorem copy_origin {source : Bytes} (held : (engine.copy source target).2.lookup key = some new) :
    engine.Origin (engine.copy source target).2.clock (.copy source target) key new.value := by
  let ticked : OnyxEngine := { engine with clock := engine.clock.tick }
  obtain ⟨looked, result⟩ := ticked.inspect_sets source engine.clock.now
  unfold copy unixSeconds at held ⊢
  simp only at held ⊢
  cases ran : ticked.withKey source (fun _ key guard =>
      ((guard.purgeIfExpired key engine.clock.now).2.lookup key, (guard.purgeIfExpired key engine.clock.now).2)) with
  | mk entry middle =>
      rw [ran] at looked result
      have slots : middle.lookup = Function.update engine.lookup source
          (fresh engine.clock.now (engine.lookup source)) := looked.lookup
      change entry = fresh engine.clock.now (engine.lookup source) at result
      have before : ∀ entry, middle.lookup key = some entry → engine.lookup key = some entry := by
        intro entry present
        rw [slots] at present
        by_cases there : key = source
        · rw [there, Function.update_self] at present
          rw [there]
          exact fresh_held present
        · rwa [Function.update_of_ne there] at present
      simp only [ticked] at ran
      simp only [ran] at held ⊢
      cases entry with
      | none => exact .kept new (before new held) rfl
      | some entry =>
          simp only at held ⊢
          by_cases equal : source = target
          · simp only [equal, if_true] at held ⊢
            exact .kept new (before new held) rfl
          · simp only [equal, if_false] at held ⊢
            have inserted := middle.insert_sets target
              ⟨entry.value, entry.expiresAt, engine.clock.now, engine.clock.now⟩
            rw [inserted.lookup] at held
            by_cases here : key = target
            · rw [here, Function.update_self] at held
              rw [← Option.some.inj held]
              exact .replaced ⟨here, entry, fresh_held result.symm, rfl⟩
            · rw [Function.update_of_ne here] at held
              exact .kept new (before new held) rfl

theorem rename_leads (engine : OnyxEngine) (source target : Bytes) :
    engine.clock.Leads (engine.rename source target).2.clock := by
  obtain ⟨removed, _⟩ := engine.remove_sets source
  unfold rename
  cases ran : engine.withKey source (fun _ key guard => guard.remove key) with
  | mk entry middle =>
      rw [ran] at removed
      cases entry with
      | none => exact removed.leads
      | some entry => exact removed.leads.trans (middle.insert_sets target entry).leads

theorem copy_leads (engine : OnyxEngine) (source target : Bytes) :
    engine.clock.Leads (engine.copy source target).2.clock := by
  let ticked : OnyxEngine := { engine with clock := engine.clock.tick }
  obtain ⟨looked, _⟩ := ticked.inspect_sets source engine.clock.now
  have start : engine.clock.Leads ticked.clock := engine.clock.leads_tick
  unfold copy unixSeconds
  simp only
  cases ran : ticked.withKey source (fun _ key guard =>
      ((guard.purgeIfExpired key engine.clock.now).2.lookup key, (guard.purgeIfExpired key engine.clock.now).2)) with
  | mk entry middle =>
      rw [ran] at looked
      cases entry with
      | none => exact start.trans looked.leads
      | some entry =>
          simp only
          split
          · exact start.trans looked.leads
          · exact (start.trans looked.leads).trans (middle.insert_sets target _).leads

omit [Platform] in
theorem runShards_leads (operation : (index : Fin numShards) → Guard index → α × Guard index)
    (leads : ∀ index (guard : Guard index), guard.clock.Leads (operation index guard).2.clock)
    (indices : List (Fin numShards)) (engine : OnyxEngine) :
    engine.clock.Leads (runShards operation indices engine).2.clock := by
  induction indices generalizing engine with
  | nil => exact Clock.Leads.refl _
  | cons index indices rest =>
      have first : engine.clock.Leads (engine.withShard index (operation index)).2.clock := leads index _
      exact first.trans (rest _)

theorem getAll_leads {index : Fin numShards} (requests : List (Nat × Key index)) (guard : Guard index) :
    guard.clock.Leads (getAll guard requests).2.clock := by
  induction requests generalizing guard with
  | nil => exact Clock.Leads.refl _
  | cons request requests rest => exact (guard.get_sets request.2).leads.trans (rest _)

/-- An operation reads the clock forward. -/
theorem run_leads (engine : OnyxEngine) (operation : Operation α) :
    engine.clock.Leads (operation.run engine).2.clock := by
  cases operation with
  | get target => exact (engine.get_sets target).leads
  | peek target => exact (engine.peek_sets target).leads
  | set target value expires =>
      obtain ⟨_, _, _, _, sets⟩ := engine.set_sets target value expires
      exact sets.leads
  | setConditional target value expiresAt condition =>
      obtain ⟨_, sets, _⟩ := engine.setConditional_sets target value expiresAt condition
      exact sets.leads
  | setIfAbsent target value => exact (engine.setIfAbsent_sets target value).2.leads
  | applyEntry target entry =>
      obtain ⟨_, _, sets⟩ := engine.applyEntry_sets target entry
      exact sets.leads
  | delete target => exact (engine.delete_sets target).leads
  | read target inspect => exact (engine.read_sets target inspect).leads
  | updateIfExists target mutate =>
      exact (engine.updateIfExistsWithAction_sets target
        (fun value => (.keep (mutate value).1, (mutate value).2))).leads
  | updateIfExistsWithAction target mutate => exact (engine.updateIfExistsWithAction_sets target mutate).leads
  | updateOrInsert target default mutate =>
      exact (engine.updateEntryOrInsertWithPresence_sets target default
        (fun entry _ => ((mutate entry.value).1, { entry with value := (mutate entry.value).2 }))).leads
  | updateOrInsertWithPresence target default mutate =>
      exact (engine.updateEntryOrInsertWithPresence_sets target default (fun entry existed =>
        ((mutate entry.value existed).1, { entry with value := (mutate entry.value existed).2 }))).leads
  | updateEntryOrInsertWithPresence target default mutate =>
      exact (engine.updateEntryOrInsertWithPresence_sets target default mutate).leads
  | setExpiry target timestamp => exact (setExpiryConditional_fades timestamp none).1
  | setExpiryConditional target timestamp condition => exact (setExpiryConditional_fades timestamp condition).1
  | rename source target => exact engine.rename_leads source target
  | copy source target => exact engine.copy_leads source target
  | mget keys =>
      have leads : engine.clock.Leads (engine.mget keys).2.clock := by
        rw [mget_eq]
        exact runShards_leads _ (fun _ _ => getAll_leads _ _) _ engine
      exact leads
  | allKeys => exact engine.allKeys_ages.leads
  | snapshotAll => exact engine.snapshotAll_ages.leads
  | gcExpired =>
      have ages : engine.Ages engine.gcExpired.2 := by
        rw [gcExpired_eq]
        exact runShards_ages _ (fun _ _ => rfl) _ engine
      exact ages.leads

/-- Every value after an operation was kept, rewritten, created or put there. -/
theorem run_origin (engine : OnyxEngine) (operation : Operation α) {key : Bytes} {new : DataEntry}
    (held : (operation.run engine).2.lookup key = some new) :
    engine.Origin (operation.run engine).2.clock operation key new.value := by
  cases operation with
  | get target =>
      have fades : engine.Fades (engine.get target).2 :=
        (engine.get_sets target).fades (fun _ same => touched_held same)
      exact fades.origin _ held
  | peek target =>
      exact (engine.peek_sets target).origin (fun made same => .kept made (fresh_held same) rfl) held
  | set target value expires =>
      obtain ⟨reading, created, accessed, -, sets⟩ := engine.set_sets target value expires
      refine sets.origin (fun made same => ?_) held
      rw [← Option.some.inj (fresh_held same)]
      exact .replaced ⟨rfl, rfl⟩
  | setConditional target value expiresAt condition => exact setConditional_origin held
  | setIfAbsent target value => exact setIfAbsent_origin held
  | applyEntry target entry =>
      obtain ⟨reading, -, sets⟩ := engine.applyEntry_sets target entry
      refine sets.origin (fun made same => ?_) held
      rw [← Option.some.inj (fresh_held same)]
      exact .replaced ⟨rfl, rfl⟩
  | delete target =>
      exact (engine.delete_sets target).origin (fun made same => absurd same nofun) held
  | read target inspect =>
      have fades : engine.Fades (engine.read target inspect).2 :=
        (engine.read_sets target inspect).fades (fun _ same => touched_held same)
      exact fades.origin _ held
  | updateIfExists target mutate =>
      refine (engine.updateIfExistsWithAction_sets target
        (fun value => (.keep (mutate value).1, (mutate value).2))).origin (fun made same => ?_) held
      cases found : fresh engine.clock.now (engine.lookup target) with
      | none =>
          rw [found] at same
          cases same
      | some old =>
          rw [found] at same
          rw [← Option.some.inj same]
          exact .rewritten old (fresh_held found) ⟨rfl, rfl⟩
  | updateIfExistsWithAction target mutate =>
      refine (engine.updateIfExistsWithAction_sets target mutate).origin (fun made same => ?_) held
      cases found : fresh engine.clock.now (engine.lookup target) with
      | none =>
          rw [found] at same
          cases same
      | some old =>
          rw [found, Guard.mutated, Option.bind_some] at same
          cases action : (mutate old.value).1 with
          | delete result =>
              simp only [action] at same
              cases same
          | keep result =>
              simp only [action] at same
              rw [← Option.some.inj same]
              exact .rewritten old (fresh_held found) ⟨rfl, result, Prod.ext action rfl⟩
  | updateOrInsert target default mutate =>
      exact @upsert_origin _ _ engine key target new default
        (fun entry _ => ((mutate entry.value).1, { entry with value := (mutate entry.value).2 })) _
        (fun old => ⟨rfl, rfl⟩) (fun entry same => ⟨rfl, by rw [← same]⟩) held
  | updateOrInsertWithPresence target default mutate =>
      exact @upsert_origin _ _ engine key target new default
        (fun entry existed => ((mutate entry.value existed).1, { entry with value := (mutate entry.value existed).2 }))
        _ (fun old => ⟨rfl, rfl⟩) (fun entry same => ⟨rfl, by rw [← same]⟩) held
  | updateEntryOrInsertWithPresence target default mutate =>
      exact upsert_origin (fun old => ⟨rfl, { old with lastAccessed := engine.clock.now }, rfl, rfl⟩)
        (fun entry same => ⟨rfl, entry, same, rfl⟩) held
  | setExpiry target timestamp => exact (setExpiryConditional_fades timestamp none).2.origin _ held
  | setExpiryConditional target timestamp condition =>
      exact (setExpiryConditional_fades timestamp condition).2.origin _ held
  | rename source target => exact rename_origin held
  | copy source target => exact copy_origin held
  | mget keys =>
      have fades : engine.Fades (engine.mget keys).2 := by
        rw [mget_eq]
        exact runShards_fades _ (fun _ _ _ _ => getAll_fades _ _) _ engine
      exact fades.origin _ held
  | allKeys => exact engine.allKeys_ages.sheds.fades.origin _ held
  | snapshotAll => exact engine.snapshotAll_ages.sheds.fades.origin _ held
  | gcExpired =>
      have ages : engine.Ages engine.gcExpired.2 := by
        rw [gcExpired_eq]
        exact runShards_ages _ (fun _ _ => rfl) _ engine
      exact ages.sheds.fades.origin _ held

end Runs

end OnyxEngine

end OnyxDB.Engine
