import Mathlib.Order.Fin.Basic
import OnyxDB.Engine.DatasetSpec
import OnyxDB.Engine.FlatMap

/-! Every operation of the engine answers and leaves its slots as the flat map does, at readings the
clock shows while the operation runs. -/

namespace OnyxDB.Engine
open OnyxDB.Library OnyxDB.Engine.Value

/-- Reading an entry twice leaves what the later reading leaves. -/
theorem touched_touched {early late : Nat} (order : early ≤ late) (slot : Option DataEntry) :
    OnyxEngine.touched late (OnyxEngine.touched early slot) = OnyxEngine.touched late slot := by
  cases slot with
  | none => rfl
  | some entry =>
      simp only [OnyxEngine.touched, fresh_some]
      cases past : entry.expired early with
      | true =>
          have gone : entry.expired late = true := expiryPassed_mono order past
          simp [gone]
      | false =>
          simp only [Bool.false_eq_true, if_false, Option.map_some, fresh_some]
          have same : DataEntry.expired { entry with lastAccessed := early } late = entry.expired late := rfl
          rw [same]
          cases entry.expired late <;> rfl

namespace Clock

/-- Readings taken while an operation runs lie between its first and its next reading. -/
theorem within {clock later : Clock} (steady : clock.Nondecreasing) {time created accessed : Nat}
    (decided : clock.Shows later time) (made : clock.Shows later created)
    (used : clock.Shows later accessed) :
    Readings.Within ⟨time, created, accessed, fun _ => time, fun _ => time⟩ clock.now later.now :=
  ⟨⟨decided.now_le steady, decided.le_now steady⟩, ⟨made.now_le steady, made.le_now steady⟩,
    ⟨used.now_le steady, used.le_now steady⟩,
    fun _ => ⟨decided.now_le steady, decided.le_now steady⟩,
    fun _ => ⟨decided.now_le steady, decided.le_now steady⟩⟩

theorem Leads.shows_now {clock later : Clock} (leads : clock.Leads later) : clock.Shows later clock.now := by
  obtain ⟨readings, same⟩ := leads
  exact ⟨0, readings, Nat.zero_le _, rfl, same⟩

/-- Readings of the clock chosen for positions and keys. -/
theorem within_each {clock later : Clock} (steady : clock.Nondecreasing)
    (leads : clock.Leads later) {position : Nat → Nat} {key : Bytes → Nat}
    (positions : ∀ place, clock.Shows later (position place))
    (keys : ∀ name, clock.Shows later (key name)) :
    Readings.Within ⟨clock.now, clock.now, clock.now, position, key⟩ clock.now later.now := by
  have order := leads.now_le steady
  exact ⟨⟨le_rfl, order⟩, ⟨le_rfl, order⟩, ⟨le_rfl, order⟩,
    fun place => ⟨(positions place).now_le steady, (positions place).le_now steady⟩,
    fun name => ⟨(keys name).now_le steady, (keys name).le_now steady⟩⟩

end Clock

namespace Guard
variable {index : Fin numShards} [Platform]

theorem insert_fst (guard : Guard index) (key : Key index) (entry : DataEntry) :
    (guard.insert key entry).1 = guard.lookup key := by
  have found := guard.shard.data.insert_fst key entry
  unfold insert
  cases inserted : guard.shard.data.insert key entry with
  | mk old data =>
      rw [inserted] at found
      simp only [unixSeconds, inserted]
      cases old <;> exact found

theorem insertIfAbsent_fst (guard : Guard index) (key : Key index) (entry : DataEntry) :
    (guard.insertIfAbsent key entry).1 = (fresh guard.clock.now (guard.lookup key)).isNone := by
  rw [← purgeNow_slot]
  unfold insertIfAbsent
  cases held : (guard.purgeNow key).2.lookup key <;> simp [held]

/-- A new entry takes the place of the slot unless its expiry has passed: everything is decided at one
reading, the last one if the expiry has passed and the first one otherwise. -/
theorem insertUnlessExpired_decides (guard : Guard index) (steady : guard.clock.Nondecreasing)
    (key : Key index) (expires : Option Nat) (entry : Guard index → DataEntry)
    (install : Guard index → Option DataEntry × Guard index)
    (returns : ∀ guard : Guard index, (install guard).1 = guard.lookup key)
    (installs : ∀ guard : Guard index, guard.Sets (install guard).2 key (some (entry guard))) :
    ∃ time, guard.clock.Shows (OnyxEngine.insertUnlessExpired guard key expires install).2.clock time ∧
      (OnyxEngine.insertUnlessExpired guard key expires install).1 = fresh time (guard.lookup key) ∧
      (expiryPassed time expires = true ∧
          guard.Sets (OnyxEngine.insertUnlessExpired guard key expires install).2 key none ∨
        expiryPassed time expires = false ∧ ∃ later, guard.clock.Leads later.clock ∧
          OnyxEngine.insertUnlessExpired guard key expires install = install later ∧
          guard.Sets (OnyxEngine.insertUnlessExpired guard key expires install).2 key
            (some (entry later))) := by
  unfold OnyxEngine.insertUnlessExpired
  obtain ⟨slots, leads, reading, taken, checked⟩ :=
    OnyxEngine.expiryReached_cases (guard.purgeNow key).2 expires
  have purged := guard.purgeNow_sets key
  have slot : (OnyxEngine.expiryReached (guard.purgeNow key).2 expires).2.lookup key =
      fresh guard.clock.now (guard.lookup key) := by
    rw [slots, purgeNow_slot]
  generalize OnyxEngine.expiryReached (guard.purgeNow key).2 expires = reached at *
  obtain ⟨past, later⟩ := reached
  have start := purged.leads.trans leads
  have ready : guard.Sets later key (fresh guard.clock.now (guard.lookup key)) := by
    refine ⟨start, ?_⟩
    rw [slots, purgeNow_lookup]
  have early : guard.clock.now ≤ reading := (purged.leads.shows taken).now_le steady
  have late : reading ≤ later.clock.now := (purged.leads.shows taken).le_now steady
  cases past with
  | true =>
      obtain ⟨removed, result⟩ := later.remove_cases key
      refine ⟨later.clock.now, start.shows removed.leads.shows_now, ?_, Or.inl ⟨?_, ?_⟩⟩
      · rw [result, slot, fresh_fresh (early.trans late)]
      · exact expiryPassed_mono late checked.symm
      · exact ready.trans removed
  | false =>
      have installed := installs later
      refine ⟨guard.clock.now, (start.trans installed.leads).shows_now, (returns later).trans slot,
        Or.inr ⟨?_, later, start, rfl, ready.trans installed⟩⟩
      cases passed : expiryPassed guard.clock.now expires with
      | false => rfl
      | true =>
          rw [expiryPassed_mono early passed] at checked
          cases checked

/-- Setting an expiry is decided at one reading as well: the second one if the key is removed. -/
theorem setExpiryConditional_decides (guard : Guard index) (steady : guard.clock.Nondecreasing)
    (key : Key index) (timestamp : Nat) (requireExpiry : Option Bool) :
    ∃ time, guard.clock.Shows (guard.setExpiryConditional key timestamp requireExpiry).2.clock time ∧
      (guard.setExpiryConditional key timestamp requireExpiry).1 =
        (FlatMap.withExpiry time timestamp requireExpiry (fresh time (guard.lookup key))).1 ∧
      guard.Sets (guard.setExpiryConditional key timestamp requireExpiry).2 key
        (FlatMap.withExpiry time timestamp requireExpiry (fresh time (guard.lookup key))).2 := by
  have purged := guard.purgeNow_sets key
  have slot := guard.purgeNow_slot key
  unfold setExpiryConditional
  cases held : (guard.purgeNow key).2.lookup key with
  | none =>
      have same := Sets.unchanged (guard.purgeNow key).2 key
      rw [held] at same slot
      refine ⟨guard.clock.now, ?_, ?_, ?_⟩
      · simp only [held]
        exact purged.leads.shows_now
      · rw [← slot]
        simp only [held]
        rfl
      · rw [← slot]
        simp only [held]
        exact same.after_purge
  | some entry =>
      rw [held] at slot
      have same := Sets.unchanged (guard.purgeNow key).2 key
      rw [held] at same
      by_cases refused : requireExpiry.any (fun required => required != entry.expiresAt.isSome) = true
      · refine ⟨guard.clock.now, ?_, ?_, ?_⟩
        · simp only [held, refused, if_true]
          exact purged.leads.shows_now
        · rw [← slot]
          simp only [held, FlatMap.withExpiry, refused, if_true]
        · rw [← slot]
          simp only [held, FlatMap.withExpiry, refused, if_true]
          exact same.after_purge
      · by_cases early : timestamp ≤ guard.clock.now
        · obtain ⟨removed, result⟩ := (guard.purgeNow key).2.remove_cases key
          have order : guard.clock.now ≤ (guard.purgeNow key).2.clock.now := purged.leads.now_le steady
          have left : fresh (guard.purgeNow key).2.clock.now (guard.lookup key) =
              if entry.expired (guard.purgeNow key).2.clock.now then none else some entry := by
            rw [← fresh_fresh order, ← slot, fresh_some]
          refine ⟨(guard.purgeNow key).2.clock.now, ?_, ?_, ?_⟩
          · simp only [held, refused, purgeNow_fst, early, if_true, if_false, Bool.false_eq_true]
            exact purged.leads.shows removed.leads.shows_now
          · simp only [held, refused, purgeNow_fst, early, if_true, if_false, Bool.false_eq_true]
            rw [result, held, left, fresh_some]
            cases entry.expired (guard.purgeNow key).2.clock.now with
            | true => rfl
            | false =>
                simp only [FlatMap.withExpiry, refused, early.trans order, if_true, if_false,
                  Bool.false_eq_true, Option.isSome_some]
          · simp only [held, refused, purgeNow_fst, early, if_true, if_false, Bool.false_eq_true]
            rw [left]
            cases entry.expired (guard.purgeNow key).2.clock.now with
            | true => exact removed.after_purge
            | false =>
                simp only [FlatMap.withExpiry, refused, early.trans order, if_true, if_false,
                  Bool.false_eq_true]
                exact removed.after_purge
        · refine ⟨guard.clock.now, ?_, ?_, ?_⟩
          · simp only [held, refused, purgeNow_fst, early, if_false, Bool.false_eq_true]
            exact (purged.leads.trans (Clock.leads_tick _)).shows_now
          · rw [← slot]
            simp only [held, refused, purgeNow_fst, early, if_false, Bool.false_eq_true,
              FlatMap.withExpiry]
          · rw [← slot]
            simp only [held, refused, purgeNow_fst, early, if_false, Bool.false_eq_true,
              FlatMap.withExpiry]
            apply Sets.after_purge
            refine ⟨Clock.leads_tick _, ?_⟩
            have slots := (guard.purgeNow key).2.shard.data.get_update key
              (fun entry => { entry with expiresAt := some timestamp })
            rw [show (guard.purgeNow key).2.shard.data.get key = some entry from held] at slots
            exact slots

end Guard

namespace OnyxEngine
variable [Platform]

/-- The operation answers as the flat map does at readings between its first and its next one. -/
def Refines {α : Type} (engine : OnyxEngine) (operation : Operation α) : Prop :=
  engine.clock.Leads (operation.run engine).2.clock ∧ ∃ readings : Readings, readings.Within engine.clock.now (operation.run engine).2.clock.now ∧
    FlatMap.Answers operation readings engine.lookup (operation.run engine).1
      (operation.run engine).2.lookup

omit [Platform] in
/-- An operation that sets one slot, as a decision of the flat map. -/
theorem Sets.atKey {α : Type} {engine after : OnyxEngine} {key : Bytes} {slot : Option DataEntry}
    (sets : engine.Sets after key slot) {result : α} {time : Nat}
    {decision : Option DataEntry → α × Option DataEntry}
    (decided : decision (fresh time (engine.lookup key)) = (result, slot)) :
    (result, after.lookup) = FlatMap.atKey engine.lookup key time decision := by
  rw [FlatMap.atKey, decided, sets.lookup]

/-- The operations that are decided at their first reading. -/
theorem refines_first {α : Type} {engine : OnyxEngine} (steady : engine.clock.Nondecreasing)
    {operation : Operation α} (leads : engine.clock.Leads (operation.run engine).2.clock)
    (answers : FlatMap.Answers operation (.single engine.clock.now) engine.lookup
      (operation.run engine).1 (operation.run engine).2.lookup) : engine.Refines operation :=
  ⟨leads, .single engine.clock.now, Readings.single_within le_rfl (leads.now_le steady), answers⟩

theorem set_refines {engine : OnyxEngine} (steady : engine.clock.Nondecreasing) (key : Bytes)
    (value : OnyxValue) (expires : Option Nat) : engine.Refines (.set key value expires) := by
  let guard : Guard (shardForKey key) := ⟨engine.shards (shardForKey key), engine.totalKeys, engine.clock⟩
  let install := fun current : Guard (shardForKey key) =>
    current.unixSeconds.2.unixSeconds.2.insert ⟨key, rfl⟩
      ⟨value, expires, current.clock.now, current.clock.tick.now⟩
  have installs (current : Guard (shardForKey key)) : current.Sets (install current).2 ⟨key, rfl⟩
      (some ⟨value, expires, current.clock.now, current.clock.tick.now⟩) := by
    have inserted := current.unixSeconds.2.unixSeconds.2.insert_sets ⟨key, rfl⟩
      ⟨value, expires, current.clock.now, current.clock.tick.now⟩
    exact ⟨(current.clock.leads_tick.trans current.clock.tick.leads_tick).trans inserted.leads,
      inserted.lookup⟩
  obtain ⟨time, taken, result, outcome⟩ := guard.insertUnlessExpired_decides steady ⟨key, rfl⟩ expires
    (fun current => ⟨value, expires, current.clock.now, current.clock.tick.now⟩) install
    (fun current => current.unixSeconds.2.unixSeconds.2.insert_fst ⟨key, rfl⟩ _) installs
  rcases outcome with ⟨past, sets⟩ | ⟨current, later, leads, same, sets⟩
  · refine ⟨taken.leads, ⟨time, time, time, fun _ => time, fun _ => time⟩,
    Clock.within steady taken taken taken, ?_⟩
    apply (withKey_sets_here engine key _ none sets).atKey
    rw [fresh_some, DataEntry.expired, past, if_pos rfl]
    exact Prod.ext result.symm rfl
  · have ends : later.clock.tick.tick.Leads (insertUnlessExpired guard ⟨key, rfl⟩ expires install).2.clock := by
      rw [same]
      exact (later.unixSeconds.2.unixSeconds.2.insert_sets ⟨key, rfl⟩ _).leads
    have made := leads.shows
      ((later.clock.leads_tick.trans later.clock.tick.leads_tick).trans ends).shows_now
    have used := (leads.trans later.clock.leads_tick).shows
      (later.clock.tick.leads_tick.trans ends).shows_now
    refine ⟨taken.leads, ⟨time, later.clock.now, later.clock.tick.now, fun _ => time, fun _ => time⟩,
      Clock.within steady taken made used, ?_⟩
    apply (withKey_sets_here engine key _ _ sets).atKey
    rw [fresh_some, DataEntry.expired, current, if_neg (by simp)]
    exact Prod.ext result.symm rfl

theorem applyEntry_refines {engine : OnyxEngine} (steady : engine.clock.Nondecreasing) (key : Bytes)
    (entry : DataEntry) : engine.Refines (.applyEntry key entry) := by
  let guard : Guard (shardForKey key) := ⟨engine.shards (shardForKey key), engine.totalKeys, engine.clock⟩
  obtain ⟨time, taken, result, outcome⟩ := guard.insertUnlessExpired_decides steady ⟨key, rfl⟩
    entry.expiresAt (fun _ => entry) (fun current => current.insert ⟨key, rfl⟩ entry)
    (fun current => current.insert_fst ⟨key, rfl⟩ entry)
    (fun current => current.insert_sets ⟨key, rfl⟩ entry)
  refine ⟨taken.leads, ⟨time, time, time, fun _ => time, fun _ => time⟩,
    Clock.within steady taken taken taken, ?_⟩
  rcases outcome with ⟨past, sets⟩ | ⟨current, later, leads, same, sets⟩
  · apply (withKey_sets_here engine key _ none sets).atKey
    rw [fresh_some, DataEntry.expired, past, if_pos rfl]
    exact Prod.ext result.symm rfl
  · apply (withKey_sets_here engine key _ _ sets).atKey
    rw [fresh_some, DataEntry.expired, current, if_neg (by simp)]
    exact Prod.ext result.symm rfl

theorem updateIfExistsWithAction_sets {α : Type} (engine : OnyxEngine) (key : Bytes)
    (mutate : OnyxValue → EntryMutation α × OnyxValue) :
    engine.Sets (engine.updateIfExistsWithAction key mutate).2 key
      (Guard.mutated engine.clock.now mutate (fresh engine.clock.now (engine.lookup key))) := by
  apply withKey_sets
  intro guard clock slot
  rw [← clock, ← slot]
  exact guard.updateIfExistsWithAction_sets ⟨key, rfl⟩ mutate

theorem updateIfExistsWithAction_fst {α : Type} (engine : OnyxEngine) (key : Bytes)
    (mutate : OnyxValue → EntryMutation α × OnyxValue) :
    (engine.updateIfExistsWithAction key mutate).1 =
      (fresh engine.clock.now (engine.lookup key)).map (fun entry => (mutate entry.value).1.result) := by
  apply withKey_fst
  intro guard clock slot
  rw [← clock, ← slot]
  exact guard.updateIfExistsWithAction_fst ⟨key, rfl⟩ mutate

theorem updateEntryOrInsertWithPresence_sets {α : Type} (engine : OnyxEngine) (key : Bytes)
    (default : OnyxValue) (mutate : DataEntry → Bool → α × DataEntry) :
    engine.Sets (engine.updateEntryOrInsertWithPresence key default mutate).2 key
      (some (Guard.upserted engine.clock.now default mutate
        (fresh engine.clock.now (engine.lookup key))).2) := by
  apply withKey_sets
  intro guard clock slot
  rw [← clock, ← slot]
  exact guard.updateEntryOrInsertWithPresence_sets ⟨key, rfl⟩ default mutate

theorem updateEntryOrInsertWithPresence_fst {α : Type} (engine : OnyxEngine) (key : Bytes)
    (default : OnyxValue) (mutate : DataEntry → Bool → α × DataEntry) :
    (engine.updateEntryOrInsertWithPresence key default mutate).1 =
      (Guard.upserted engine.clock.now default mutate
        (fresh engine.clock.now (engine.lookup key))).1 := by
  apply withKey_fst
  intro guard clock slot
  rw [← clock, ← slot]
  exact guard.updateEntryOrInsertWithPresence_fst ⟨key, rfl⟩ default mutate

theorem updateIfExists_refines {α : Type} {engine : OnyxEngine}
    (steady : engine.clock.Nondecreasing) (key : Bytes) (mutate : OnyxValue → α × OnyxValue) :
    engine.Refines (.updateIfExists key mutate) := by
  let action := fun value => ((.keep (mutate value).1, (mutate value).2) : EntryMutation α × OnyxValue)
  have sets := engine.updateIfExistsWithAction_sets key action
  have result := engine.updateIfExistsWithAction_fst key action
  have kept (slot : Option DataEntry) : Guard.mutated engine.clock.now action slot =
      slot.map (fun entry =>
        { entry with lastAccessed := engine.clock.now, value := (mutate entry.value).2 }) := by
    cases slot <;> rfl
  rw [kept] at sets
  apply @refines_first _ _ engine steady (.updateIfExists key mutate) sets.leads
  apply sets.atKey
  exact Prod.ext result.symm rfl

/-- The three forms of update-or-insert tell their closure whether the key existed. -/
theorem upsert_decides {α : Type} (engine : OnyxEngine) (key : Bytes) (default : OnyxValue)
    (mutate : DataEntry → Bool → α × DataEntry) :
    engine.clock.Leads (engine.updateEntryOrInsertWithPresence key default mutate).2.clock ∧
      ((engine.updateEntryOrInsertWithPresence key default mutate).1,
        (engine.updateEntryOrInsertWithPresence key default mutate).2.lookup) =
      FlatMap.atKey engine.lookup key engine.clock.now (fun slot =>
        ((mutate (Guard.prepared engine.clock.now default slot).1 slot.isSome).1,
          some (mutate (Guard.prepared engine.clock.now default slot).1 slot.isSome).2)) := by
  have presence (slot : Option DataEntry) :
      (Guard.prepared engine.clock.now default slot).2 = slot.isSome := by
    cases slot <;> rfl
  have result := engine.updateEntryOrInsertWithPresence_fst key default mutate
  have sets := engine.updateEntryOrInsertWithPresence_sets key default mutate
  unfold Guard.upserted at result sets
  rw [presence] at result sets
  exact ⟨sets.leads, sets.atKey (Prod.ext result.symm rfl)⟩

/-- The body of `set_conditional` once its condition has been looked at. -/
def setWhere {index : Fin numShards} (value : OnyxValue) (expiresAt : Option Nat)
    (condition : Option Bool) (key : Key index) (guard : Guard index) : Bool × Guard index :=
  let purged := (guard.purgeNow key).2
  if FlatMap.allows condition (purged.lookup key) then
    (true, (purged.unixSeconds.2.insert key ⟨value, expiresAt, purged.clock.now, purged.clock.now⟩).2)
  else (false, purged)

theorem setConditional_eq (engine : OnyxEngine) (key : Bytes) (value : OnyxValue)
    (expiresAt : Option Nat) (condition : Option Bool) :
    engine.setConditional key value expiresAt condition =
      engine.withKey key (fun _ => setWhere value expiresAt condition) := by
  unfold setConditional
  congr 1
  funext index key guard
  unfold setWhere
  cases held : (guard.purgeNow key).2.lookup key with
  | none =>
      rcases condition with _ | (_ | _) <;> simp only [held] <;> rfl
  | some entry =>
      rcases condition with _ | (_ | _) <;> simp only [held] <;> rfl

theorem setConditional_refines {engine : OnyxEngine} (steady : engine.clock.Nondecreasing) (key : Bytes)
    (value : OnyxValue) (expiresAt : Option Nat) (condition : Option Bool) :
    engine.Refines (.setConditional key value expiresAt condition) := by
  let guard : Guard (shardForKey key) := ⟨engine.shards (shardForKey key), engine.totalKeys, engine.clock⟩
  let purged := (guard.purgeNow ⟨key, rfl⟩).2
  let entry : DataEntry := ⟨value, expiresAt, purged.clock.now, purged.clock.now⟩
  have clean := guard.purgeNow_sets ⟨key, rfl⟩
  have slot : purged.lookup ⟨key, rfl⟩ = fresh engine.clock.now (engine.lookup key) :=
    guard.purgeNow_slot ⟨key, rfl⟩
  unfold Refines
  simp only [Operation.run]
  rw [setConditional_eq]
  cases allowed : FlatMap.allows condition (purged.lookup ⟨key, rfl⟩) with
  | true =>
      have inserted := purged.unixSeconds.2.insert_sets ⟨key, rfl⟩ entry
      have ends := purged.clock.leads_tick.trans inserted.leads
      have ran : setWhere value expiresAt condition ⟨key, rfl⟩ guard =
          (true, (purged.unixSeconds.2.insert ⟨key, rfl⟩ entry).2) := if_pos allowed
      have sets : engine.Sets (engine.withKey key (fun _ => setWhere value expiresAt condition)).2 key
          (some entry) := by
        apply withKey_sets_here
        rw [ran]
        exact clean.trans ⟨ends, inserted.lookup⟩
      have finish : (engine.withKey key (fun _ => setWhere value expiresAt condition)).2.clock =
          (purged.unixSeconds.2.insert ⟨key, rfl⟩ entry).2.clock :=
        congrArg (fun outcome => outcome.2.clock) ran
      refine ⟨sets.leads, ⟨engine.clock.now, purged.clock.now, purged.clock.now, fun _ => engine.clock.now,
        fun _ => engine.clock.now⟩, Clock.within steady sets.leads.shows_now ?_ ?_, ?_⟩
      · rw [finish]
        exact clean.leads.shows ends.shows_now
      · rw [finish]
        exact clean.leads.shows ends.shows_now
      · apply sets.atKey
        rw [← slot, allowed]
        exact Prod.ext (congrArg Prod.fst ran).symm rfl
  | false =>
      have ran : setWhere value expiresAt condition ⟨key, rfl⟩ guard = (false, purged) :=
        if_neg (ne_true_of_eq_false allowed)
      have sets : engine.Sets (engine.withKey key (fun _ => setWhere value expiresAt condition)).2 key
          (fresh engine.clock.now (engine.lookup key)) := by
        apply withKey_sets_here
        rw [ran]
        exact clean
      rw [slot] at allowed
      refine ⟨sets.leads, .single engine.clock.now,
        Readings.single_within le_rfl (sets.leads.now_le steady), ?_⟩
      apply sets.atKey
      simp only [Readings.single, allowed, Bool.false_eq_true, if_false]
      exact Prod.ext (congrArg Prod.fst ran).symm rfl

theorem setIfAbsent_refines {engine : OnyxEngine} (steady : engine.clock.Nondecreasing) (key : Bytes)
    (value : OnyxValue) : engine.Refines (.setIfAbsent key value) := by
  let guard : Guard (shardForKey key) :=
    ⟨engine.shards (shardForKey key), engine.totalKeys, engine.clock.tick⟩
  let entry : DataEntry := ⟨value, none, engine.clock.now, engine.clock.now⟩
  have inserted := guard.insertIfAbsent_sets ⟨key, rfl⟩ entry
  have result := guard.insertIfAbsent_fst ⟨key, rfl⟩ entry
  have leads := engine.clock.leads_tick.trans inserted.leads
  have taken := engine.clock.leads_tick.shows inserted.leads.shows_now
  have sets : engine.Sets (engine.setIfAbsent key value).2 key _ :=
    withKey_sets_here engine key _ _ ⟨leads, inserted.lookup⟩
  refine ⟨leads, ⟨engine.clock.tick.now, engine.clock.now, engine.clock.now, fun _ => engine.clock.tick.now,
    fun _ => engine.clock.tick.now⟩, Clock.within steady taken leads.shows_now leads.shows_now, ?_⟩
  apply sets.atKey
  apply Prod.ext
  · exact result.symm
  · change (fresh engine.clock.tick.now (engine.lookup key)).or (some entry) =
      some ((fresh engine.clock.tick.now (engine.lookup key)).getD entry)
    cases fresh engine.clock.tick.now (engine.lookup key) <;> rfl

theorem setExpiryConditional_refines {engine : OnyxEngine} (steady : engine.clock.Nondecreasing)
    (key : Bytes) (timestamp : Nat) (requireExpiry : Option Bool) :
    engine.Refines (.setExpiryConditional key timestamp requireExpiry) := by
  let guard : Guard (shardForKey key) := ⟨engine.shards (shardForKey key), engine.totalKeys, engine.clock⟩
  obtain ⟨time, taken, result, sets⟩ :=
    guard.setExpiryConditional_decides steady ⟨key, rfl⟩ timestamp requireExpiry
  refine ⟨taken.leads, ⟨time, time, time, fun _ => time, fun _ => time⟩,
    Clock.within steady taken taken taken, ?_⟩
  apply (withKey_sets_here engine key _ _ sets).atKey
  exact Prod.ext result.symm rfl

theorem remove_sets (engine : OnyxEngine) (key : Bytes) :
    engine.Sets (engine.withKey key (fun _ key guard => guard.remove key)).2 key none ∧
      (engine.withKey key (fun _ key guard => guard.remove key)).1 =
        fresh engine.clock.now (engine.lookup key) := by
  let guard : Guard (shardForKey key) := ⟨engine.shards (shardForKey key), engine.totalKeys, engine.clock⟩
  obtain ⟨removed, result⟩ := guard.remove_cases ⟨key, rfl⟩
  exact ⟨withKey_sets_here engine key _ none removed, result⟩

theorem insert_sets (engine : OnyxEngine) (key : Bytes) (entry : DataEntry) :
    engine.Sets (engine.withKey key (fun _ key guard => guard.insert key entry)).2 key (some entry) := by
  apply withKey_sets
  intro guard _ _
  exact guard.insert_sets ⟨key, rfl⟩ entry

/-- A rename moves what is left of the source. Nothing is asked about the target, so equal keys, one
shard or two, and an expired target make no difference. -/
theorem rename_refines {engine : OnyxEngine} (steady : engine.clock.Nondecreasing) (source target : Bytes) :
    engine.Refines (.rename source target) := by
  obtain ⟨removed, result⟩ := engine.remove_sets source
  unfold Refines
  simp only [Operation.run, rename]
  cases ran : engine.withKey source (fun _ key guard => guard.remove key) with
  | mk entry after =>
      rw [ran] at removed result
      cases entry with
      | none =>
          refine ⟨removed.leads, .single engine.clock.now,
            Readings.single_within le_rfl (removed.leads.now_le steady), ?_⟩
          simp only [FlatMap.Answers, Readings.single, FlatMap.moved, ← result]
          rw [removed.lookup]
      | some entry =>
          have inserted := after.insert_sets target entry
          have leads := removed.leads.trans inserted.leads
          refine ⟨leads, .single engine.clock.now,
            Readings.single_within le_rfl (leads.now_le steady), ?_⟩
          simp only [FlatMap.Answers, Readings.single, FlatMap.moved, ← result]
          rw [inserted.lookup, removed.lookup]

/-- Looking at a slot with a reading that was taken before. -/
theorem inspect_sets (engine : OnyxEngine) (key : Bytes) (timestamp : Nat) :
    engine.Sets (engine.withKey key (fun _ key guard =>
        let (_, guard) := guard.purgeIfExpired key timestamp
        (guard.lookup key, guard))).2 key (fresh timestamp (engine.lookup key)) ∧
      (engine.withKey key (fun _ key guard =>
        let (_, guard) := guard.purgeIfExpired key timestamp
        (guard.lookup key, guard))).1 = fresh timestamp (engine.lookup key) := by
  let guard : Guard (shardForKey key) := ⟨engine.shards (shardForKey key), engine.totalKeys, engine.clock⟩
  obtain ⟨_, slots, clock⟩ := guard.purgeIfExpired_cases ⟨key, rfl⟩ timestamp
  constructor
  · apply withKey_sets_here
    refine ⟨?_, slots⟩
    change guard.clock.Leads (guard.purgeIfExpired ⟨key, rfl⟩ timestamp).2.clock
    rw [clock]
    exact Clock.Leads.refl _
  · change (guard.purgeIfExpired ⟨key, rfl⟩ timestamp).2.lookup ⟨key, rfl⟩ = _
    rw [slots, Function.update_self]
    rfl

theorem copy_refines {engine : OnyxEngine} (steady : engine.clock.Nondecreasing) (source target : Bytes) :
    engine.Refines (.copy source target) := by
  let ticked : OnyxEngine := { engine with clock := engine.clock.tick }
  obtain ⟨looked, result⟩ := ticked.inspect_sets source engine.clock.now
  unfold Refines
  simp only [Operation.run, copy, unixSeconds]
  cases ran : ticked.withKey source (fun _ key guard =>
      let (_, guard) := guard.purgeIfExpired key engine.clock.now
      (guard.lookup key, guard)) with
  | mk entry after =>
      rw [ran] at looked result
      change entry = fresh engine.clock.now (engine.lookup source) at result
      have slots : after.lookup = Function.update engine.lookup source
          (fresh engine.clock.now (engine.lookup source)) := looked.lookup
      have start : engine.clock.Leads after.clock := engine.clock.leads_tick.trans looked.leads
      cases entry with
      | none =>
          refine ⟨start, .single engine.clock.now,
            Readings.single_within le_rfl (start.now_le steady), ?_⟩
          simp only [FlatMap.Answers, Readings.single, FlatMap.copied, ← result]
          rw [slots, ← result]
      | some entry =>
          have held := (Expiring.live_eq_some result.symm).1
          have same : after.lookup = engine.lookup := by
            rw [slots, ← result, ← held, Function.update_eq_self]
          by_cases equal : source = target
          · subst equal
            simp only [if_true]
            refine ⟨start, .single engine.clock.now,
              Readings.single_within le_rfl (start.now_le steady), ?_⟩
            · simp only [FlatMap.Answers, Readings.single, FlatMap.copied, ← result, if_true]
              rw [same]
          · have inserted := after.insert_sets target
              ⟨entry.value, entry.expiresAt, engine.clock.now, engine.clock.now⟩
            have leads := start.trans inserted.leads
            simp only [equal, if_false]
            refine ⟨leads, .single engine.clock.now,
              Readings.single_within le_rfl (leads.now_le steady), ?_⟩
            · simp only [FlatMap.Answers, Readings.single, FlatMap.copied, ← result, equal, if_false]
              rw [inserted.lookup, same]

omit [Platform] in
/-- Storing answers at their positions: a position that was answered holds one of its answers. -/
theorem foldl_set_answered {β : Type} (answers : List (Nat × β)) (results : List β) :
    (answers.foldl (fun results answer => results.set answer.1 answer.2) results).length =
        results.length ∧
      ∀ position < results.length,
        (∃ answer, (position, answer) ∈ answers ∧
          (answers.foldl (fun results answer => results.set answer.1 answer.2) results)[position]? =
            some answer) ∨
        position ∉ answers.map Prod.fst ∧
          (answers.foldl (fun results answer => results.set answer.1 answer.2) results)[position]? =
            results[position]? := by
  induction answers generalizing results with
  | nil => exact ⟨rfl, fun position _ => Or.inr ⟨List.not_mem_nil, rfl⟩⟩
  | cons first answers rest =>
      obtain ⟨size, stored⟩ := rest (results.set first.1 first.2)
      rw [List.length_set] at size stored
      refine ⟨size, ?_⟩
      intro position within
      rcases stored position within with ⟨answer, member, found⟩ | ⟨absent, found⟩
      · exact Or.inl ⟨answer, List.mem_cons_of_mem _ member, found⟩
      · by_cases here : first.1 = position
        · subst here
          left
          refine ⟨first.2, List.mem_cons_self, found.trans ?_⟩
          simp [within]
        · right
          refine ⟨?_, found.trans (List.getElem?_set_ne here)⟩
          simp only [List.map_cons, List.mem_cons, not_or]
          exact ⟨Ne.symm here, absent⟩

omit [Platform] in
theorem mem_keysOfShard (keys : List Bytes) {index : Fin numShards} (position : Nat) (key : Key index) :
    (position, key) ∈ keysOfShard keys index ↔ keys[position]? = some key.1 := by
  unfold keysOfShard
  have listed : (key.1, position) ∈ keys.zipIdx ↔ keys[position]? = some key.1 :=
    List.mem_zipIdx_iff_getElem?
  rw [List.mem_filterMap, ← listed]
  constructor
  · rintro ⟨⟨other, place⟩, member, mapped⟩
    by_cases home : shardForKey other = index
    · rw [dif_pos home] at mapped
      cases mapped
      exact member
    · rw [dif_neg home] at mapped
      cases mapped
  · intro member
    exact ⟨(key.1, position), member, dif_pos key.2⟩

/-- Reading keys of one shard: every answer is the slot as it was at the start, looked at some reading. -/
theorem getAll_reads {index : Fin numShards} (requests : List (Nat × Key index)) (guard : Guard index)
    (steady : guard.clock.Nondecreasing) :
    guard.clock.Leads (getAll guard requests).2.clock ∧
    (∀ key, key ∉ requests.map Prod.snd → (getAll guard requests).2.lookup key = guard.lookup key) ∧
    (∀ key ∈ requests.map Prod.snd, ∃ time, guard.clock.Shows (getAll guard requests).2.clock time ∧
      (getAll guard requests).2.lookup key = touched time (guard.lookup key)) ∧
    (∀ position answer, (position, answer) ∈ (getAll guard requests).1 →
      ∃ key time, (position, key) ∈ requests ∧ guard.clock.Shows (getAll guard requests).2.clock time ∧
        answer = touched time (guard.lookup key)) ∧
    ∀ position key, (position, key) ∈ requests →
      ∃ answer, (position, answer) ∈ (getAll guard requests).1 := by
  induction requests generalizing guard with
  | nil =>
      refine ⟨Clock.Leads.refl _, fun _ _ => rfl, ?_, ?_, ?_⟩
      · intro key member
        cases member
      · intro position answer member
        cases member
      · intro position key member
        cases member
  | cons request requests rest =>
      obtain ⟨place, asked⟩ := request
      have first := guard.get_sets asked
      have answered := guard.get_fst asked
      obtain ⟨leads, untouched, visited, answers, complete⟩ :=
        rest (guard.get asked).2 (first.leads.nondecreasing steady)
      have whole := first.leads.trans leads
      have here : (guard.get asked).2.lookup asked = touched guard.clock.now (guard.lookup asked) := by
        rw [first.lookup, Function.update_self]
        rfl
      have elsewhere (key : Key index) (differ : key ≠ asked) :
          (guard.get asked).2.lookup key = guard.lookup key := by
        rw [first.lookup, Function.update_of_ne differ]
      have again (key : Key index) (time : Nat)
          (taken : (guard.get asked).2.clock.Shows (getAll (guard.get asked).2 requests).2.clock time) :
          touched time ((guard.get asked).2.lookup key) = touched time (guard.lookup key) := by
        by_cases same : key = asked
        · subst same
          rw [here]
          exact touched_touched ((first.leads.shows taken).now_le steady) _
        · rw [elsewhere key same]
      refine ⟨whole, ?_, ?_, ?_, ?_⟩
      · intro key absent
        simp only [List.map_cons, List.mem_cons, not_or] at absent
        exact (untouched key absent.2).trans (elsewhere key absent.1)
      · intro key member
        by_cases later : key ∈ requests.map Prod.snd
        · obtain ⟨time, taken, slot⟩ := visited key later
          exact ⟨time, first.leads.shows taken, slot.trans (again key time taken)⟩
        · have same : key = asked := (List.mem_cons.mp member).resolve_right later
          subst same
          exact ⟨guard.clock.now, whole.shows_now, (untouched key later).trans here⟩
      · intro position answer member
        rcases List.mem_cons.mp member with head | tail
        · cases head
          exact ⟨asked, guard.clock.now, List.mem_cons_self, whole.shows_now, answered⟩
        · obtain ⟨key, time, listed, taken, slot⟩ := answers position answer tail
          exact ⟨key, time, List.mem_cons_of_mem _ listed, first.leads.shows taken,
            slot.trans (again key time taken)⟩
      · intro position key member
        rcases List.mem_cons.mp member with head | tail
        · cases head
          exact ⟨_, List.mem_cons_self⟩
        · obtain ⟨answer, listed⟩ := complete position key tail
          exact ⟨answer, List.mem_cons_of_mem _ listed⟩

/-- The same over shards, each of which answers for its own keys. -/
theorem mgetShards_reads (keys : List Bytes) (indices : List (Fin numShards)) (distinct : indices.Nodup)
    (engine : OnyxEngine) (steady : engine.clock.Nondecreasing) :
    let outcome := runShards (fun index guard => getAll guard (keysOfShard keys index)) indices engine
    engine.clock.Leads outcome.2.clock ∧
    (∀ key, shardForKey key ∉ indices ∨ key ∉ keys → outcome.2.lookup key = engine.lookup key) ∧
    (∀ key, shardForKey key ∈ indices → key ∈ keys →
      ∃ time, engine.clock.Shows outcome.2.clock time ∧
        outcome.2.lookup key = touched time (engine.lookup key)) ∧
    (∀ position answer, (position, answer) ∈ outcome.1.flatten →
      ∃ key time, keys[position]? = some key ∧ shardForKey key ∈ indices ∧
        engine.clock.Shows outcome.2.clock time ∧ answer = touched time (engine.lookup key)) ∧
    ∀ position key, keys[position]? = some key → shardForKey key ∈ indices →
      ∃ answer, (position, answer) ∈ outcome.1.flatten := by
  induction indices generalizing engine with
  | nil =>
      refine ⟨Clock.Leads.refl _, fun _ _ => rfl, ?_, ?_, ?_⟩
      · intro key member
        cases member
      · intro position answer member
        cases member
      · intro position key _ member
        cases member
  | cons index indices rest =>
      obtain ⟨absent, distinct⟩ := List.nodup_cons.mp distinct
      let guard : Guard index := ⟨engine.shards index, engine.totalKeys, engine.clock⟩
      obtain ⟨firstLeads, untouched, visited, answers, complete⟩ :=
        getAll_reads (keysOfShard keys index) guard steady
      let next := (engine.withShard index (fun guard => getAll guard (keysOfShard keys index))).2
      have slots (key : Bytes) : next.lookup key =
          if here : shardForKey key = index then
            (getAll guard (keysOfShard keys index)).2.lookup ⟨key, here⟩
          else engine.lookup key := lookup_withShard engine index _ key
      have elsewhere (key : Bytes) (away : shardForKey key ≠ index) : next.lookup key = engine.lookup key := by
        rw [slots, dif_neg away]
      have home (key : Bytes) (here : shardForKey key = index) :
          guard.lookup ⟨key, here⟩ = engine.lookup key := engine.shard_get index key here
      have requested (key : Bytes) (here : shardForKey key = index) :
          (⟨key, here⟩ : Key index) ∈ (keysOfShard keys index).map Prod.snd ↔ key ∈ keys := by
        rw [List.mem_map, List.mem_iff_getElem?]
        constructor
        · rintro ⟨⟨position, other⟩, member, same⟩
          cases same
          exact ⟨position, (mem_keysOfShard keys position _).mp member⟩
        · rintro ⟨position, found⟩
          exact ⟨(position, ⟨key, here⟩), (mem_keysOfShard keys position _).mpr found, rfl⟩
      obtain ⟨leads, kept, touchedLater, answersLater, completeLater⟩ :=
        rest distinct next (firstLeads.nondecreasing steady)
      refine ⟨firstLeads.trans leads, ?_, ?_, ?_, ?_⟩
      · intro key unread
        by_cases here : shardForKey key = index
        · have missing : key ∉ keys := by
            rcases unread with outside | missing
            · exact absurd (here ▸ List.mem_cons_self) outside
            · exact missing
          calc (runShards _ indices next).2.lookup key
              = next.lookup key := kept key (Or.inr missing)
            _ = (getAll guard (keysOfShard keys index)).2.lookup ⟨key, here⟩ := by
                rw [slots, dif_pos here]
            _ = guard.lookup ⟨key, here⟩ :=
                untouched _ (fun member => missing ((requested key here).mp member))
            _ = engine.lookup key := home key here
        · have later : shardForKey key ∉ indices ∨ key ∉ keys :=
            unread.imp_left (fun outside member => outside (List.mem_cons_of_mem _ member))
          exact (kept key later).trans (elsewhere key here)
      · intro key member listed
        by_cases here : shardForKey key = index
        · obtain ⟨time, taken, slot⟩ := visited ⟨key, here⟩ ((requested key here).mpr listed)
          refine ⟨time, taken.extend leads, ?_⟩
          calc (runShards _ indices next).2.lookup key
              = next.lookup key := kept key (Or.inl (here ▸ absent))
            _ = touched time (guard.lookup ⟨key, here⟩) := by
                rw [slots, dif_pos here]
                exact slot
            _ = touched time (engine.lookup key) := by rw [home key here]
        · obtain ⟨time, taken, slot⟩ :=
            touchedLater key ((List.mem_cons.mp member).resolve_left here) listed
          rw [elsewhere key here] at slot
          exact ⟨time, firstLeads.shows taken, slot⟩
      · intro position answer member
        rcases List.mem_append.mp member with early | late
        · obtain ⟨⟨key, here⟩, time, listed, taken, same⟩ := answers position answer early
          refine ⟨key, time, (mem_keysOfShard keys position _).mp listed, ?_, taken.extend leads, ?_⟩
          · rw [here]
            exact List.mem_cons_self
          · rw [← home key here]
            exact same
        · obtain ⟨key, time, found, listed, taken, same⟩ := answersLater position answer late
          have away : shardForKey key ≠ index := by
            intro here
            exact absent (here ▸ listed)
          rw [elsewhere key away] at same
          exact ⟨key, time, found, List.mem_cons_of_mem _ listed, firstLeads.shows taken, same⟩
      · intro position key found member
        by_cases here : shardForKey key = index
        · obtain ⟨answer, listed⟩ := complete position ⟨key, here⟩
            ((mem_keysOfShard keys position _).mpr found)
          exact ⟨answer, List.mem_append_left _ listed⟩
        · obtain ⟨answer, listed⟩ :=
            completeLater position key found ((List.mem_cons.mp member).resolve_left here)
          exact ⟨answer, List.mem_append_right _ listed⟩

theorem mget_refines {engine : OnyxEngine} (steady : engine.clock.Nondecreasing) (keys : List Bytes) :
    engine.Refines (.mget keys) := by
  obtain ⟨leads, kept, read, answers, complete⟩ :=
    mgetShards_reads keys (List.finRange numShards) (List.nodup_finRange _) engine steady
  unfold Refines
  simp only [Operation.run, mget_eq, forShards]
  generalize runShards (fun index guard => getAll guard (keysOfShard keys index))
    (List.finRange numShards) engine = outcome at *
  obtain ⟨size, stored⟩ := foldl_set_answered outcome.1.flatten (List.replicate keys.length none)
  rw [List.length_replicate] at size stored
  have position (place : Nat) : ∃ time, engine.clock.Shows outcome.2.clock time ∧
      ∀ key, keys[place]? = some key →
        (outcome.1.flatten.foldl (fun results answer => results.set answer.1 answer.2)
          (List.replicate keys.length none))[place]? = some (touched time (engine.lookup key)) := by
    cases found : keys[place]? with
    | none =>
        refine ⟨engine.clock.now, leads.shows_now, ?_⟩
        intro key same
        cases same
    | some key =>
        obtain ⟨answer, listed⟩ := complete place key found (List.mem_finRange _)
        have within : place < keys.length := (List.getElem?_eq_some_iff.mp found).1
        rcases stored place within with ⟨held, member, result⟩ | ⟨missing, _⟩
        · obtain ⟨other, time, sameKey, _, taken, slot⟩ := answers place held member
          rw [found] at sameKey
          cases sameKey
          refine ⟨time, taken, ?_⟩
          intro asked same
          cases same
          rw [result, slot]
        · exact absurd (List.mem_map.mpr ⟨(place, answer), listed, rfl⟩) missing
  have visited (key : Bytes) : ∃ time, engine.clock.Shows outcome.2.clock time ∧
      (key ∈ keys → outcome.2.lookup key = touched time (engine.lookup key)) := by
    by_cases listed : key ∈ keys
    · obtain ⟨time, taken, slot⟩ := read key (List.mem_finRange _) listed
      exact ⟨time, taken, fun _ => slot⟩
    · exact ⟨engine.clock.now, leads.shows_now, fun member => absurd member listed⟩
  choose place taken result using position
  choose moment shown slot using visited
  refine ⟨leads, ⟨engine.clock.now, engine.clock.now, engine.clock.now, place, moment⟩,
    Clock.within_each steady leads taken shown, ?_, ?_⟩
  · apply List.ext_getElem?
    intro index
    rw [List.getElem?_map, List.getElem?_zipIdx]
    cases found : keys[index]? with
    | none =>
        have outside : keys.length ≤ index := List.getElem?_eq_none_iff.mp found
        rw [List.getElem?_eq_none_iff.mpr (by rw [size]; exact outside)]
        rfl
    | some key =>
        rw [result index key found]
        simp only [Option.map_some, Nat.zero_add]
        rfl
  · funext key
    by_cases listed : key ∈ keys
    · rw [if_pos listed]
      exact slot key listed
    · rw [if_neg listed]
      exact kept key (Or.inr listed)

/-- A sweep checks every slot of its shards at one reading and counts the entries it removes. -/
theorem sweepShards (indices : List (Fin numShards)) (distinct : indices.Nodup) (engine : OnyxEngine) :
    let outcome := runShards (fun _ guard => guard.expireKeys) indices engine
    engine.clock.Leads outcome.2.clock ∧
    ∃ (reading : Bytes → Nat) (removed : List Bytes),
      (∀ key, engine.clock.Shows outcome.2.clock (reading key)) ∧
      (∀ key, outcome.2.lookup key =
        if shardForKey key ∈ indices then fresh (reading key) (engine.lookup key) else engine.lookup key) ∧
      removed.Nodup ∧ outcome.1.sum = removed.length ∧
      ∀ key, key ∈ removed ↔ shardForKey key ∈ indices ∧
        (engine.lookup key).any (fun entry => entry.expired (reading key)) = true := by
  induction indices generalizing engine with
  | nil =>
      refine ⟨Clock.Leads.refl _, fun _ => engine.clock.now, [], ?_, ?_, List.nodup_nil, rfl, ?_⟩
      · intro key
        exact (Clock.Leads.refl _).shows_now
      · intro key
        rfl
      · intro key
        simp
  | cons index indices rest =>
      obtain ⟨absent, distinct⟩ := List.nodup_cons.mp distinct
      let guard : Guard index := ⟨engine.shards index, engine.totalKeys, engine.clock⟩
      let next := (engine.withShard index (fun guard => guard.expireKeys)).2
      let gone := ((guard.shard.data.visit.filter (fun entry => entry.2.expired engine.clock.now)).map
        Prod.fst).map Subtype.val
      obtain ⟨leads, reading, removed, taken, slots, apart, count, members⟩ := rest distinct next
      have first : engine.clock.Leads next.clock := by
        change engine.clock.Leads guard.expireKeys.2.clock
        rw [guard.expireKeys_clock]
        exact engine.clock.leads_tick
      have nextSlot (key : Bytes) : next.lookup key =
          if shardForKey key = index then fresh engine.clock.now (engine.lookup key)
          else engine.lookup key := by
        have swept := lookup_withShard engine index (fun guard => guard.expireKeys) key
        by_cases here : shardForKey key = index
        · rw [dif_pos here] at swept
          rw [if_pos here]
          refine swept.trans ((guard.expireKeys_lookup ⟨key, here⟩).trans ?_)
          exact congrArg _ (engine.shard_get index key here)
        · rw [dif_neg here] at swept
          rw [if_neg here]
          exact swept
      have goneIff (key : Bytes) : key ∈ gone ↔ shardForKey key = index ∧
          (engine.lookup key).any (fun entry => entry.expired engine.clock.now) = true := by
        simp only [gone, List.mem_map, List.mem_filter]
        constructor
        · rintro ⟨name, ⟨⟨other, entry⟩, ⟨member, past⟩, rfl⟩, rfl⟩
          obtain ⟨bytes, here⟩ := other
          refine ⟨here, ?_⟩
          rw [← engine.shard_get index bytes here, (ShardData.mem_visit _ _ _).mp member]
          exact past
        · rintro ⟨here, past⟩
          rw [← engine.shard_get index key here] at past
          cases held : (engine.shards index).data.get ⟨key, here⟩ with
          | none =>
              rw [held] at past
              cases past
          | some entry =>
              rw [held] at past
              exact ⟨⟨key, here⟩, ⟨(⟨key, here⟩, entry),
                ⟨(ShardData.mem_visit _ _ _).mpr held, past⟩, rfl⟩, rfl⟩
      have late (key : Bytes) (listed : shardForKey key ∈ indices) :
          shardForKey key ≠ index ∧ next.lookup key = engine.lookup key := by
        have away : shardForKey key ≠ index := by
          intro here
          exact absent (here ▸ listed)
        exact ⟨away, by rw [nextSlot, if_neg away]⟩
      refine ⟨first.trans leads,
        fun key => if shardForKey key = index then engine.clock.now else reading key,
        gone ++ removed, ?_, ?_, ?_, ?_, ?_⟩
      · intro key
        beta_reduce
        split
        · exact (first.trans leads).shows_now
        · exact first.shows (taken key)
      · intro key
        refine (slots key).trans ?_
        beta_reduce
        by_cases here : shardForKey key = index
        · have outside : shardForKey key ∉ indices := here ▸ absent
          rw [if_neg outside, nextSlot, if_pos here, if_pos (List.mem_cons.mpr (Or.inl here)), if_pos here]
        · by_cases listed : shardForKey key ∈ indices
          · rw [if_pos listed, (late key listed).2, if_pos (List.mem_cons_of_mem _ listed), if_neg here]
          · rw [if_neg listed, nextSlot, if_neg here, if_neg]
            exact fun member => listed ((List.mem_cons.mp member).resolve_left here)
      · rw [List.nodup_append]
        refine ⟨?_, apart, ?_⟩
        · have keys : ((guard.shard.data.visit.filter
              (fun entry => entry.2.expired engine.clock.now)).map Prod.fst).Nodup :=
            guard.shard.data.visit_nodup.sublist (List.filter_sublist.map _)
          exact keys.map Subtype.val_injective
        · intro key early other member same
          subst same
          exact (late key ((members key).mp member).1).1 ((goneIff key).mp early).1
      · rw [runShards, List.sum_cons, List.length_append, ← count]
        congr 1
        rw [List.length_map]
        rfl
      · intro key
        beta_reduce
        rw [List.mem_append, goneIff, members]
        constructor
        · rintro (⟨here, past⟩ | ⟨listed, past⟩)
          · rw [if_pos here]
            exact ⟨List.mem_cons.mpr (Or.inl here), past⟩
          · obtain ⟨away, same⟩ := late key listed
            rw [if_neg away, ← same]
            exact ⟨List.mem_cons_of_mem _ listed, past⟩
        · rintro ⟨member, past⟩
          by_cases here : shardForKey key = index
          · rw [if_pos here] at past
            exact Or.inl ⟨here, past⟩
          · have listed := (List.mem_cons.mp member).resolve_left here
            rw [if_neg here, ← (late key listed).2] at past
            exact Or.inr ⟨listed, past⟩

/-- A pass whose state is that of a sweep leaves the engine of the sweep. -/
theorem runShards_sweeps {α : Type} (operation : (index : Fin numShards) → Guard index → α × Guard index)
    (sweeps : ∀ index guard, (operation index guard).2 = guard.expireKeys.2)
    (indices : List (Fin numShards)) (engine : OnyxEngine) :
    (runShards operation indices engine).2 =
      (runShards (fun _ guard => guard.expireKeys) indices engine).2 := by
  induction indices generalizing engine with
  | nil => rfl
  | cons index indices rest =>
      have same : (engine.withShard index (operation index)).2 =
          (engine.withShard index (fun guard => guard.expireKeys)).2 := by
        simp only [withShard]
        rw [sweeps]
      rw [runShards, runShards, same]
      exact rest _

theorem forShards_sweeps {α : Type} (operation : (index : Fin numShards) → Guard index → α × Guard index)
    (sweeps : ∀ index guard, (operation index guard).2 = guard.expireKeys.2) (engine : OnyxEngine) :
    (engine.forShards operation).2 = (engine.forShards (fun _ guard => guard.expireKeys)).2 :=
  runShards_sweeps operation sweeps (List.finRange numShards) engine

/-- The readings and slots of a sweep of the whole engine. -/
theorem sweep_refines (engine : OnyxEngine) (steady : engine.clock.Nondecreasing) :
    engine.clock.Leads (engine.forShards (fun _ guard => guard.expireKeys)).2.clock ∧
    ∃ readings : Readings, ∃ removed : List Bytes,
      readings.Within engine.clock.now
        (engine.forShards (fun _ guard => guard.expireKeys)).2.clock.now ∧
      (engine.forShards (fun _ guard => guard.expireKeys)).2.lookup =
        FlatMap.swept engine.lookup readings.key ∧
      removed.Nodup ∧
      (engine.forShards (fun _ guard => guard.expireKeys)).1.sum = removed.length ∧
      ∀ key, key ∈ removed ↔
        (engine.lookup key).any (fun entry => entry.expired (readings.key key)) = true := by
  obtain ⟨leads, reading, removed, taken, slots, apart, count, members⟩ :=
    sweepShards (List.finRange numShards) (List.nodup_finRange _) engine
  unfold forShards
  generalize runShards (fun _ guard => guard.expireKeys) (List.finRange numShards) engine = outcome at *
  refine ⟨leads,
    ⟨engine.clock.now, engine.clock.now, engine.clock.now, fun _ => engine.clock.now, reading⟩, removed,
    Clock.within_each steady leads (fun _ => leads.shows_now) taken, ?_, apart, count, ?_⟩
  · funext key
    rw [slots, if_pos (List.mem_finRange _)]
    rfl
  · intro key
    rw [members]
    exact ⟨fun found => found.2, fun past => ⟨List.mem_finRange _, past⟩⟩

theorem gcExpired_refines {engine : OnyxEngine} (steady : engine.clock.Nondecreasing) :
    engine.Refines .gcExpired := by
  obtain ⟨leads, readings, removed, within, slots, apart, count, members⟩ := engine.sweep_refines steady
  unfold Refines
  simp only [Operation.run, gcExpired_eq]
  exact ⟨leads, readings, within, slots, removed, apart, count, members⟩

theorem snapshotAll_refines {engine : OnyxEngine} (steady : engine.clock.Nondecreasing) :
    engine.Refines .snapshotAll := by
  obtain ⟨leads, readings, _, within, slots, _⟩ := engine.sweep_refines steady
  have same : engine.snapshotAll.2 = (engine.forShards (fun _ guard => guard.expireKeys)).2 := by
    rw [snapshotAll_eq]
    dsimp only
    exact forShards_sweeps (fun _ guard => liveEntries guard) (fun _ _ => rfl) engine
  refine ⟨?_, readings, ?_, ?_, ?_⟩
  · simp only [Operation.run, same]
    exact leads
  · simp only [Operation.run, same]
    exact within
  · simp only [Operation.run, same]
    exact slots
  · exact ⟨engine.nodup_snapshotAll, engine.mem_snapshotAll⟩

/-- The pass that lists keys lists those of the pass that lists entries. -/
theorem keyLists_eq (indices : List (Fin numShards)) (engine : OnyxEngine) :
    (runShards (fun _ guard => liveKeys guard) indices engine).1 =
      (runShards (fun _ guard => liveEntries guard) indices engine).1.map (List.map Prod.fst) := by
  induction indices generalizing engine with
  | nil => rfl
  | cons index indices rest =>
      have listed : (engine.withShard index (fun guard => liveKeys guard)).1 =
          (engine.withShard index (fun guard => liveEntries guard)).1.map Prod.fst := by
        simp only [withShard, liveKeys, liveEntries, List.map_map]
        rfl
      have later := rest (engine.withShard index (fun guard => liveEntries guard)).2
      rw [runShards, runShards, List.map_cons, ← listed, ← later]
      rfl

theorem allKeys_refines {engine : OnyxEngine} (steady : engine.clock.Nondecreasing) :
    engine.Refines .allKeys := by
  obtain ⟨leads, readings, _, within, slots, _⟩ := engine.sweep_refines steady
  have same : engine.allKeys.2 = (engine.forShards (fun _ guard => guard.expireKeys)).2 := by
    rw [allKeys_eq]
    dsimp only
    exact forShards_sweeps (fun _ guard => liveKeys guard) (fun _ _ => rfl) engine
  have listed : engine.allKeys.1 = engine.snapshotAll.1.map Prod.fst := by
    rw [allKeys_eq, snapshotAll_eq]
    dsimp only [forShards]
    rw [List.map_flatten, keyLists_eq]
  have shared : engine.snapshotAll.2 = engine.allKeys.2 := by
    rw [same, snapshotAll_eq]
    dsimp only
    exact forShards_sweeps (fun _ guard => liveEntries guard) (fun _ _ => rfl) engine
  refine ⟨?_, readings, ?_, ?_, ?_, ?_⟩
  · simp only [Operation.run, same]
    exact leads
  · simp only [Operation.run, same]
    exact within
  · simp only [Operation.run, same]
    exact slots
  · change engine.allKeys.1.Nodup
    rw [listed]
    exact engine.nodup_snapshotAll
  · intro key
    change key ∈ engine.allKeys.1 ↔ (engine.allKeys.2.lookup key).isSome = true
    rw [listed, ← shared, List.mem_map, Option.isSome_iff_exists]
    constructor
    · rintro ⟨⟨name, entry⟩, member, rfl⟩
      exact ⟨entry, (engine.mem_snapshotAll name entry).mp member⟩
    · rintro ⟨entry, held⟩
      exact ⟨(key, entry), (engine.mem_snapshotAll key entry).mpr held, rfl⟩

/-- Every operation of the engine is one of the flat map. -/
theorem refines {α : Type} {engine : OnyxEngine} (steady : engine.clock.Nondecreasing)
    (operation : Operation α) : engine.Refines operation := by
  cases operation with
  | get key =>
      have sets := engine.get_sets key
      apply @refines_first _ _ engine steady (.get key) sets.leads
      exact sets.atKey (Prod.ext (engine.get_fst key).symm rfl)
  | peek key =>
      have sets := engine.peek_sets key
      apply @refines_first _ _ engine steady (.peek key) sets.leads
      exact sets.atKey (Prod.ext (engine.peek_fst key).symm rfl)
  | set key value expires => exact set_refines steady key value expires
  | setConditional key value expiresAt condition =>
      exact setConditional_refines steady key value expiresAt condition
  | setIfAbsent key value => exact setIfAbsent_refines steady key value
  | applyEntry key entry => exact applyEntry_refines steady key entry
  | delete key =>
      have sets := engine.delete_sets key
      apply @refines_first _ _ engine steady (.delete key) sets.leads
      exact sets.atKey (Prod.ext (engine.delete_fst key).symm rfl)
  | read key inspect =>
      have sets := engine.read_sets key inspect
      apply @refines_first _ _ engine steady (.read key inspect) sets.leads
      exact sets.atKey (Prod.ext (engine.read_fst key inspect).symm rfl)
  | updateIfExists key mutate => exact updateIfExists_refines steady key mutate
  | updateIfExistsWithAction key mutate =>
      have sets := engine.updateIfExistsWithAction_sets key mutate
      apply @refines_first _ _ engine steady (.updateIfExistsWithAction key mutate) sets.leads
      exact sets.atKey (Prod.ext (engine.updateIfExistsWithAction_fst key mutate).symm rfl)
  | updateOrInsert key default mutate =>
      obtain ⟨leads, answers⟩ := engine.upsert_decides key default (fun entry _ =>
        ((mutate entry.value).1, { entry with value := (mutate entry.value).2 }))
      exact @refines_first _ _ engine steady (.updateOrInsert key default mutate) leads answers
  | updateOrInsertWithPresence key default mutate =>
      obtain ⟨leads, answers⟩ := engine.upsert_decides key default (fun entry existed =>
        ((mutate entry.value existed).1, { entry with value := (mutate entry.value existed).2 }))
      exact @refines_first _ _ engine steady (.updateOrInsertWithPresence key default mutate) leads answers
  | updateEntryOrInsertWithPresence key default mutate =>
      obtain ⟨leads, answers⟩ := engine.upsert_decides key default mutate
      exact @refines_first _ _ engine steady (.updateEntryOrInsertWithPresence key default mutate) leads
        answers
  | setExpiry key timestamp => exact setExpiryConditional_refines steady key timestamp none
  | setExpiryConditional key timestamp requireExpiry =>
      exact setExpiryConditional_refines steady key timestamp requireExpiry
  | rename source target => exact rename_refines steady source target
  | copy source target => exact copy_refines steady source target
  | mget keys => exact mget_refines steady keys
  | allKeys => exact allKeys_refines steady
  | snapshotAll => exact snapshotAll_refines steady
  | gcExpired => exact gcExpired_refines steady

end OnyxEngine

end OnyxDB.Engine
