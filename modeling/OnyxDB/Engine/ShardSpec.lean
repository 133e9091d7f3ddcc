import OnyxDB.Engine.Shard

/-! What each operation on a locked shard does to the slots of the shard, to what they show and to the
clock. A purge at a reading that is not later than `time` changes nothing that is shown at `time`. -/

namespace OnyxDB.Engine
open OnyxDB.Library OnyxDB.Engine.Value

theorem expiryPassed_mono {early late : Nat} (order : early ≤ late) {expiry : Option Nat}
    (past : expiryPassed early expiry = true) : expiryPassed late expiry = true := by
  cases expiry with
  | none => cases past
  | some moment =>
      simp only [expiryPassed, decide_eq_true_eq] at *
      omega

theorem fresh_some (timestamp : Nat) (entry : DataEntry) :
    fresh timestamp (some entry) = if entry.expired timestamp then none else some entry :=
  Expiring.live_some entry

@[simp]
theorem fresh_none (timestamp : Nat) : fresh timestamp none = none := rfl

theorem fresh_fresh {early late : Nat} (order : early ≤ late) (slot : Option DataEntry) :
    fresh late (fresh early slot) = fresh late slot := by
  have persistent : Expiring.Persistent (fun time (entry : DataEntry) => entry.expired time) := by
    intro early late entry order past
    exact expiryPassed_mono order past
  exact Expiring.live_live persistent order slot

@[simp]
theorem shown_none (time : Nat) : shown time none = none := rfl

theorem shown_some (time : Nat) (entry : DataEntry) :
    shown time (some entry) =
      if expiryPassed time entry.expiresAt then none else some (.ofDataEntry entry) := by
  rw [shown, fresh_some]
  unfold DataEntry.expired
  split <;> rfl

theorem shown_fresh {early late : Nat} (order : early ≤ late) (slot : Option DataEntry) :
    shown late (fresh early slot) = shown late slot := by
  rw [shown, fresh_fresh order, shown]

/-- Entries with the same persistent part show the same. -/
theorem shown_congr (time : Nat) {first second : DataEntry}
    (same : PersistentEntry.ofDataEntry first = PersistentEntry.ofDataEntry second) :
    shown time (some first) = shown time (some second) := by
  have expiry : first.expiresAt = second.expiresAt := congrArg PersistentEntry.expiresAt same
  rw [shown_some, shown_some, expiry, same]

namespace Guard

/-- What the shard shows at `time`. -/
def view {index : Fin numShards} (guard : Guard index) (time : Nat) (key : Key index) :
    Option PersistentEntry :=
  shown time (guard.lookup key)

variable {index : Fin numShards}

/-- `after` differs from `guard` in the slot of one key, and the clock has gone on. -/
structure Sets (guard after : Guard index) (key : Key index) (slot : Option DataEntry) : Prop where
  leads : guard.clock.Leads after.clock
  lookup : after.lookup = Function.update guard.lookup key slot

theorem Sets.trans {guard middle after : Guard index} {key : Key index}
    {first second : Option DataEntry} (before : guard.Sets middle key first)
    (later : middle.Sets after key second) : guard.Sets after key second := by
  refine ⟨before.leads.trans later.leads, ?_⟩
  rw [later.lookup, before.lookup, Function.update_idem]

theorem Sets.unchanged (guard : Guard index) (key : Key index) :
    guard.Sets guard key (guard.lookup key) :=
  ⟨Clock.Leads.refl _, (Function.update_eq_self key guard.lookup).symm⟩

variable [Platform]

@[simp]
theorem removeEntry_fst (guard : Guard index) (key : Key index) :
    (guard.removeEntry key).1 = guard.lookup key := by
  have found := guard.shard.data.remove_fst key
  unfold removeEntry
  cases removed : guard.shard.data.remove key with
  | mk slot data =>
      rw [removed] at found
      cases slot <;> exact found

@[simp]
theorem removeEntry_lookup (guard : Guard index) (key : Key index) :
    (guard.removeEntry key).2.lookup = Function.update guard.lookup key none := by
  have slots := guard.shard.data.get_remove key
  unfold removeEntry
  cases removed : guard.shard.data.remove key with
  | mk slot data =>
      rw [removed] at slots
      cases slot <;> exact slots

@[simp]
theorem removeEntry_clock (guard : Guard index) (key : Key index) :
    (guard.removeEntry key).2.clock = guard.clock := by
  unfold removeEntry
  cases removed : guard.shard.data.remove key with
  | mk slot data => cases slot <;> rfl

theorem purgeIfExpired_cases (guard : Guard index) (key : Key index) (timestamp : Nat) :
    (guard.purgeIfExpired key timestamp).1 =
        (guard.lookup key).any (fun entry => entry.expired timestamp) ∧
      (guard.purgeIfExpired key timestamp).2.lookup =
        Function.update guard.lookup key (fresh timestamp (guard.lookup key)) ∧
      (guard.purgeIfExpired key timestamp).2.clock = guard.clock := by
  cases held : guard.lookup key with
  | none =>
      have same : guard.purgeIfExpired key timestamp = (false, guard) := by
        simp [purgeIfExpired, held]
      rw [same]
      exact ⟨rfl, by rw [fresh_none, ← held, Function.update_eq_self], rfl⟩
  | some entry =>
      cases past : entry.expired timestamp with
      | true =>
          have same : guard.purgeIfExpired key timestamp = (true, (guard.removeEntry key).2) := by
            simp [purgeIfExpired, held, past]
          rw [same]
          exact ⟨by simp [past], by simp [fresh_some, past], by simp⟩
      | false =>
          have same : guard.purgeIfExpired key timestamp = (false, guard) := by
            simp [purgeIfExpired, held, past]
          rw [same]
          refine ⟨by simp [past], ?_, rfl⟩
          rw [fresh_some, past, if_neg (by simp), ← held, Function.update_eq_self]

@[simp]
theorem purgeIfExpired_fst (guard : Guard index) (key : Key index) (timestamp : Nat) :
    (guard.purgeIfExpired key timestamp).1 =
      (guard.lookup key).any (fun entry => entry.expired timestamp) :=
  (purgeIfExpired_cases guard key timestamp).1

@[simp]
theorem purgeIfExpired_lookup (guard : Guard index) (key : Key index) (timestamp : Nat) :
    (guard.purgeIfExpired key timestamp).2.lookup =
      Function.update guard.lookup key (fresh timestamp (guard.lookup key)) :=
  (purgeIfExpired_cases guard key timestamp).2.1

@[simp]
theorem purgeIfExpired_clock (guard : Guard index) (key : Key index) (timestamp : Nat) :
    (guard.purgeIfExpired key timestamp).2.clock = guard.clock :=
  (purgeIfExpired_cases guard key timestamp).2.2

@[simp]
theorem purgeNow_fst (guard : Guard index) (key : Key index) :
    (guard.purgeNow key).1 = guard.clock.now := rfl

@[simp]
theorem purgeNow_lookup (guard : Guard index) (key : Key index) :
    (guard.purgeNow key).2.lookup =
      Function.update guard.lookup key (fresh guard.clock.now (guard.lookup key)) :=
  purgeIfExpired_lookup guard.unixSeconds.2 key guard.clock.now

@[simp]
theorem purgeNow_clock (guard : Guard index) (key : Key index) :
    (guard.purgeNow key).2.clock = guard.clock.tick :=
  purgeIfExpired_clock guard.unixSeconds.2 key guard.clock.now

theorem purgeNow_sets (guard : Guard index) (key : Key index) :
    guard.Sets (guard.purgeNow key).2 key (fresh guard.clock.now (guard.lookup key)) :=
  ⟨by rw [purgeNow_clock]; exact guard.clock.leads_tick, purgeNow_lookup guard key⟩

/-- The slot after an in-place mutation of an existing value. -/
def mutated {α : Type} (timestamp : Nat) (mutate : OnyxValue → EntryMutation α × OnyxValue)
    (slot : Option DataEntry) : Option DataEntry :=
  slot.bind fun entry =>
    match (mutate entry.value).1 with
    | .delete _ => none
    | .keep _ => some { entry with lastAccessed := timestamp, value := (mutate entry.value).2 }

theorem get_sets (guard : Guard index) (key : Key index) :
    guard.Sets (guard.get key).2 key ((fresh guard.clock.now (guard.lookup key)).map
      (fun entry => { entry with lastAccessed := guard.clock.now })) := by
  have purged := guard.purgeNow_sets key
  have slot : (guard.purgeNow key).2.lookup key = fresh guard.clock.now (guard.lookup key) := by
    rw [purged.lookup, Function.update_self]
  rw [← slot]
  refine purged.trans ?_
  unfold get
  simp only [purgeNow_fst]
  cases held : (guard.purgeNow key).2.lookup key with
  | none =>
      refine ⟨Clock.Leads.refl _, ?_⟩
      simp only [Option.map_none]
      rw [← held, Function.update_eq_self]
  | some entry =>
      refine ⟨Clock.Leads.refl _, ?_⟩
      have slots := (guard.purgeNow key).2.shard.data.get_update key
        (fun entry => { entry with lastAccessed := guard.clock.now })
      rw [show (guard.purgeNow key).2.shard.data.get key = some entry from held] at slots
      exact slots

theorem get_fst (guard : Guard index) (key : Key index) :
    (guard.get key).1 = (fresh guard.clock.now (guard.lookup key)).map
      (fun entry => { entry with lastAccessed := guard.clock.now }) := by
  have slot : (guard.purgeNow key).2.lookup key = fresh guard.clock.now (guard.lookup key) := by
    rw [purgeNow_lookup, Function.update_self]
  rw [← slot]
  unfold get
  simp only [purgeNow_fst]
  cases held : (guard.purgeNow key).2.lookup key <;> rfl

theorem insert_sets (guard : Guard index) (key : Key index) (entry : DataEntry) :
    guard.Sets (guard.insert key entry).2 key (some entry) := by
  have slots := guard.shard.data.get_insert key entry
  unfold insert
  cases inserted : guard.shard.data.insert key entry with
  | mk old data =>
      rw [inserted] at slots
      simp only [unixSeconds, inserted]
      cases old <;> exact ⟨guard.clock.leads_tick, slots⟩

/-- Removing a key empties its slot and returns the entry unless it had expired. -/
theorem remove_cases (guard : Guard index) (key : Key index) :
    guard.Sets (guard.remove key).2 key none ∧
      (guard.remove key).1 = fresh guard.clock.now (guard.lookup key) := by
  have purge := guard.unixSeconds.2.purgeIfExpired_cases key guard.clock.now
  unfold remove
  simp only [unixSeconds] at purge ⊢
  cases ran : ({ guard with clock := guard.clock.tick } : Guard index).purgeIfExpired key
      guard.clock.now with
  | mk expired rest =>
      rw [ran] at purge
      obtain ⟨flag, slots, clock⟩ := purge
      cases expired with
      | true =>
          have gone : fresh guard.clock.now (guard.lookup key) = none := by
            cases held : guard.lookup key with
            | none => rfl
            | some entry =>
                have past : entry.expired guard.clock.now = true := by
                  simpa [show ({ guard with clock := guard.clock.tick } : Guard index).lookup key =
                    some entry from held] using flag.symm
                rw [fresh_some, past, if_pos rfl]
          refine ⟨⟨?_, ?_⟩, gone.symm⟩
          · change guard.clock.Leads rest.clock
            rw [show rest.clock = guard.clock.tick from clock]
            exact guard.clock.leads_tick
          · change rest.lookup = _
            rw [← gone]
            exact slots
      | false =>
          have kept : rest.lookup key = fresh guard.clock.now (guard.lookup key) := by
            rw [show rest.lookup = _ from slots, Function.update_self]
            rfl
          refine ⟨⟨?_, ?_⟩, ?_⟩
          · simp only [removeEntry_clock]
            rw [show rest.clock = guard.clock.tick from clock]
            exact guard.clock.leads_tick.trans guard.clock.tick.leads_tick
          · simp only [removeEntry_lookup]
            change Function.update rest.lookup key none = _
            rw [show rest.lookup = _ from slots, Function.update_idem]
            rfl
          · simp only [removeEntry_fst]
            exact kept

/-- The operations that first purge their key: what they do next may assume the slot is fresh. -/
theorem Sets.after_purge {guard after : Guard index} {key : Key index} {slot : Option DataEntry}
    (next : (guard.purgeNow key).2.Sets after key slot) : guard.Sets after key slot :=
  (guard.purgeNow_sets key).trans next

theorem purgeNow_slot (guard : Guard index) (key : Key index) :
    (guard.purgeNow key).2.lookup key = fresh guard.clock.now (guard.lookup key) := by
  rw [purgeNow_lookup, Function.update_self]

theorem updateIfExistsWithAction_sets {α : Type} (guard : Guard index) (key : Key index)
    (mutate : OnyxValue → EntryMutation α × OnyxValue) :
    guard.Sets (guard.updateIfExistsWithAction key mutate).2 key
      (mutated guard.clock.now mutate (fresh guard.clock.now (guard.lookup key))) := by
  rw [← purgeNow_slot]
  apply Sets.after_purge
  unfold updateIfExistsWithAction
  simp only [purgeNow_fst]
  cases held : (guard.purgeNow key).2.lookup key with
  | none =>
      have same := Sets.unchanged (guard.purgeNow key).2 key
      rw [held] at same
      exact same
  | some entry =>
      have held' : (guard.purgeNow key).2.shard.data.get key = some entry := held
      cases action : (mutate entry.value).1 with
      | delete result =>
          simp only [mutated, Option.bind_some, action]
          refine ⟨Clock.Leads.refl _, ?_⟩
          change (ShardData.remove _ _).2.get = _
          rw [ShardData.get_remove, ShardData.get_update, Function.update_idem]
          rfl
      | keep result =>
          simp only [mutated, Option.bind_some, action]
          refine ⟨Clock.Leads.refl _, ?_⟩
          change (ShardData.update _ _ _).get = _
          rw [ShardData.get_update, held']
          rfl

theorem updateIfExistsWithAction_fst {α : Type} (guard : Guard index) (key : Key index)
    (mutate : OnyxValue → EntryMutation α × OnyxValue) :
    (guard.updateIfExistsWithAction key mutate).1 =
      (fresh guard.clock.now (guard.lookup key)).map (fun entry => (mutate entry.value).1.result) := by
  rw [← purgeNow_slot]
  unfold updateIfExistsWithAction
  simp only [purgeNow_fst]
  cases held : (guard.purgeNow key).2.lookup key with
  | none => rfl
  | some entry =>
      cases action : (mutate entry.value).1 <;> simp [action, EntryMutation.result]

/-- The entry an update-or-insert hands to its closure, and whether it existed. -/
def prepared (timestamp : Nat) (default : OnyxValue) : Option DataEntry → DataEntry × Bool
  | some entry => ({ entry with lastAccessed := timestamp }, true)
  | none => (⟨default, none, timestamp, timestamp⟩, false)

/-- What an update-or-insert makes of a slot. -/
def upserted {α : Type} (timestamp : Nat) (default : OnyxValue)
    (mutate : DataEntry → Bool → α × DataEntry) (slot : Option DataEntry) : α × DataEntry :=
  mutate (prepared timestamp default slot).1 (prepared timestamp default slot).2

theorem updateEntryOrInsertWithPresence_sets {α : Type} (guard : Guard index) (key : Key index)
    (default : OnyxValue) (mutate : DataEntry → Bool → α × DataEntry) :
    guard.Sets (guard.updateEntryOrInsertWithPresence key default mutate).2 key
      (some (upserted guard.clock.now default mutate
        (fresh guard.clock.now (guard.lookup key))).2) := by
  rw [← purgeNow_slot]
  apply Sets.after_purge
  unfold updateEntryOrInsertWithPresence
  simp only [purgeNow_fst]
  cases held : (guard.purgeNow key).2.lookup key with
  | none =>
      refine ⟨Clock.Leads.refl _, ?_⟩
      exact ShardData.get_insert _ _ _
  | some entry =>
      have held' : (guard.purgeNow key).2.shard.data.get key = some entry := held
      refine ⟨Clock.Leads.refl _, ?_⟩
      change (ShardData.update _ _ _).get = _
      rw [ShardData.get_update, held']
      rfl

theorem updateEntryOrInsertWithPresence_fst {α : Type} (guard : Guard index) (key : Key index)
    (default : OnyxValue) (mutate : DataEntry → Bool → α × DataEntry) :
    (guard.updateEntryOrInsertWithPresence key default mutate).1 =
      (upserted guard.clock.now default mutate (fresh guard.clock.now (guard.lookup key))).1 := by
  rw [← purgeNow_slot]
  unfold updateEntryOrInsertWithPresence
  simp only [purgeNow_fst]
  cases held : (guard.purgeNow key).2.lookup key <;> rfl

/-- Setting an expiry leaves an absent key absent, and an existing one as it is, without its entry,
or with the new expiry. -/
theorem setExpiryConditional_sets (guard : Guard index) (key : Key index) (timestamp : Nat)
    (requireExpiry : Option Bool) :
    ∃ slot, guard.Sets (guard.setExpiryConditional key timestamp requireExpiry).2 key slot ∧
      (slot = none ∨ slot = fresh guard.clock.now (guard.lookup key) ∨
        ∃ entry, fresh guard.clock.now (guard.lookup key) = some entry ∧
          slot = some { entry with expiresAt := some timestamp }) := by
  rw [← purgeNow_slot]
  unfold setExpiryConditional
  cases held : (guard.purgeNow key).2.lookup key with
  | none =>
      have same := Sets.unchanged (guard.purgeNow key).2 key
      rw [held] at same
      simp only [held]
      exact ⟨none, same.after_purge, Or.inl rfl⟩
  | some entry =>
      simp only [held]
      by_cases refused : requireExpiry.any (fun required => required != entry.expiresAt.isSome) = true
      · have same := Sets.unchanged (guard.purgeNow key).2 key
        rw [held] at same
        rw [if_pos refused]
        exact ⟨some entry, same.after_purge, Or.inr (Or.inl rfl)⟩
      · rw [if_neg refused]
        by_cases early : timestamp ≤ (guard.purgeNow key).1
        · rw [if_pos early]
          exact ⟨none, ((guard.purgeNow key).2.remove_cases key).1.after_purge, Or.inl rfl⟩
        · rw [if_neg early]
          refine ⟨some { entry with expiresAt := some timestamp }, Sets.after_purge ⟨?_, ?_⟩,
            Or.inr (Or.inr ⟨entry, rfl, rfl⟩)⟩
          · exact Clock.leads_tick _
          · have slots := (guard.purgeNow key).2.shard.data.get_update key
              (fun entry => { entry with expiresAt := some timestamp })
            rw [show (guard.purgeNow key).2.shard.data.get key = some entry from held] at slots
            exact slots

theorem insertIfAbsent_sets (guard : Guard index) (key : Key index) (entry : DataEntry) :
    guard.Sets (guard.insertIfAbsent key entry).2 key
      (some ((fresh guard.clock.now (guard.lookup key)).getD entry)) := by
  rw [← purgeNow_slot]
  apply Sets.after_purge
  unfold insertIfAbsent
  simp only
  cases held : (guard.purgeNow key).2.lookup key with
  | some present =>
      have same := Sets.unchanged (guard.purgeNow key).2 key
      rw [held] at same
      exact same
  | none =>
      refine ⟨Clock.leads_tick _, ?_⟩
      exact ShardData.get_insert _ _ _

theorem removeAll_lookup (guard : Guard index) (keys : List (Key index)) (key : Key index) :
    (guard.removeAll keys).lookup key = if key ∈ keys then none else guard.lookup key := by
  induction keys generalizing guard with
  | nil => simp [removeAll]
  | cons first keys rest =>
      rw [removeAll, rest, removeEntry_lookup]
      by_cases here : key = first
      · subst here
        simp
      · simp [here]

theorem removeAll_clock (guard : Guard index) (keys : List (Key index)) :
    (guard.removeAll keys).clock = guard.clock := by
  induction keys generalizing guard with
  | nil => rfl
  | cons first keys rest => rw [removeAll, rest, removeEntry_clock]

/-- A sweep keeps exactly the fresh entries. -/
theorem expireKeys_lookup (guard : Guard index) (key : Key index) :
    (guard.expireKeys).2.lookup key = fresh guard.clock.now (guard.lookup key) := by
  unfold expireKeys
  simp only [unixSeconds, removeAll_lookup]
  have listed : key ∈ (guard.shard.data.visit.filter
      (fun entry => entry.2.expired guard.clock.now)).map Prod.fst ↔
      ∃ entry, guard.lookup key = some entry ∧ entry.expired guard.clock.now = true := by
    simp only [List.mem_map, List.mem_filter]
    constructor
    · rintro ⟨⟨_, entry⟩, ⟨member, past⟩, rfl⟩
      exact ⟨entry, (ShardData.mem_visit _ _ _).mp member, past⟩
    · rintro ⟨entry, held, past⟩
      exact ⟨(key, entry), ⟨(ShardData.mem_visit _ _ _).mpr held, past⟩, rfl⟩
  cases held : guard.lookup key with
  | none =>
      rw [if_neg]
      · exact held
      · rw [listed]
        simp [held]
  | some entry =>
      rw [fresh_some]
      cases past : entry.expired guard.clock.now with
      | true =>
          rw [if_pos (listed.mpr ⟨entry, held, past⟩), if_pos rfl]
      | false =>
          rw [if_neg, if_neg (by simp)]
          · exact held
          · rw [listed]
            simp [held, past]

theorem expireKeys_clock (guard : Guard index) : (guard.expireKeys).2.clock = guard.clock.tick := by
  unfold expireKeys
  simp only [unixSeconds, removeAll_clock]

end Guard

end OnyxDB.Engine
