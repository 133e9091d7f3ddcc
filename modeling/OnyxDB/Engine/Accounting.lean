import OnyxDB.Engine.SnapshotEpoch
import OnyxDB.Library.Listing

/-! The counters of a shard against the entries it holds. Every mutation adjusts the counters by hand,
with subtractions that stop at zero; they stay exact, and no subtraction reaches its floor. -/

namespace OnyxDB.Engine
open OnyxDB.Library OnyxDB.Engine.Value

theorem ShardData.listing {index : Fin numShards} (data : ShardData index) :
    Listing data.visit data.get := ⟨data.visit_nodup, data.mem_visit⟩

variable [Platform] {index : Fin numShards}

/-- The size of an entry of a shard. -/
def weight (key : Key index) (entry : DataEntry) : Nat := approxEntrySize key entry

/-- The bytes of the entries that are visible in a shard. -/
def ShardData.memory (data : ShardData index) : Nat := Listing.weigh weight data.visit

/-- Replacing a slot changes the visible bytes by the sizes of the two slots. -/
theorem ShardData.memory_replaced {before after : ShardData index} {key : Key index}
    {slot : Option DataEntry} (replaced : after.get = Function.update before.get key slot) :
    after.memory + Listing.slotWeight weight key (before.get key) =
      before.memory + Listing.slotWeight weight key slot :=
  Listing.weigh_replaced weight before.listing (replaced ▸ after.listing)

omit [Platform] in
theorem ShardData.count_replaced {before after : ShardData index} {key : Key index}
    {slot : Option DataEntry} (replaced : after.get = Function.update before.get key slot) :
    after.visit.length + (before.get key).toList.length = before.visit.length + slot.toList.length := by
  have counted := Listing.weigh_replaced (fun _ _ => 1) before.listing (replaced ▸ after.listing)
  rw [Listing.weigh_one, Listing.weigh_one] at counted
  cases held : before.get key <;> cases slot <;> simp_all

namespace Guard

/-- The guard with the same amount added to every counter. -/
def raise (guard : Guard index) (credit : Nat) : Guard index :=
  { guard with
    shard := { guard.shard with
      memBytes := guard.shard.memBytes + credit
      keyCount := guard.shard.keyCount + credit }
    totalKeys := guard.totalKeys + credit }

omit [Platform] in
@[simp]
theorem raise_zero (guard : Guard index) : guard.raise 0 = guard := rfl

/-- No subtraction of the method reaches its floor on this guard, or it would swallow a part of the credit. -/
def Exact (method : Guard index → Guard index) (guard : Guard index) : Prop :=
  ∀ credit, method (guard.raise credit) = (method guard).raise credit

/-- The counters moved by as much as the visible entries. -/
structure Keeps (guard after : Guard index) : Prop where
  memBytes : after.shard.memBytes + guard.shard.data.memory =
    guard.shard.memBytes + after.shard.data.memory
  keyCount : after.shard.keyCount + guard.shard.data.visit.length =
    guard.shard.keyCount + after.shard.data.visit.length
  totalKeys : after.totalKeys + guard.shard.keyCount = guard.totalKeys + after.shard.keyCount

/-- The counters are at least what is visible, which is all the subtractions need. -/
structure Covered (guard : Guard index) : Prop where
  memBytes : guard.shard.data.memory ≤ guard.shard.memBytes
  keyCount : guard.shard.data.visit.length ≤ guard.shard.keyCount
  totalKeys : guard.shard.keyCount ≤ guard.totalKeys

theorem Keeps.refl (guard : Guard index) : guard.Keeps guard := ⟨rfl, rfl, rfl⟩

theorem Keeps.trans {guard middle after : Guard index} (first : guard.Keeps middle)
    (second : middle.Keeps after) : guard.Keeps after := by
  obtain ⟨bytes, count, total⟩ := first
  obtain ⟨moreBytes, moreCount, moreTotal⟩ := second
  exact ⟨by omega, by omega, by omega⟩

theorem Keeps.covered {guard after : Guard index} (keeps : guard.Keeps after)
    (covered : guard.Covered) : after.Covered := by
  obtain ⟨bytes, count, total⟩ := keeps
  obtain ⟨enoughBytes, enoughCount, enoughTotal⟩ := covered
  exact ⟨by omega, by omega, by omega⟩

/-- A method that moves the counters with the entries and never reaches a floor. -/
structure Sound (method : Guard index → Guard index) (guard : Guard index) : Prop where
  keeps : guard.Keeps (method guard)
  exact : Exact method guard

theorem Sound.id (guard : Guard index) : Sound (fun guard => guard) guard :=
  ⟨Keeps.refl guard, fun _ => rfl⟩

theorem Sound.congr {method other : Guard index → Guard index} {guard : Guard index}
    (sound : Sound other guard) (same : ∀ credit, method (guard.raise credit) = other (guard.raise credit)) :
    Sound method guard := by
  have plain : method guard = other guard := same 0
  constructor
  · rw [plain]
    exact sound.keeps
  · intro credit
    rw [same, plain]
    exact sound.exact credit

theorem Sound.comp {first second : Guard index → Guard index} {guard : Guard index}
    (early : Sound first guard) (late : Sound second (first guard)) :
    Sound (fun guard => second (first guard)) guard := by
  refine ⟨early.keeps.trans late.keeps, ?_⟩
  intro credit
  calc second (first (guard.raise credit))
      = second ((first guard).raise credit) := congrArg second (early.exact credit)
    _ = (second (first guard)).raise credit := late.exact credit

/-- The guard after one slot was replaced and the counters were charged for it. -/
def charged (guard : Guard index) (key : Key index) (old new : Option DataEntry) (data : ShardData index)
    (opCount lastModified : Nat) (clock : Clock) : Guard index :=
  ⟨⟨data, opCount, lastModified,
      guard.shard.memBytes - Listing.slotWeight weight key old + Listing.slotWeight weight key new,
      guard.shard.keyCount - old.toList.length + new.toList.length⟩,
    guard.totalKeys - old.toList.length + new.toList.length, clock⟩

/-- A slot fits into covered counters. -/
theorem Covered.slot {guard : Guard index} (covered : guard.Covered) (key : Key index) :
    Listing.slotWeight weight key (guard.lookup key) ≤ guard.shard.memBytes ∧
      (guard.lookup key).toList.length ≤ guard.shard.keyCount ∧
      (guard.lookup key).toList.length ≤ guard.totalKeys := by
  obtain ⟨bytes, count, total⟩ := covered
  have heavy := Listing.slotWeight_le weight guard.shard.data.listing key
  have many := Listing.slotWeight_le (fun _ _ => 1) guard.shard.data.listing key
  rw [Listing.weigh_one] at many
  have single : (guard.lookup key).toList.length =
      Listing.slotWeight (fun _ _ => 1) key (guard.shard.data.get key) := by
    change (guard.shard.data.get key).toList.length = _
    cases guard.shard.data.get key <;> rfl
  refine ⟨heavy.trans bytes, ?_, ?_⟩ <;> omega

/-- Charging the counters for the slot that is replaced is sound. -/
theorem charged_sound {guard : Guard index} (covered : guard.Covered) (key : Key index)
    (slot : Option DataEntry) {data : ShardData index}
    (replaced : data.get = Function.update guard.lookup key slot) (opCount lastModified : Nat)
    (clock : Clock) :
    Sound (fun current => current.charged key (guard.lookup key) slot data opCount lastModified clock)
      guard := by
  obtain ⟨heavy, many, most⟩ := covered.slot key
  have bytes := @ShardData.memory_replaced _ _ guard.shard.data data key slot replaced
  have count := @ShardData.count_replaced _ guard.shard.data data key slot replaced
  change _ + Listing.slotWeight weight key (guard.lookup key) = _ at bytes
  change _ + (guard.lookup key).toList.length = _ at count
  constructor
  · refine ⟨?_, ?_, ?_⟩
    · simp only [charged]
      omega
    · simp only [charged]
      omega
    · simp only [charged]
      omega
  · intro credit
    simp only [charged, raise, Guard.mk.injEq, Shard.mk.injEq, true_and, and_true]
    omega

/-- Replacing an entry by another leaves the counts as they are. -/
theorem Covered.charged_some {guard : Guard index} (covered : guard.Covered) {key : Key index}
    {old : DataEntry} (held : guard.lookup key = some old) (new : DataEntry) (data : ShardData index)
    (opCount lastModified : Nat) (clock : Clock) (credit : Nat) :
    (guard.raise credit).charged key (some old) (some new) data opCount lastModified clock =
      ⟨⟨data, opCount, lastModified,
          (guard.raise credit).shard.memBytes - weight key old + weight key new,
          (guard.raise credit).shard.keyCount⟩,
        (guard.raise credit).totalKeys, clock⟩ := by
  obtain ⟨_, many, most⟩ := covered.slot key
  rw [held] at many most
  simp only [Option.toList, List.length_singleton] at many most
  simp only [charged, raise, Option.toList, List.length_singleton, Listing.slotWeight_some,
    Guard.mk.injEq, Shard.mk.injEq, true_and, and_true]
  omega

theorem unixSeconds_sound (guard : Guard index) : Sound (fun current => current.unixSeconds.2) guard :=
  ⟨⟨rfl, rfl, rfl⟩, fun _ => rfl⟩

theorem removeEntry_eq (guard : Guard index) (key : Key index) :
    (guard.removeEntry key).2 = guard.charged key (guard.lookup key) none
      (guard.shard.data.remove key).2 guard.shard.opCount guard.shard.lastModified guard.clock := by
  have found := guard.shard.data.remove_fst key
  unfold removeEntry
  cases removed : guard.shard.data.remove key with
  | mk slot data =>
      rw [removed] at found
      change slot = guard.lookup key at found
      cases slot with
      | none =>
          rw [← found]
          rfl
      | some entry =>
          rw [← found]
          rfl

theorem removeEntry_sound {guard : Guard index} (covered : guard.Covered) (key : Key index) :
    Sound (fun current => (current.removeEntry key).2) guard := by
  apply (charged_sound covered key none (guard.shard.data.get_remove key) guard.shard.opCount
    guard.shard.lastModified guard.clock).congr
  intro credit
  exact removeEntry_eq (guard.raise credit) key

theorem purgeIfExpired_sound {guard : Guard index} (covered : guard.Covered) (key : Key index)
    (timestamp : Nat) : Sound (fun current => (current.purgeIfExpired key timestamp).2) guard := by
  cases held : guard.lookup key with
  | none =>
      apply (Sound.id guard).congr
      intro credit
      simp only [purgeIfExpired, show (guard.raise credit).lookup key = none from held]
  | some entry =>
      cases past : entry.expired timestamp with
      | true =>
          apply (removeEntry_sound covered key).congr
          intro credit
          simp only [purgeIfExpired, show (guard.raise credit).lookup key = some entry from held, past,
            if_true]
      | false =>
          apply (Sound.id guard).congr
          intro credit
          simp only [purgeIfExpired, show (guard.raise credit).lookup key = some entry from held, past,
            Bool.false_eq_true, if_false]

theorem purgeNow_sound {guard : Guard index} (covered : guard.Covered) (key : Key index) :
    Sound (fun current => (current.purgeNow key).2) guard := by
  have ticked := unixSeconds_sound guard
  exact (ticked.comp (purgeIfExpired_sound (ticked.keeps.covered covered) key guard.clock.now)).congr
    (fun _ => rfl)

/-- The methods that purge their key first: what follows may look at the slot that is left. -/
theorem Sound.after_purge {guard : Guard index} (covered : guard.Covered) (key : Key index)
    {method rest : Guard index → Guard index} (later : Sound rest (guard.purgeNow key).2)
    (same : ∀ credit, ((guard.raise credit).purgeNow key).2 = (guard.purgeNow key).2.raise credit →
      method (guard.raise credit) = rest ((guard.purgeNow key).2.raise credit)) :
    Sound method guard := by
  have purged := purgeNow_sound covered key
  apply (purged.comp later).congr
  intro credit
  rw [same credit (purged.exact credit)]
  exact congrArg rest (purged.exact credit).symm

/-- An entry that is changed in place without changing its size. -/
theorem restamped_sound {guard : Guard index} {key : Key index} {entry : DataEntry}
    (held : guard.lookup key = some entry) {change : DataEntry → DataEntry}
    (same : weight key (change entry) = weight key entry) (opCount lastModified : Nat) (clock : Clock) :
    Sound (fun current => { current with
      shard := { current.shard with
        data := guard.shard.data.update key change, opCount := opCount, lastModified := lastModified }
      clock := clock }) guard := by
  have replaced : (guard.shard.data.update key change).get =
      Function.update guard.shard.data.get key (some (change entry)) := by
    rw [ShardData.get_update, show guard.shard.data.get key = some entry from held, Option.map_some]
  have bytes := ShardData.memory_replaced replaced
  have count := ShardData.count_replaced replaced
  rw [show guard.shard.data.get key = some entry from held] at bytes count
  simp only [Listing.slotWeight_some, same] at bytes
  refine ⟨⟨?_, ?_, rfl⟩, fun _ => rfl⟩
  · change guard.shard.memBytes + guard.shard.data.memory =
      guard.shard.memBytes + (guard.shard.data.update key change).memory
    omega
  · change guard.shard.keyCount + guard.shard.data.visit.length =
      guard.shard.keyCount + (guard.shard.data.update key change).visit.length
    simp only [Option.toList, List.length_singleton] at count
    omega

theorem get_sound {guard : Guard index} (covered : guard.Covered) (key : Key index) :
    Sound (fun current => (current.get key).2) guard := by
  cases held : (guard.purgeNow key).2.lookup key with
  | none =>
      apply Sound.after_purge covered key (Sound.id _)
      intro credit purged
      simp only [get, purged, show ((guard.purgeNow key).2.raise credit).lookup key = none from held]
  | some entry =>
      have stamped : Sound _ _ := @restamped_sound _ _ _ key entry held
        (fun entry => { entry with lastAccessed := guard.clock.now }) rfl
        (guard.purgeNow key).2.shard.opCount (guard.purgeNow key).2.shard.lastModified
        (guard.purgeNow key).2.clock
      apply Sound.after_purge covered key stamped
      intro credit purged
      simp only [get, purged, show ((guard.purgeNow key).2.raise credit).lookup key = some entry from held]
      rfl

theorem insert_eq {guard : Guard index} (covered : guard.Covered) (key : Key index) (entry : DataEntry)
    (credit : Nat) :
    ((guard.raise credit).insert key entry).2 =
      (guard.raise credit).charged key (guard.lookup key) (some entry)
        (guard.shard.data.insert key entry).2 (guard.shard.opCount + 1) guard.clock.now
        guard.clock.tick := by
  have found := guard.shard.data.insert_fst key entry
  unfold insert
  cases inserted : guard.shard.data.insert key entry with
  | mk old data =>
      rw [inserted] at found
      change old = guard.lookup key at found
      simp only [unixSeconds,
        show (guard.raise credit).shard.data.insert key entry = (old, data) from inserted]
      rw [← found]
      cases old with
      | none => rfl
      | some held =>
          rw [covered.charged_some found.symm]
          rfl

theorem insert_sound {guard : Guard index} (covered : guard.Covered) (key : Key index)
    (entry : DataEntry) : Sound (fun current => (current.insert key entry).2) guard := by
  apply (charged_sound covered key (some entry) (guard.shard.data.get_insert key entry)
    (guard.shard.opCount + 1) guard.clock.now guard.clock.tick).congr
  intro credit
  exact insert_eq covered key entry credit

/-- Marks an operation at the present reading of the clock. -/
def marked (guard : Guard index) : Guard index :=
  { guard with
    shard := { guard.shard with
      opCount := guard.shard.opCount + 1, lastModified := guard.clock.now }
    clock := guard.clock.tick }

theorem marked_sound (guard : Guard index) : Sound marked guard := ⟨⟨rfl, rfl, rfl⟩, fun _ => rfl⟩

theorem remove_eq (guard : Guard index) (key : Key index) :
    (guard.remove key).2 =
      if (guard.lookup key).any (fun entry => entry.expired guard.clock.now) then (guard.purgeNow key).2
      else ((guard.purgeNow key).2.marked.removeEntry key).2 := by
  have flag := guard.unixSeconds.2.purgeIfExpired_fst key guard.clock.now
  unfold remove purgeNow
  simp only [unixSeconds] at flag ⊢
  cases ran : ({ guard with clock := guard.clock.tick } : Guard index).purgeIfExpired key
      guard.clock.now with
  | mk expired rest =>
      rw [ran] at flag
      change expired = (guard.lookup key).any _ at flag
      rw [← flag]
      cases expired <;> rfl

theorem remove_sound {guard : Guard index} (covered : guard.Covered) (key : Key index) :
    Sound (fun current => (current.remove key).2) guard := by
  have purged := purgeNow_sound covered key
  cases expired : (guard.lookup key).any (fun entry => entry.expired guard.clock.now) with
  | true =>
      apply purged.congr
      intro credit
      rw [remove_eq]
      exact if_pos expired
  | false =>
      have noted := purged.comp (marked_sound _)
      apply (noted.comp (removeEntry_sound (noted.keeps.covered covered) key)).congr
      intro credit
      rw [remove_eq]
      exact if_neg (ne_true_of_eq_false expired)

theorem removeAll_sound {guard : Guard index} (covered : guard.Covered) (keys : List (Key index)) :
    Sound (fun current => current.removeAll keys) guard := by
  induction keys generalizing guard with
  | nil => exact Sound.id guard
  | cons key keys rest =>
      have removed := removeEntry_sound covered key
      exact removed.comp (rest (removed.keeps.covered covered))

theorem expireKeys_sound {guard : Guard index} (covered : guard.Covered) :
    Sound (fun current => current.expireKeys.2) guard := by
  have ticked := unixSeconds_sound guard
  exact (ticked.comp (removeAll_sound (ticked.keeps.covered covered)
    ((guard.shard.data.visit.filter (fun entry => entry.2.expired guard.clock.now)).map Prod.fst))).congr
    (fun _ => rfl)

theorem updateIfExistsWithAction_sound {α : Type} {guard : Guard index} (covered : guard.Covered)
    (key : Key index) (mutate : OnyxValue → EntryMutation α × OnyxValue) :
    Sound (fun current => (current.updateIfExistsWithAction key mutate).2) guard := by
  have enough := (purgeNow_sound covered key).keeps.covered covered
  cases held : (guard.purgeNow key).2.lookup key with
  | none =>
      apply Sound.after_purge covered key (Sound.id _)
      intro credit purged
      simp only [updateIfExistsWithAction, purged,
        show ((guard.purgeNow key).2.raise credit).lookup key = none from held]
  | some entry =>
      let updated := { entry with lastAccessed := guard.clock.now, value := (mutate entry.value).2 }
      let data := (guard.purgeNow key).2.shard.data.update key (fun _ => updated)
      have changed : data.get = Function.update (guard.purgeNow key).2.lookup key (some updated) := by
        rw [ShardData.get_update,
          show (guard.purgeNow key).2.shard.data.get key = some entry from held]
        rfl
      cases action : (mutate entry.value).1 with
      | delete result =>
          have deleted : (data.remove key).2.get = Function.update (guard.purgeNow key).2.lookup key none := by
            rw [ShardData.get_remove, changed, Function.update_idem]
          have charge := charged_sound enough key none deleted
            ((guard.purgeNow key).2.shard.opCount + 1) guard.clock.now (guard.purgeNow key).2.clock
          apply Sound.after_purge covered key charge
          intro credit purged
          simp only [updateIfExistsWithAction, purged, held,
            show ((guard.purgeNow key).2.raise credit).lookup key = some entry from held, action]
          rfl
      | keep result =>
          have charge := charged_sound enough key (some updated) changed
            ((guard.purgeNow key).2.shard.opCount + 1) guard.clock.now (guard.purgeNow key).2.clock
          apply Sound.after_purge covered key charge
          intro credit purged
          simp only [updateIfExistsWithAction, purged, held,
            show ((guard.purgeNow key).2.raise credit).lookup key = some entry from held, action]
          rw [enough.charged_some held]
          rfl

theorem updateEntryOrInsertWithPresence_sound {α : Type} {guard : Guard index} (covered : guard.Covered)
    (key : Key index) (default : OnyxValue) (mutate : DataEntry → Bool → α × DataEntry) :
    Sound (fun current => (current.updateEntryOrInsertWithPresence key default mutate).2) guard := by
  have enough := (purgeNow_sound covered key).keeps.covered covered
  cases held : (guard.purgeNow key).2.lookup key with
  | none =>
      let updated := (mutate ⟨default, none, guard.clock.now, guard.clock.now⟩ false).2
      have charge := charged_sound enough key (some updated)
        ((guard.purgeNow key).2.shard.data.get_insert key updated)
        ((guard.purgeNow key).2.shard.opCount + 1) guard.clock.now (guard.purgeNow key).2.clock
      apply Sound.after_purge covered key charge
      intro credit purged
      simp only [updateEntryOrInsertWithPresence, purged, held,
        show ((guard.purgeNow key).2.raise credit).lookup key = none from held]
      rfl
  | some entry =>
      let updated := (mutate { entry with lastAccessed := guard.clock.now } true).2
      have changed : ((guard.purgeNow key).2.shard.data.update key (fun _ => updated)).get =
          Function.update (guard.purgeNow key).2.lookup key (some updated) := by
        rw [ShardData.get_update,
          show (guard.purgeNow key).2.shard.data.get key = some entry from held]
        rfl
      have charge := charged_sound enough key (some updated) changed
        ((guard.purgeNow key).2.shard.opCount + 1) guard.clock.now (guard.purgeNow key).2.clock
      apply Sound.after_purge covered key charge
      intro credit purged
      simp only [updateEntryOrInsertWithPresence, purged, held,
        show ((guard.purgeNow key).2.raise credit).lookup key = some entry from held]
      rw [enough.charged_some held]
      rfl

theorem setExpiryConditional_sound {guard : Guard index} (covered : guard.Covered) (key : Key index)
    (timestamp : Nat) (requireExpiry : Option Bool) :
    Sound (fun current => (current.setExpiryConditional key timestamp requireExpiry).2) guard := by
  have enough := (purgeNow_sound covered key).keeps.covered covered
  cases held : (guard.purgeNow key).2.lookup key with
  | none =>
      apply Sound.after_purge covered key (Sound.id _)
      intro credit purged
      simp only [setExpiryConditional, purged,
        show ((guard.purgeNow key).2.raise credit).lookup key = none from held]
  | some entry =>
      by_cases refused : requireExpiry.any (fun required => required != entry.expiresAt.isSome) = true
      · apply Sound.after_purge covered key (Sound.id _)
        intro credit purged
        simp only [setExpiryConditional, purged, refused, if_true,
          show ((guard.purgeNow key).2.raise credit).lookup key = some entry from held]
      · by_cases early : timestamp ≤ guard.clock.now
        · apply Sound.after_purge covered key (remove_sound enough key)
          intro credit purged
          simp only [setExpiryConditional, purged, refused, if_false, Bool.false_eq_true,
            show ((guard.purgeNow key).2.raise credit).lookup key = some entry from held]
          exact congrArg Prod.snd (if_pos early)
        · have stamped : Sound _ _ := @restamped_sound _ _ _ key entry held
            (fun entry => { entry with expiresAt := some timestamp }) rfl
            ((guard.purgeNow key).2.shard.opCount + 1) (guard.purgeNow key).2.clock.now
            (guard.purgeNow key).2.clock.tick
          apply Sound.after_purge covered key stamped
          intro credit purged
          simp only [setExpiryConditional, purged, refused, if_false, Bool.false_eq_true,
            show ((guard.purgeNow key).2.raise credit).lookup key = some entry from held]
          exact congrArg Prod.snd (if_neg early)

theorem insertIfAbsent_sound {guard : Guard index} (covered : guard.Covered) (key : Key index)
    (entry : DataEntry) : Sound (fun current => (current.insertIfAbsent key entry).2) guard := by
  have enough := (purgeNow_sound covered key).keeps.covered covered
  cases held : (guard.purgeNow key).2.lookup key with
  | none =>
      have charge := charged_sound enough key (some entry)
        ((guard.purgeNow key).2.shard.data.get_insert key entry)
        ((guard.purgeNow key).2.shard.opCount + 1) (guard.purgeNow key).2.clock.now
        (guard.purgeNow key).2.clock.tick
      apply Sound.after_purge covered key charge
      intro credit purged
      simp only [insertIfAbsent, purged, held,
        show ((guard.purgeNow key).2.raise credit).lookup key = none from held]
      rfl
  | some present =>
      apply Sound.after_purge covered key (Sound.id _)
      intro credit purged
      simp only [insertIfAbsent, purged,
        show ((guard.purgeNow key).2.raise credit).lookup key = some present from held]

end Guard

end OnyxDB.Engine
