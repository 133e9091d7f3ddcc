import OnyxDB.Store.JsonPathLaws
import OnyxDB.Store.Programs

/-! Operations that change what is shown only if their result claims so. A closure that refuses leaves its value
alone, and an entry made for it is not refused; both are facts about the closure only. -/

namespace OnyxDB.Store
open OnyxDB.Library OnyxDB.Library.Decimal OnyxDB.Engine OnyxDB.Engine.Value OnyxDB.Protocol

/-- The objects of a stored document are finite maps. -/
def Documented (value : OnyxValue) : Prop :=
  match value with
  | .json document => document.Ordered
  | _ => True

/-- The objects of all stored documents are finite maps. -/
def ShardedStore.Documented (store : ShardedStore) : Prop :=
  ∀ key entry, store.engine.lookup key = some entry → Store.Documented entry.value

/-- A result that is not an error. -/
def Succeeds {ε α : Type} (result : Except ε α) : Prop := ∃ value, result = .ok value

/-- A program shows nothing new unless its result claims a change. -/
def Honest {α : Type} (claims : α → Prop) (program : StoreM α) : Prop :=
  ∀ store : ShardedStore, store.engine.clock.Nondecreasing → store.Documented →
    ¬ claims (program store).1 → ∀ time, store.engine.clock.Upto (program store).2.engine.clock time →
      (program store).2.view time = store.view time

/-- A program that at most reads the clock. -/
def Idle {α : Type} (program : StoreM α) : Prop :=
  ∀ store : ShardedStore, store.engine.clock.Leads (program store).2.engine.clock ∧
    (program store).2.engine.lookup = store.engine.lookup

namespace Idle
variable {α β : Type}

theorem pure (value : α) : Idle (pure value : StoreM α) := fun _ => ⟨Clock.Leads.refl _, rfl⟩

theorem bind {first : StoreM α} {rest : α → StoreM β} (idle : Idle first) (later : ∀ value, Idle (rest value)) :
    Idle (first >>= rest) :=
  fun store => ⟨(idle store).1.trans (later _ (first store).2).1,
    (later _ (first store).2).2.trans (idle store).2⟩

theorem now : Idle ShardedStore.now := fun store => ⟨store.engine.clock.leads_tick, rfl⟩

end Idle

section Decisions

variable {α : Type}

/-- A decision at a slot shows nothing new unless its result claims a change. -/
def Discreet (claims : α → Prop) (decision : Option DataEntry → α × Option DataEntry) : Prop :=
  ∀ slot time, (∀ entry, slot = some entry → Documented entry.value) → ¬ claims (decision slot).1 →
    shown time (decision slot).2 = shown time slot

theorem atKey_discreet {claims : α → Prop} {decision : Option DataEntry → α × Option DataEntry}
    (discreet : Discreet claims decision) {map after : FlatMap} {key : Bytes} {reading time : Nat} {result : α}
    (documented : ∀ entry, map key = some entry → Documented entry.value)
    (decided : (result, after) = map.atKey key reading decision) (order : reading ≤ time)
    (denied : ¬ claims result) (other : Bytes) : shown time (after other) = shown time (map other) := by
  by_cases same : other = key
  · subst same
    have slots : after = Function.update map other _ := congrArg Prod.snd decided
    have answer : result = (decision (fresh reading (map other))).1 := congrArg Prod.fst decided
    rw [answer] at denied
    rw [slots, Function.update_self, discreet _ time _ denied, shown_fresh order]
    intro entry held
    exact documented entry (Expiring.live_eq_some held).1
  · rw [FlatMap.atKey_other decided same]

/-- An update of an existing value. -/
theorem discreet_update {claims : Option α → Prop} {mutate : OnyxValue → α × OnyxValue} {reading : Nat}
    (refuses : ∀ value, Documented value → ¬ claims (some (mutate value).1) → (mutate value).2 = value) :
    Discreet claims (fun slot => (slot.map (fun entry => (mutate entry.value).1),
      slot.map (fun entry => { entry with lastAccessed := reading, value := (mutate entry.value).2 }))) := by
  intro slot time documented denied
  cases slot with
  | none => rfl
  | some entry =>
      have same := refuses entry.value (documented entry rfl) denied
      simp only [Option.map_some, same]
      exact shown_congr time rfl

/-- An update that may delete. -/
theorem discreet_action {claims : Option α → Prop} {mutate : OnyxValue → EntryMutation α × OnyxValue}
    {reading : Nat}
    (refuses : ∀ value, Documented value → ¬ claims (some (mutate value).1.result) →
      ∃ result, mutate value = (.keep result, value)) :
    Discreet claims (fun slot => (slot.map (fun entry => (mutate entry.value).1.result),
      Guard.mutated reading mutate slot)) := by
  intro slot time documented denied
  cases slot with
  | none => rfl
  | some entry =>
      obtain ⟨result, same⟩ := refuses entry.value (documented entry rfl) denied
      simp only [Guard.mutated, Option.bind_some, same]
      exact shown_congr time rfl

/-- An update of an entry that is made when it is missing: a new entry is not refused. -/
theorem discreet_upsert {claims : α → Prop} {mutate : DataEntry → Bool → α × DataEntry} {default : OnyxValue}
    {reading : Nat}
    (refuses : ∀ entry existed, ¬ claims (mutate entry existed).1 → (mutate entry existed).2 = entry)
    (accepts : ∀ entry, entry.value = default → claims (mutate entry false).1) :
    Discreet claims (fun slot =>
      ((mutate (Guard.prepared reading default slot).1 slot.isSome).1,
        some (mutate (Guard.prepared reading default slot).1 slot.isSome).2)) := by
  intro slot time _ denied
  cases slot with
  | none => exact absurd (accepts _ rfl) denied
  | some entry =>
      simp only at denied ⊢
      rw [refuses _ _ denied]
      exact shown_congr time rfl

/-- The same for closures that see the value only. -/
theorem discreet_upsert_value {claims : α → Prop} {mutate : OnyxValue → Bool → α × OnyxValue}
    {default : OnyxValue} {reading : Nat}
    (refuses : ∀ value existed, ¬ claims (mutate value existed).1 → (mutate value existed).2 = value)
    (accepts : claims (mutate default false).1) :
    Discreet claims (fun slot =>
      let entry := (Guard.prepared reading default slot).1
      ((mutate entry.value slot.isSome).1, some { entry with value := (mutate entry.value slot.isSome).2 })) := by
  apply @discreet_upsert α claims
    (fun entry existed => ((mutate entry.value existed).1, { entry with value := (mutate entry.value existed).2 }))
    default reading
  · intro entry existed denied
    simp only [refuses entry.value existed denied]
  · intro entry fresh
    simp only [fresh]
    exact accepts

theorem discreet_withExpiry (reading timestamp : Nat) (condition : Option Bool) :
    Discreet (· = true) (FlatMap.withExpiry reading timestamp condition) := by
  intro slot time _ denied
  cases slot with
  | none => rfl
  | some entry =>
      simp only [FlatMap.withExpiry] at denied ⊢
      split
      next => rfl
      next allowed =>
        rw [if_neg allowed] at denied
        split at denied <;> exact absurd rfl denied

end Decisions

namespace Honest

variable {α β : Type}

theorem view {claims : α → Prop} {program : StoreM α} (honest : Honest claims program) {store : ShardedStore}
    {time : Nat} (fixed : store.engine.clock.Fixed time) (documented : store.Documented)
    (denied : ¬ claims (program store).1) : (program store).2.view time = store.view time :=
  honest store fixed.nondecreasing documented denied time fixed.upto

theorem pure (claims : α → Prop) (value : α) : Honest claims (pure value : StoreM α) :=
  fun _ _ _ _ _ _ => rfl

/-- A program that answers to a result that claims more. -/
theorem map {claims : α → Prop} {reports : β → Prop} {program : StoreM α} (honest : Honest claims program)
    {answer : α → β} (frank : ∀ value, claims value → reports (answer value)) :
    Honest reports (program >>= fun value => Pure.pure (answer value)) :=
  fun store steady documented denied =>
    honest store steady documented (fun claimed => denied (frank _ claimed))

/-- The same with a case distinction that ends in every case. -/
theorem conclude {claims : α → Prop} {reports : β → Prop} {program : StoreM α} (honest : Honest claims program)
    {next : α → StoreM β}
    (frank : ∀ value, ∃ answer, next value = Pure.pure answer ∧ (claims value → reports answer)) :
    Honest reports (program >>= next) := by
  have answers : ∀ value, ∃ answer, next value = Pure.pure answer ∧ (claims value → reports answer) := frank
  choose answer ends claimed using answers
  have same : next = fun value => Pure.pure (answer value) := funext ends
  rw [same]
  exact honest.map claimed

/-- An idle program, and then another. -/
theorem after {claims : β → Prop} {first : StoreM α} {rest : α → StoreM β}
    (idle : Idle first) (honest : ∀ value, Honest claims (rest value)) : Honest claims (first >>= rest) := by
  intro store steady documented denied time upto
  obtain ⟨leads, same⟩ := idle store
  have later := honest (first store).1 (first store).2 (leads.nondecreasing steady)
    (fun key entry held => documented key entry (same ▸ held)) denied time (upto.rest leads)
  refine Eq.trans later ?_
  funext key
  unfold ShardedStore.view OnyxEngine.view
  rw [same]

theorem afterNow {claims : β → Prop} {rest : Nat → StoreM β} (honest : ∀ reading, Honest claims (rest reading)) :
    Honest claims (ShardedStore.now >>= rest) :=
  after .now honest

variable [Platform]

/-- An operation that is honest as one of the flat map. -/
theorem perform {claims : α → Prop} {operation : Operation α}
    (honest : ∀ (readings : Readings) (map after : FlatMap) (result : α) (time : Nat),
      (∀ key entry, map key = some entry → Documented entry.value) → readings.time ≤ time →
      FlatMap.Answers operation readings map result after → ¬ claims result →
      ∀ key, shown time (after key) = shown time (map key)) :
    Honest claims (ShardedStore.perform operation) := by
  intro store steady documented denied time upto
  obtain ⟨leads, readings, within, answers⟩ := OnyxEngine.refines steady operation
  have latest : (operation.run store.engine).2.clock.now ≤ time := by
    apply upto
    obtain ⟨count, same⟩ := leads
    exact ⟨count, count, le_rfl, by simp [Clock.now, same], same⟩
  funext key
  exact honest readings _ _ _ time documented (within.time.2.trans latest) answers denied key

end Honest

section Refusals

theorem denied_error {ε α : Type} {result : Except ε α} (denied : ¬ Succeeds result) :
    ∃ error, result = .error error := by
  cases result with
  | error error => exact ⟨error, rfl⟩
  | ok value => exact absurd ⟨value, rfl⟩ denied

theorem i64CheckedAdd_zero (delta : Int64) : i64CheckedAdd 0 delta = some delta := by
  have low := delta.le_toInt
  have high := delta.toInt_lt
  have zero : (0 : Int64).toInt = 0 := rfl
  unfold i64CheckedAdd
  rw [zero, Int.zero_add, if_pos ⟨low, high⟩, Int64.ofInt_toInt]

theorem incremented_refuses {delta : Int64} {value : OnyxValue} (denied : ¬ Succeeds (incremented delta value).1) :
    (incremented delta value).2 = value := by
  unfold incremented at denied ⊢
  split
  next => rfl
  next current known =>
    simp only [known] at denied
    split
    next => rfl
    next sum fits =>
      rw [fits] at denied
      exact absurd ⟨sum, rfl⟩ denied

theorem appended_refuses {suffix : String} {value : OnyxValue} (denied : ¬ Succeeds (appended suffix value).1) :
    (appended suffix value).2 = value := by
  unfold appended at denied ⊢
  split
  next => rfl
  next text shown =>
    simp only [shown] at denied
    exact absurd ⟨_, rfl⟩ denied

theorem exchanged_refuses {newValue : String} {entry : DataEntry} {existed : Bool}
    (denied : ¬ Succeeds (exchanged newValue entry existed).1) : (exchanged newValue entry existed).2 = entry := by
  unfold exchanged at denied ⊢
  split
  next => rfl
  next old shown =>
    simp only [shown] at denied
    exact absurd ⟨_, rfl⟩ denied

theorem pushedFront_refuses {item : Bytes} {value : OnyxValue} (denied : ¬ Succeeds (pushedFront item value).1) :
    (pushedFront item value).2 = value := by
  unfold pushedFront at denied ⊢
  split at denied
  · exact absurd ⟨_, rfl⟩ denied
  · rfl

theorem pushedBack_refuses {item : Bytes} {value : OnyxValue} (denied : ¬ Succeeds (pushedBack item value).1) :
    (pushedBack item value).2 = value := by
  unfold pushedBack at denied ⊢
  split at denied
  · exact absurd ⟨_, rfl⟩ denied
  · rfl

theorem fieldSet_refuses {field content : Bytes} {value : OnyxValue}
    (denied : ¬ Succeeds (fieldSet field content value).1) : (fieldSet field content value).2 = value := by
  unfold fieldSet at denied ⊢
  split at denied
  · exact absurd ⟨_, rfl⟩ denied
  · rfl

/-- A member that is not new is already there. -/
theorem memberAdded_refuses {member : Bytes} {value : OnyxValue}
    (denied : ¬ (memberAdded member value).1 = .ok true) : (memberAdded member value).2 = value := by
  unfold memberAdded at denied ⊢
  split at denied
  next members =>
    unfold HashSet.insert at denied ⊢
    split
    next absent =>
      rw [dif_pos absent] at denied
      exact absurd rfl denied
    next => rfl
  · rfl

theorem documentReplaced_refuses {newValue : Json} {value : OnyxValue}
    (denied : ¬ Succeeds (documentReplaced newValue value).1) : (documentReplaced newValue value).2 = value := by
  unfold documentReplaced at denied ⊢
  split at denied
  · exact absurd ⟨_, rfl⟩ denied
  · rfl

/-- A pop found an element. -/
def Popped (result : Except StoreError (Option String)) : Prop := ∃ item, result = .ok (some item)

theorem keepUnless_result {α : Type} (empty : Bool) (result : α) : (keepUnless empty result).result = result := by
  cases empty <;> rfl

theorem poppedFront_refuses {value : OnyxValue} (denied : ¬ Popped (poppedFront value).1.result) :
    ∃ result, poppedFront value = (.keep result, value) := by
  unfold poppedFront at denied ⊢
  split
  next item items => exact absurd ⟨_, keepUnless_result _ _⟩ denied
  · exact ⟨_, rfl⟩
  · exact ⟨_, rfl⟩

theorem poppedBack_refuses {value : OnyxValue} (denied : ¬ Popped (poppedBack value).1.result) :
    ∃ result, poppedBack value = (.keep result, value) := by
  unfold poppedBack at denied ⊢
  split
  next items =>
    split
    next item last =>
      simp only [last] at denied
      exact absurd ⟨_, keepUnless_result _ _⟩ denied
    · exact ⟨_, rfl⟩
  · exact ⟨_, rfl⟩

/-- Removing a field that is not there changes nothing. -/
theorem fieldRemoved_refuses {field : Bytes} {value : OnyxValue}
    (denied : ¬ (fieldRemoved field value).1.result = .ok true) :
    ∃ result, fieldRemoved field value = (.keep result, value) := by
  unfold fieldRemoved at denied ⊢
  split
  next fields =>
    cases found : fields.lookup field with
    | some previous =>
        simp only [HashMap.remove, found, keepUnless_result, Option.isSome_some, not_true_eq_false] at denied
    | none =>
        have same : AList.erase field fields = fields := by
          apply AList.ext
          exact List.kerase_of_notMem_keys (AList.lookup_eq_none.mp found)
        simp only [HashMap.remove, found, same, Option.isSome_none, Bool.false_and]
        exact ⟨_, rfl⟩
  · exact ⟨_, rfl⟩

theorem memberRemoved_refuses {member : Bytes} {value : OnyxValue}
    (denied : ¬ (memberRemoved member value).1.result = .ok true) :
    ∃ result, memberRemoved member value = (.keep result, value) := by
  unfold memberRemoved at denied ⊢
  split
  next members =>
    by_cases present : member ∈ members.members
    · simp only [HashSet.remove, present, decide_true, keepUnless_result, not_true_eq_false] at denied
    · have same : members.members.erase member = members.members := List.erase_of_not_mem present
      simp only [HashSet.remove, present, decide_false, Bool.false_and, same]
      exact ⟨_, rfl⟩
  · exact ⟨_, rfl⟩

theorem documentRemoved_refuses {value : OnyxValue} (denied : ¬ (documentRemoved value).1.result = .ok true) :
    ∃ result, documentRemoved value = (.keep result, value) := by
  unfold documentRemoved at denied ⊢
  split
  next => exact absurd rfl denied
  · exact ⟨_, rfl⟩

/-- An edit of a document that fails without a change. -/
theorem documentEdited_refuses {α : Type} {claims : α → Prop} {edit : Json → α × Json}
    (refuses : ∀ root : Json, root.Ordered → ¬ claims (edit root).1 → (edit root).2 = root) {value : OnyxValue}
    (documented : Documented value) (denied : ¬ ∃ result, (documentEdited edit value).1 = some result ∧ claims result) :
    (documentEdited edit value).2 = value := by
  unfold documentEdited at denied ⊢
  split at denied
  next root =>
    refine congrArg OnyxValue.json (refuses root documented ?_)
    intro claimed
    exact denied ⟨_, rfl, claimed⟩
  · rfl

end Refusals

section Operations

variable [Platform] {α : Type}

/-- An operation at one key. -/
theorem Honest.atKey {claims : α → Prop} {operation : Operation α} {key : Bytes}
    {decision : Readings → Option DataEntry → α × Option DataEntry}
    (decides : ∀ readings map result after, FlatMap.Answers operation readings map result after →
      (result, after) = FlatMap.atKey map key readings.time (decision readings))
    (discreet : ∀ readings, Discreet claims (decision readings)) : Honest claims (ShardedStore.perform operation) :=
  Honest.perform fun readings map after result _ documented order answers denied =>
    atKey_discreet (discreet readings) (documented key) (decides readings map result after answers) order denied

theorem setConditional_honest (key : Bytes) (value : OnyxValue) (expiresAt : Option Nat) (condition : Option Bool) :
    Honest (· = true) (ShardedStore.perform (.setConditional key value expiresAt condition)) := by
  refine Honest.atKey (fun _ _ _ _ answers => answers) ?_
  intro readings slot time _ denied
  simp only [denied, if_false]

theorem setIfAbsent_honest (key : Bytes) (value : OnyxValue) :
    Honest (· = true) (ShardedStore.perform (.setIfAbsent key value)) := by
  refine Honest.atKey (fun _ _ _ _ answers => answers) ?_
  intro readings slot time _ denied
  cases slot with
  | none => exact absurd rfl denied
  | some entry => rfl

theorem delete_honest (key : Bytes) : Honest (· = true) (ShardedStore.perform (.delete key)) := by
  refine Honest.atKey (fun _ _ _ _ answers => answers) ?_
  intro readings slot time _ denied
  cases slot with
  | none => rfl
  | some entry => exact absurd rfl denied

theorem setExpiry_honest (key : Bytes) (timestamp : Nat) :
    Honest (· = true) (ShardedStore.perform (.setExpiry key timestamp)) :=
  Honest.atKey (fun _ _ _ _ answers => answers) (fun readings => discreet_withExpiry readings.time timestamp none)

theorem setExpiryConditional_honest (key : Bytes) (timestamp : Nat) (condition : Option Bool) :
    Honest (· = true) (ShardedStore.perform (.setExpiryConditional key timestamp condition)) :=
  Honest.atKey (fun _ _ _ _ answers => answers)
    (fun readings => discreet_withExpiry readings.time timestamp condition)

theorem updateIfExists_honest {claims : Option α → Prop} (key : Bytes) {mutate : OnyxValue → α × OnyxValue}
    (refuses : ∀ value, Documented value → ¬ claims (some (mutate value).1) → (mutate value).2 = value) :
    Honest claims (ShardedStore.perform (.updateIfExists key mutate)) :=
  Honest.atKey (fun _ _ _ _ answers => answers) (fun _ => discreet_update refuses)

theorem updateIfExistsWithAction_honest {claims : Option α → Prop} (key : Bytes)
    {mutate : OnyxValue → EntryMutation α × OnyxValue}
    (refuses : ∀ value, Documented value → ¬ claims (some (mutate value).1.result) →
      ∃ result, mutate value = (.keep result, value)) :
    Honest claims (ShardedStore.perform (.updateIfExistsWithAction key mutate)) :=
  Honest.atKey (fun _ _ _ _ answers => answers) (fun _ => discreet_action refuses)

theorem updateOrInsert_honest {claims : α → Prop} (key : Bytes) {default : OnyxValue}
    {mutate : OnyxValue → α × OnyxValue}
    (refuses : ∀ value, ¬ claims (mutate value).1 → (mutate value).2 = value)
    (accepts : claims (mutate default).1) :
    Honest claims (ShardedStore.perform (.updateOrInsert key default mutate)) :=
  Honest.atKey (fun _ _ _ _ answers => answers) (fun _ =>
    @discreet_upsert_value α claims (fun value _ => mutate value) default _ (fun value _ => refuses value) accepts)

theorem updateOrInsertWithPresence_honest {claims : α → Prop} (key : Bytes) {default : OnyxValue}
    {mutate : OnyxValue → Bool → α × OnyxValue}
    (refuses : ∀ value existed, ¬ claims (mutate value existed).1 → (mutate value existed).2 = value)
    (accepts : claims (mutate default false).1) :
    Honest claims (ShardedStore.perform (.updateOrInsertWithPresence key default mutate)) :=
  Honest.atKey (fun _ _ _ _ answers => answers) (fun _ => discreet_upsert_value refuses accepts)

theorem updateEntryOrInsertWithPresence_honest {claims : α → Prop} (key : Bytes) {default : OnyxValue}
    {mutate : DataEntry → Bool → α × DataEntry}
    (refuses : ∀ entry existed, ¬ claims (mutate entry existed).1 → (mutate entry existed).2 = entry)
    (accepts : ∀ entry, entry.value = default → claims (mutate entry false).1) :
    Honest claims (ShardedStore.perform (.updateEntryOrInsertWithPresence key default mutate)) :=
  Honest.atKey (fun _ _ _ _ answers => answers) (fun _ => discreet_upsert refuses accepts)

/-- A rename or a copy without a source shows nothing new. -/
theorem rename_honest (source target : Bytes) :
    Honest (· = true) (ShardedStore.perform (.rename source target)) := by
  apply Honest.perform
  intro readings map after result time _ order answers denied key
  simp only [FlatMap.Answers, FlatMap.moved] at answers
  split at answers
  next gone =>
    have slots : after = Function.update map source none := congrArg Prod.snd answers
    rw [slots]
    by_cases same : key = source
    · rw [same, Function.update_self, ← gone, shown_fresh order]
    · rw [Function.update_of_ne same]
  next => exact absurd (congrArg Prod.fst answers) denied

theorem copy_honest (source target : Bytes) : Honest (· = true) (ShardedStore.perform (.copy source target)) := by
  apply Honest.perform
  intro readings map after result time _ order answers denied key
  simp only [FlatMap.Answers, FlatMap.copied] at answers
  split at answers
  next gone =>
    have slots : after = Function.update map source none := congrArg Prod.snd answers
    rw [slots]
    by_cases same : key = source
    · rw [same, Function.update_self, ← gone, shown_fresh order]
    · rw [Function.update_of_ne same]
  next =>
    split at answers
    · exact absurd (congrArg Prod.fst answers) denied
    · exact absurd (congrArg Prod.fst answers) denied

end Operations

section Typed

variable [Platform]
open ShardedStore

theorem incrby_honest (key : String) (delta : Int64) : Honest Succeeds (incrby key delta) := by
  apply updateOrInsert_honest
  · exact fun value => incremented_refuses
  · exact ⟨delta, by rw [incremented, currentInteger]; simp only [i64CheckedAdd_zero]⟩

theorem append_honest (key suffix : String) : Honest Succeeds (append key suffix) :=
  updateOrInsert_honest _ (fun _ => appended_refuses) ⟨_, rfl⟩

theorem getset_honest (key newValue : String) : Honest Succeeds (getset key newValue) := by
  apply updateEntryOrInsertWithPresence_honest
  · exact fun entry existed => exchanged_refuses
  · intro entry empty
    rw [exchanged, empty]
    exact ⟨_, rfl⟩

theorem lpush_honest (key item : String) : Honest Succeeds (lpush key item) :=
  updateOrInsert_honest _ (fun _ => pushedFront_refuses) ⟨_, rfl⟩

theorem rpush_honest (key item : String) : Honest Succeeds (rpush key item) :=
  updateOrInsert_honest _ (fun _ => pushedBack_refuses) ⟨_, rfl⟩

theorem hset_honest (key field value : String) : Honest Succeeds (hset key field value) :=
  updateOrInsert_honest _ (fun _ => fieldSet_refuses) ⟨_, rfl⟩

theorem sadd_honest (key member : String) : Honest (· = .ok true) (sadd key member) := by
  apply updateOrInsert_honest
  · exact fun value => memberAdded_refuses
  · rfl

/-- An update that may delete, with an answer for a missing key that claims nothing. -/
theorem action_honest {α : Type} {claims : α → Prop} {missing : α} (key : Bytes)
    {mutate : OnyxValue → EntryMutation α × OnyxValue}
    (refuses : ∀ value, ¬ claims (mutate value).1.result → ∃ result, mutate value = (.keep result, value)) :
    Honest claims (do return (← ShardedStore.perform (.updateIfExistsWithAction key mutate)).getD missing) := by
  have honest : Honest (fun result => ∃ value, result = some value ∧ claims value)
      (ShardedStore.perform (.updateIfExistsWithAction key mutate)) := by
    apply updateIfExistsWithAction_honest
    intro value _ denied
    exact refuses value (fun claimed => denied ⟨_, rfl, claimed⟩)
  apply honest.map
  rintro _ ⟨value, rfl, claimed⟩
  exact claimed

theorem lpop_honest (key : String) : Honest Popped (lpop key) := action_honest _ (fun _ => poppedFront_refuses)

theorem rpop_honest (key : String) : Honest Popped (rpop key) := action_honest _ (fun _ => poppedBack_refuses)

theorem hdel_honest (key field : String) : Honest (· = .ok true) (hdel key field) :=
  action_honest _ (fun _ => fieldRemoved_refuses)

theorem srem_honest (key member : String) : Honest (· = .ok true) (srem key member) :=
  action_honest _ (fun _ => memberRemoved_refuses)

theorem expire_honest (key : String) (seconds : Nat) : Honest (· = true) (expire key seconds) :=
  Honest.afterNow fun _ => setExpiry_honest _ _

theorem expireConditional_honest (key : String) (seconds : Nat) (condition : String) :
    Honest (· = true) (expireConditional key seconds condition) := by
  have require (expiry : Bool) : Honest (· = true) (expireConditional.require key seconds expiry) :=
    Honest.afterNow fun _ => setExpiryConditional_honest _ _ _
  unfold expireConditional
  split
  · exact require false
  · exact require true
  · exact Honest.pure _ _

/-- An edit of a document that fails without a change. -/
theorem document_honest {α : Type} {claims : α → Prop} (key : Bytes) {edit : Json → α × Json}
    (refuses : ∀ root : Json, root.Ordered → ¬ claims (edit root).1 → (edit root).2 = root) :
    Honest (fun answer => ∃ result, answer = some (some result) ∧ claims result)
      (ShardedStore.perform (.updateIfExists key (documentEdited edit))) := by
  apply updateIfExists_honest
  intro value documented denied
  apply documentEdited_refuses refuses documented
  rintro ⟨result, found, claimed⟩
  exact denied ⟨result, congrArg some found, claimed⟩

theorem jsonSet_honest (key path : String) (newValue : Json) : Honest Succeeds (jsonSet key path newValue) := by
  unfold jsonSet
  split
  · exact Honest.pure _ _
  · exact updateOrInsertWithPresence_honest _ (fun _ _ => documentReplaced_refuses) ⟨_, rfl⟩
  next segments _ _ =>
    have edits := @document_honest _ Bool (· = true) (utf8Bytes key)
      (fun root => setJsonPath root segments newValue)
      (fun root ordered failed => setJsonPath_fails ordered (Bool.eq_false_iff.mpr failed))
    apply edits.conclude
    rintro (_ | _ | done)
    · exact ⟨_, rfl, fun ⟨_, same, _⟩ => absurd same nofun⟩
    · exact ⟨_, rfl, fun ⟨_, same, _⟩ => absurd same nofun⟩
    · cases done with
      | false => exact ⟨_, rfl, fun ⟨_, same, done⟩ => absurd (done ▸ same) nofun⟩
      | true => exact ⟨_, rfl, fun _ => ⟨_, rfl⟩⟩

theorem jsonDel_honest (key path : String) : Honest (· = .ok true) (jsonDel key path) := by
  unfold jsonDel
  split
  · exact Honest.pure _ _
  · exact action_honest _ (fun _ => documentRemoved_refuses)
  next segments _ _ =>
    have edits := @document_honest _ Bool (· = true) (utf8Bytes key) (fun root => deleteJsonPath root segments)
      (fun root ordered failed => deleteJsonPath_fails ordered (Bool.eq_false_iff.mpr failed))
    apply edits.conclude
    rintro (_ | _ | done)
    · exact ⟨_, rfl, fun ⟨_, same, _⟩ => absurd same nofun⟩
    · exact ⟨_, rfl, fun ⟨_, same, _⟩ => absurd same nofun⟩
    · exact ⟨_, rfl, fun ⟨_, same, done'⟩ => by cases same; rw [done']⟩

theorem jsonEdit_honest {α : Type} (key path : String)
    {edit : List JsonPathSegment → Json → Except String α × Json}
    (refuses : ∀ segments (root : Json), root.Ordered → ¬ Succeeds (edit segments root).1 →
      (edit segments root).2 = root) : Honest Succeeds (jsonEdit key path edit) := by
  unfold jsonEdit
  split
  · exact Honest.pure _ _
  next segments _ =>
    have edits := document_honest (utf8Bytes key) (refuses segments)
    apply edits.conclude
    rintro (_ | _ | result)
    · exact ⟨_, rfl, fun ⟨_, same, _⟩ => absurd same nofun⟩
    · exact ⟨_, rfl, fun ⟨_, same, _⟩ => absurd same nofun⟩
    · exact ⟨_, rfl, fun ⟨_, same, claimed⟩ => by cases same; exact claimed⟩

theorem jsonNumincrby_honest (key path : String) (delta : F64) : Honest Succeeds (jsonNumincrby key path delta) := by
  apply jsonEdit_honest
  intro segments root ordered denied
  obtain ⟨error, failed⟩ := denied_error denied
  exact numincrbyJsonPath_fails ordered failed

theorem jsonArrappend_honest (key path : String) (newValue : Json) :
    Honest Succeeds (jsonArrappend key path newValue) := by
  apply jsonEdit_honest
  intro segments root ordered denied
  obtain ⟨error, failed⟩ := denied_error denied
  exact arrappendJsonPath_fails ordered failed

end Typed

end OnyxDB.Store
