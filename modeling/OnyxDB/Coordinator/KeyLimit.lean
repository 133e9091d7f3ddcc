import OnyxDB.Command.Composition
import OnyxDB.Coordinator.Invariance
import OnyxDB.Engine.KeyCount

/-! The limit on the number of keys: a request leaves no more live keys than the limit allows, although the exact count
is taken only when the count of held keys asks for it. -/

namespace OnyxDB.Coordinator
open OnyxDB.Library OnyxDB.Engine OnyxDB.Engine.Value OnyxDB.Store OnyxDB.Protocol OnyxDB.Command
  OnyxDB.Persistence.Model OnyxDB.Persistence.Commit

/-- An entry that is alive at `time` belongs to a key that is alive in `store` then. -/
def Was (store : ShardedStore) (time : Nat) (key : Bytes) (entry : DataEntry) : Prop :=
  entry.expired time = false → (store.view time key).isSome

namespace Was

variable {base store middle after : ShardedStore} {time : Nat}

theorem self (store : ShardedStore) (time : Nat) : store.All (Was store time) :=
  fun key entry held live => (store.engine.view_isSome_iff time key).mpr ⟨entry, held, live⟩

theorem trans (early : middle.All (Was base time)) {key : Bytes} {entry : DataEntry} (late : Was middle time key entry) :
    Was base time key entry := by
  intro live
  obtain ⟨between, held, alive⟩ := (middle.engine.view_isSome_iff time key).mp (late live)
  exact early key between held alive

theorem all_trans (early : middle.All (Was base time)) (late : after.All (Was middle time)) :
    after.All (Was base time) := fun key entry held => trans early (late key entry held)

/-- Keys that were alive are no more than there were. -/
theorem length_le (all : after.All (Was store time)) {early : Nat} (order : early ≤ time) :
    (after.engine.aliveKeys time).length ≤ (store.engine.aliveKeys early).length := by
  apply OnyxEngine.aliveKeys_length_le
  intro key alive
  obtain ⟨entry, held, live⟩ := (after.engine.view_isSome_iff time key).mp alive
  exact (store.engine.mem_aliveKeys early key).mpr (OnyxEngine.view_earlier order (all key entry held live))

end Was

/-- Outside of the keys of a program nothing comes alive. -/
theorem confined_was {α : Type} {program : StoreM α} {keys : List Bytes} (confined : Confined keys program)
    {store : ShardedStore} (steady : store.engine.clock.Nondecreasing) {time : Nat}
    (upto : (program store).2.engine.clock.now ≤ time) {key : Bytes} (outside : key ∉ keys) {entry : DataEntry}
    (held : (program store).2.engine.lookup key = some entry) : Was store time key entry := by
  intro live
  have same := (confined store steady).engine.view time (steady.upto upto) key outside
  have alive := ((program store).2.engine.view_isSome_iff time key).mpr ⟨entry, held, live⟩
  rwa [same] at alive

variable [Platform]

section Accounts

/-- The counters of a store are exact. -/
abbrev Accounted (store : ShardedStore) : Prop := store.engine.Accounted

theorem operation_accounted {α : Type} (operation : Operation α) {store : ShardedStore} (accounted : Accounted store) :
    Accounted (ShardedStore.perform operation store).2 :=
  (OnyxEngine.operation_handled accounted operation).accounted

theorem peekAll_accounted (keys : List Bytes) (images : Images) {store : ShardedStore} (accounted : Accounted store) :
    Accounted (ShardedStore.peekAll keys images store).2 := by
  induction keys generalizing images store with
  | nil => exact accounted
  | cons key keys rest =>
      have peeked := operation_accounted (.peek key) accounted
      exact rest _ peeked

theorem stats_accounted {store : ShardedStore} (accounted : Accounted store) : Accounted store.stats.2 :=
  (OnyxEngine.upkeep_handled accounted .stats).accounted

theorem usedMemoryBytes_accounted {store : ShardedStore} (accounted : Accounted store) :
    Accounted store.usedMemoryBytes.2 := (OnyxEngine.totalMemoryBytes_handled accounted).accounted

theorem beginMutation_accounted (keys : List Bytes) {store : ShardedStore} (accounted : Accounted store) :
    Accounted (beginMutation keys store).2 := by
  have peeked := peekAll_accounted keys ∅ accounted
  unfold beginMutation ShardedStore.beginMutation
  cases looking : ShardedStore.peekAll keys ∅ store with
  | mk images middle =>
      rw [looking] at peeked
      have counted := stats_accounted peeked
      have measured := usedMemoryBytes_accounted peeked
      have both := usedMemoryBytes_accounted counted
      simp only at peeked counted measured both ⊢
      cases keyLimitRequiresExactCount middle.engine.physicalKeyCount
          (images.entries.countP (fun image => image.2.isNone)) with
      | true =>
          simp only
          split
          · exact both
          · exact counted
      | false =>
          simp only
          split
          · exact measured
          · exact peeked

theorem keyEffects_accounted (before : Images) (evicted keys : List Bytes) {store : ShardedStore}
    (accounted : Accounted store) : Accounted (keyEffects before evicted keys store).2 := by
  induction keys generalizing store with
  | nil => exact accounted
  | cons key keys rest =>
      have peeked := operation_accounted (.peek key) accounted
      exact rest peeked

theorem applyEntries_accounted (entries : List (Bytes × DataEntry)) {store : ShardedStore}
    (accounted : Accounted store) : Accounted (store.applyEntries entries) := by
  induction entries generalizing store with
  | nil => exact accounted
  | cons entry entries rest =>
      have applied := operation_accounted (.applyEntry entry.1 entry.2) accounted
      exact rest applied

theorem restoreImages_accounted (images : List (Sigma fun _ : Bytes => Option DataEntry)) {store : ShardedStore}
    (accounted : Accounted store) : Accounted (store.restoreImages images) := by
  induction images generalizing store with
  | nil => exact accounted
  | cons image images rest =>
      obtain ⟨key, slot⟩ := image
      cases slot with
      | none =>
          have deleted := operation_accounted (.delete key) accounted
          exact rest deleted
      | some entry =>
          have applied := operation_accounted (.applyEntry key entry) accounted
          exact rest applied

theorem restore_accounted (undo : MutationRollback) {store : ShardedStore} (accounted : Accounted store) :
    Accounted (undo.restore store) := applyEntries_accounted _ (restoreImages_accounted _ accounted)

theorem checkMaxmemory_accounted {store : ShardedStore} (accounted : Accounted store) (attempt : MutationAttempt)
    (protectedKeys : List Bytes) : Accounted (store.checkMaxmemory attempt protectedKeys).2 := by
  have measured := usedMemoryBytes_accounted accounted
  unfold ShardedStore.checkMaxmemory
  split
  · exact accounted
  · simp only
    split
    · exact measured
    · split
      · exact measured
      · have evicted : Accounted (store.usedMemoryBytes.2.run (fun engine =>
            engine.evictToFit store.maxmemoryBytes store.maxmemoryPolicy protectedKeys)).2 :=
          (OnyxEngine.upkeep_handled measured
            (.evictToFit store.maxmemoryBytes store.maxmemoryPolicy protectedKeys)).accounted
        have remeasured := usedMemoryBytes_accounted evicted
        split
        · exact remeasured
        · exact applyEntries_accounted _ remeasured

theorem admitMutation_accounted {store : ShardedStore} (accounted : Accounted store) (attempt : MutationAttempt)
    (protectedKeys : List Bytes) : Accounted (store.admitMutation attempt protectedKeys).2 := by
  unfold ShardedStore.admitMutation ShardedStore.checkKeyLimit
  cases attempt.keyCountBefore with
  | none => exact checkMaxmemory_accounted accounted attempt protectedKeys
  | some keyCountBefore =>
      have counted := stats_accounted accounted
      simp only
      split
      next refused =>
        split at refused
        · cases refused
          exact counted
        · cases refused
      next passed =>
        split at passed
        · cases passed
        · cases passed
          exact checkMaxmemory_accounted counted attempt protectedKeys

theorem composed_accounted {α : Type} {program : StoreM α} (composed : Composed program) {store : ShardedStore}
    (accounted : Accounted store) : Accounted (program store).2 :=
  @Composed.keeps _ OnyxEngine.Accounted (fun operation _ kept => (OnyxEngine.operation_handled kept operation).accounted)
    (fun _ kept => (kept.time _).accounted) _ _ composed store accounted

end Accounts

section Beginning

theorem peekAll_other (keys : List Bytes) (images : Images) (store : ShardedStore) {key : Bytes}
    (outside : key ∉ keys) :
    (ShardedStore.peekAll keys images store).2.engine.lookup key = store.engine.lookup key := by
  induction keys generalizing images store with
  | nil => rfl
  | cons first keys rest =>
      rw [List.mem_cons, not_or] at outside
      have later := rest (images.insert first (store.peekEntry first).1) (store.peekEntry first).2 outside.2
      exact later.trans ((store.engine.peek_sets first).other outside.1)

/-- What was peeked as present is held when all keys have been peeked. -/
theorem peekAll_held (keys : List Bytes) (images : Images) (store : ShardedStore) {key : Bytes} {entry : DataEntry}
    (shown : (ShardedStore.peekAll keys images store).1.lookup key = some (some entry)) :
    (ShardedStore.peekAll keys images store).2.engine.lookup key = some entry ∨
      (key ∉ keys ∧ images.lookup key = some (some entry)) := by
  induction keys generalizing images store with
  | nil => exact Or.inr ⟨List.not_mem_nil, shown⟩
  | cons first keys rest =>
      rcases rest _ (store.peekEntry first).2 shown with held | ⟨absent, noted⟩
      · exact Or.inl held
      · by_cases here : key = first
        · subst here
          rw [AList.lookup_insert, Option.some.injEq] at noted
          have slot : (store.peekEntry key).2.engine.lookup key = some entry :=
            (store.engine.peek_sets key).slot.trans ((store.engine.peek_fst key).symm.trans noted)
          have later := peekAll_other keys (images.insert key (store.peekEntry key).1) (store.peekEntry key).2 absent
          exact Or.inl (later.trans slot)
        · rw [AList.lookup_insert_ne here] at noted
          exact Or.inr ⟨by rw [List.mem_cons, not_or]; exact ⟨here, absent⟩, noted⟩

theorem peekAll_keys (keys : List Bytes) (images : Images) (store : ShardedStore) (key : Bytes) :
    (ShardedStore.peekAll keys images store).1.lookup key = none ↔ key ∉ keys ∧ images.lookup key = none := by
  induction keys generalizing images store with
  | nil => simp [ShardedStore.peekAll]
  | cons first keys rest =>
      have later := rest (images.insert first (store.peekEntry first).1) (store.peekEntry first).2
      by_cases here : key = first
      · subst here
        rw [AList.lookup_insert] at later
        simp only [reduceCtorEq, and_false, iff_false] at later
        simp only [List.mem_cons, true_or, not_true_eq_false, false_and, iff_false]
        exact later
      · rw [AList.lookup_insert_ne here] at later
        simp only [List.mem_cons, here, false_or]
        exact later

/-- What was peeked as present was alive at the start. -/
theorem peekAll_alive {base : ShardedStore} (keys : List Bytes) (images : Images) {store : ShardedStore}
    (steady : store.engine.clock.Nondecreasing) (sheds : base.engine.Sheds store.engine)
    (order : base.engine.clock.now ≤ store.engine.clock.now)
    (noted : ∀ key entry, images.lookup key = some (some entry) →
      (base.view base.engine.clock.now key).isSome) {key : Bytes} {entry : DataEntry}
    (shown : (ShardedStore.peekAll keys images store).1.lookup key = some (some entry)) :
    (base.view base.engine.clock.now key).isSome := by
  induction keys generalizing images store with
  | nil => exact noted key entry shown
  | cons first keys rest =>
      have ages := store.engine.peek_ages first
      refine rest (images.insert first (store.peekEntry first).1) (ages.leads.nondecreasing steady)
        (sheds.trans ages.sheds) (order.trans (ages.leads.now_le steady)) ?_ shown
      intro other old imaged
      by_cases here : other = first
      · subst here
        rw [AList.lookup_insert, Option.some.injEq] at imaged
        have live := Expiring.live_eq_some ((store.engine.peek_fst other).symm.trans imaged)
        exact (base.engine.view_isSome_iff _ other).mpr
          ⟨old, sheds other old live.1, OnyxEngine.expired_earlier order live.2⟩
      · rw [AList.lookup_insert_ne here] at imaged
        exact noted other old imaged

/-- The keys a mutation may create. -/
def newKeys (images : Images) : List Bytes := (images.entries.filter (fun image => image.2.isNone)).map Sigma.fst

omit [Platform] in
theorem mem_newKeys {images : Images} {key : Bytes} (shown : images.lookup key = some none) : key ∈ newKeys images :=
  List.mem_map.mpr ⟨⟨key, none⟩, List.mem_filter.mpr ⟨AList.mem_lookup_iff.mp shown, rfl⟩, rfl⟩

omit [Platform] in
theorem newKeys_length (images : Images) :
    (newKeys images).length = images.entries.countP (fun image => image.2.isNone) := by
  rw [newKeys, List.length_map, List.countP_eq_length_filter]

/-- How the keys are counted when a mutation begins. -/
theorem beginMutation_counts (keys : List Bytes) (store : ShardedStore) :
    let attempt := (beginMutation keys store).1
    let peeked := (ShardedStore.peekAll keys ∅ store).2
    (attempt.keyCountBefore = none ∧ (newKeys attempt.beforeEntries = [] ∨
        peeked.engine.totalKeys + (newKeys attempt.beforeEntries).length ≤ maxKeys)) ∨
      attempt.keyCountBefore = some peeked.stats.1.totalKeys := by
  unfold beginMutation ShardedStore.beginMutation
  cases looking : ShardedStore.peekAll keys ∅ store with
  | mk images middle =>
      simp only
      cases asked : keyLimitRequiresExactCount middle.engine.physicalKeyCount
          (images.entries.countP (fun image => image.2.isNone)) with
      | true => exact Or.inr rfl
      | false =>
          refine Or.inl ⟨rfl, ?_⟩
          unfold keyLimitRequiresExactCount at asked
          rw [← newKeys_length, decide_eq_false_iff_not] at asked
          change newKeys images = [] ∨ middle.engine.physicalKeyCount + (newKeys images).length ≤ maxKeys
          rw [← List.length_eq_zero_iff]
          omega

end Beginning

section Deciding

/-- What is alive when no effect was derived was alive in the images. -/
theorem keyEffects_none {before : Images} (keys : List Bytes) {store : ShardedStore}
    (none : (keyEffects before [] keys store).1 = []) {key : Bytes} (inside : key ∈ keys) {entry : DataEntry}
    (held : (keyEffects before [] keys store).2.engine.lookup key = some entry) :
    ∃ old, before.lookup key = some (some old) ∧ old.expiresAt = entry.expiresAt := by
  induction keys generalizing store with
  | nil => exact absurd inside List.not_mem_nil
  | cons first keys rest =>
      have split : keyEffect first (((before.lookup first).getD Option.none).map PersistentEntry.ofDataEntry)
          ((store.peekEntry first).1.map PersistentEntry.ofDataEntry) (decide (first ∈ ([] : List Bytes))) ++
          (keyEffects before [] keys (store.peekEntry first).2).1 = [] := none
      obtain ⟨here, later⟩ := List.append_eq_nil_iff.mp split
      by_cases again : key ∈ keys
      · exact rest later again held
      · have same : key = first := (List.mem_cons.mp inside).resolve_right again
        subst same
        have between : (store.peekEntry key).2.engine.lookup key = some entry :=
          keyEffects_ages before [] keys (store.peekEntry key).2 |>.sheds key entry held
        have shown : (store.peekEntry key).1 = some entry :=
          (store.engine.peek_fst key).trans ((store.engine.peek_sets key).slot.symm.trans between)
        rw [shown, decide_eq_false List.not_mem_nil, Option.map_some] at here
        have equal := (keyEffect_nil key _ _).mp here
        cases imaged : before.lookup key with
        | none =>
            rw [imaged] at equal
            cases equal
        | some image =>
            rw [imaged] at equal
            cases image with
            | none => cases equal
            | some old =>
                refine ⟨old, rfl, ?_⟩
                have parts := (Bool.and_eq_true_iff.mp equal).2
                exact eq_of_beq parts

theorem derive_none_was {store base : ShardedStore} {keys : List Bytes} {undo : MutationRollback} {time : Nat}
    (none : (derive keys undo.beforeEntries [] store).1 = Option.none) (holds : Holds (Was base time) undo)
    (others : ∀ key entry, key ∉ keys → store.engine.lookup key = some entry → Was base time key entry) :
    (derive keys undo.beforeEntries [] store).2.All (Was base time) := by
  have unchanged : (keyEffects undo.beforeEntries [] keys store).1 = [] := by
    have empty := none
    unfold derive deriveCommittedBatch at empty
    simp only [List.map_nil] at empty
    split at empty
    next nothing => exact (List.append_eq_nil_iff.mp (List.isEmpty_iff.mp nothing)).2
    · cases empty
  intro key entry held
  by_cases inside : key ∈ keys
  · obtain ⟨old, imaged, same⟩ := keyEffects_none keys unchanged inside held
    intro live
    apply holds.images key old imaged
    unfold DataEntry.expired at live ⊢
    rwa [same]
  · exact others key entry inside ((derive_ages keys undo.beforeEntries [] store).sheds key entry held)

/-- A property of the entries outside of some keys. -/
def Outside (keys : List Bytes) (property : Bytes → DataEntry → Prop) (key : Bytes) (entry : DataEntry) : Prop :=
  key ∉ keys → property key entry

omit [Platform] in
theorem Holds.outside {property : Bytes → DataEntry → Prop} {undo : MutationRollback} (holds : Holds property undo)
    (keys : List Bytes) : Holds (Outside keys property) undo :=
  ⟨fun key entry imaged _ => holds.images key entry imaged, fun entry member _ => holds.evicted entry member⟩

omit [Platform] in
/-- The images are those of the keys. -/
def Imaged (keys : List Bytes) (images : Images) : Prop := ∀ key, images.lookup key = none ↔ key ∉ keys

/-- A rollback leaves what was alive before. -/
theorem restore_was {base store : ShardedStore} {keys : List Bytes} {undo : MutationRollback} {time : Nat}
    (imaged : Imaged keys undo.beforeEntries) (holds : Holds (Was base time) undo)
    (others : store.All (Outside keys (Was base time))) : (undo.restore store).All (Was base time) := by
  intro key entry held
  rcases restore_slot undo store held with image | evicted | ⟨unknown, _, before⟩
  · exact holds.images key entry image
  · exact holds.evicted (key, entry) evicted
  · exact others key entry before ((imaged key).mp unknown)

/-- A count that was taken before is checked again when the mutation has been executed. -/
theorem admitMutation_counted {store : ShardedStore} (accounted : Accounted store) {attempt admitted : MutationAttempt}
    {protectedKeys : List Bytes} {after : ShardedStore}
    (admits : store.admitMutation attempt protectedKeys = (.ok admitted, after)) {counted : Nat}
    (before : attempt.keyCountBefore = some counted) (few : counted ≤ maxKeys) (time : Nat) :
    (after.engine.aliveKeys time).length ≤ maxKeys := by
  unfold ShardedStore.admitMutation ShardedStore.checkKeyLimit at admits
  rw [before] at admits
  simp only at admits
  by_cases exceeds : store.stats.1.totalKeys > maxKeys ∧ store.stats.1.totalKeys > counted
  · rw [if_pos exceeds] at admits
    cases admits
  · rw [if_neg exceeds] at admits
    simp only at admits
    have within : store.stats.1.totalKeys ≤ maxKeys := by omega
    have admission := checkMaxmemory_admission store.stats.2 attempt protectedKeys
    rw [admits] at admission
    cases admission with
    | admitted admission =>
        have sheds := evicts_sheds admission.evicts
        refine le_trans (OnyxEngine.aliveKeys_length_le ?_) ((OnyxEngine.stats_totalKeys accounted).ge.trans within)
        intro key alive
        obtain ⟨entry, held, _⟩ := (after.engine.view_isSome_iff time key).mp alive
        exact (OnyxEngine.mem_keys _ key).mpr ⟨entry, sheds key entry held⟩

/-- The key limit refuses a mutation only when it left more live keys than the limit. -/
theorem admitMutation_keyLimit {store : ShardedStore} (accounted : Accounted store)
    (steady : store.engine.clock.Nondecreasing) {attempt : MutationAttempt} {protectedKeys : List Bytes}
    (refused : (store.admitMutation attempt protectedKeys).1 = .error .keyLimit) :
    maxKeys < (store.engine.aliveKeys store.engine.clock.now).length := by
  have memory : ∀ middle : ShardedStore, (middle.checkMaxmemory attempt protectedKeys).1 ≠ .error .keyLimit := by
    intro middle
    unfold ShardedStore.checkMaxmemory
    split
    · exact nofun
    · simp only
      split
      · exact nofun
      · split
        · exact nofun
        · split <;> exact nofun
  unfold ShardedStore.admitMutation ShardedStore.checkKeyLimit at refused
  cases before : attempt.keyCountBefore with
  | none =>
      rw [before] at refused
      exact absurd refused (memory store)
  | some counted =>
      rw [before] at refused
      simp only at refused
      by_cases exceeds : store.stats.1.totalKeys > maxKeys ∧ store.stats.1.totalKeys > counted
      · exact exceeds.1.trans_le (OnyxEngine.stats_le_alive accounted steady)
      · rw [if_neg exceeds] at refused
        exact absurd refused (memory store.stats.2)

/-- How a mutation ends, seen from the store it began with. -/
inductive Weighed (base : ShardedStore) (time : Nat) (keys : List Bytes) : Verdict → ShardedStore → Prop where
  | unchanged {after : ShardedStore} (all : after.All (Was base time)) : Weighed base time keys .unchanged after
  | refused {error : AdmissionError} {after : ShardedStore} (all : after.All (Was base time)) :
      Weighed base time keys (.refused error) after
  | admitted {attempt : MutationAttempt} {after : ShardedStore} (imaged : Imaged keys attempt.beforeEntries)
      (holds : Holds (Was base time) attempt.intoRollback) (others : after.All (Outside keys (Was base time)))
      (few : (after.engine.aliveKeys time).length ≤ maxKeys) : Weighed base time keys (.admitted attempt) after

theorem weigh_weighed {base executed : ShardedStore} (accounted : Accounted executed) {keys : List Bytes} {time : Nat}
    {attempt : MutationAttempt} (imaged : Imaged keys attempt.beforeEntries)
    (holds : Holds (Was base time) attempt.intoRollback) (others : executed.All (Outside keys (Was base time)))
    (uncounted : attempt.keyCountBefore = none → (executed.engine.aliveKeys time).length ≤ maxKeys)
    (counted : ∀ count, attempt.keyCountBefore = some count → count ≤ maxKeys) :
    Weighed base time keys (weigh keys attempt executed).1 (weigh keys attempt executed).2 := by
  have looked := derive_ages keys attempt.beforeEntries [] executed
  cases derivation : derive keys attempt.beforeEntries [] executed with
  | mk batch middle =>
      rw [derivation] at looked
      cases batch with
      | none =>
          rw [weigh_unchanged derivation]
          have none : (derive keys attempt.beforeEntries [] executed).1 = Option.none := by rw [derivation]
          have was : (derive keys attempt.beforeEntries [] executed).2.All (Was base time) :=
            @derive_none_was _ _ _ keys attempt.intoRollback _ none holds
              (fun key entry outside held => others key entry held outside)
          rw [derivation] at was
          exact .unchanged was
      | some batch =>
          rw [weigh_changed derivation]
          have between : middle.All (Outside keys (Was base time)) := others.sheds looked.sheds
          have precise : Accounted middle := by
            have kept := keyEffects_accounted attempt.beforeEntries [] keys accounted
            have same : middle = (keyEffects attempt.beforeEntries [] keys executed).2 :=
              (congrArg Prod.snd derivation).symm
            rwa [same]
          have admission := admitMutation_admission middle attempt keys
          have outside := (admitMutation_all between (holds.outside keys) keys).1
          cases ran : middle.admitMutation attempt keys with
          | mk verdict after =>
              rw [ran] at admission outside
              cases admission with
              | refused confines => exact .refused (restore_was imaged holds outside)
              | admitted admits =>
                  have sheds := evicts_sheds admits.evicts
                  have within : middle.All (Was executed time) := (Was.self executed time).sheds looked.sheds
                  refine .admitted ?_ ⟨?_, ?_⟩ outside ?_
                  · rw [admits.attempt]
                    exact imaged
                  · rw [admits.attempt]
                    exact holds.images
                  · rw [admits.attempt]
                    intro entry member
                    rcases List.mem_append.mp member with earlier | victim
                    · exact holds.evicted entry earlier
                    · exact between entry.1 entry.2 (admits.evicts.held entry victim)
                        (admits.evicts.unprotected entry victim)
                  · cases count : attempt.keyCountBefore with
                    | none => exact le_trans (Was.length_le (within.sheds sheds) le_rfl) (uncounted count)
                    | some number => exact admitMutation_counted precise ran count (counted number count) time

theorem weigh_accounted {store : ShardedStore} (accounted : Accounted store) (keys : List Bytes)
    (attempt : MutationAttempt) : Accounted (weigh keys attempt store).2 := by
  have kept := keyEffects_accounted attempt.beforeEntries [] keys accounted
  cases derivation : derive keys attempt.beforeEntries [] store with
  | mk batch middle =>
      have same : middle = (keyEffects attempt.beforeEntries [] keys store).2 := (congrArg Prod.snd derivation).symm
      rw [← same] at kept
      cases batch with
      | none =>
          rw [weigh_unchanged derivation]
          exact kept
      | some batch =>
          rw [weigh_changed derivation]
          have admitted := admitMutation_accounted kept attempt keys
          cases ran : middle.admitMutation attempt keys with
          | mk verdict after =>
              rw [ran] at admitted
              cases verdict with
              | error error => exact restore_accounted attempt.intoRollback admitted
              | ok admission => exact admitted

end Deciding

section Undertakings
variable {α : Type}

/-- Stores whose clock does not go back, with exact counters and no more live keys than the limit. -/
structure Within (store : ShardedStore) : Prop where
  steady : store.engine.clock.Nondecreasing
  accounted : Accounted store
  few : (store.engine.aliveKeys store.engine.clock.now).length ≤ maxKeys

/-- What is alive after a mutation began was alive before, and the images say so. -/
theorem beginMutation_was (keys : List Bytes) (store : ShardedStore) (time : Nat) :
    (beginMutation keys store).2.All (Was store time) ∧
      Holds (Was store time) (beginMutation keys store).1.intoRollback ∧
      Imaged keys (beginMutation keys store).1.beforeEntries := by
  have begun := beginMutation_ensures keys store (Was.self store time)
  refine ⟨begun.all, begun.result, ?_⟩
  intro key
  have listed := peekAll_keys keys ∅ store key
  rw [AList.lookup_empty] at listed
  exact listed.trans ⟨fun both => both.1, fun outside => ⟨outside, rfl⟩⟩

theorem weigh_leads (keys : List Bytes) (attempt : MutationAttempt) (store : ShardedStore) :
    store.engine.clock.Leads (weigh keys attempt store).2.engine.clock := by
  have holds : Holds (fun _ _ => True) attempt.intoRollback := ⟨fun _ _ _ => trivial, fun _ _ => trivial⟩
  exact (weigh_ensures holds keys).onward store

/-- An execution that was not counted before leaves few enough keys, and a count taken before is small enough. -/
theorem executed_few {store : ShardedStore} (sound : Within store) {keys : List Bytes} {program : StoreM α}
    (confined : Confined keys program) {time : Nat}
    (upto : (program (beginMutation keys store).2).2.engine.clock.now ≤ time) :
    let attempt := (beginMutation keys store).1
    (attempt.keyCountBefore = none →
      ((program (beginMutation keys store).2).2.engine.aliveKeys time).length ≤ maxKeys) ∧
      ∀ count, attempt.keyCountBefore = some count → count ≤ maxKeys := by
  obtain ⟨begun, holds, imaged⟩ := beginMutation_was keys store time
  have leads := (beginMutation_ages keys store).leads
  have steady := leads.nondecreasing sound.steady
  have ran := (confined (beginMutation keys store).2 steady).leads
  have late : store.engine.clock.now ≤ time := ((leads.trans ran).now_le sound.steady).trans upto
  have others : ∀ key entry, key ∉ keys →
      (program (beginMutation keys store).2).2.engine.lookup key = some entry →
      Was (beginMutation keys store).2 time key entry :=
    fun key entry outside held => confined_was confined steady upto outside held
  have peeked := peekAll_ages keys ∅ store
  have middle := peekAll_accounted keys ∅ sound.accounted
  have unimaged : ∀ key entry, (∅ : Images).lookup key = some (some entry) →
      (store.view store.engine.clock.now key).isSome := by
    intro key entry noted
    rw [AList.lookup_empty] at noted
    cases noted
  have counts := beginMutation_counts keys store
  simp only at counts ⊢
  constructor
  · intro uncounted
    rcases counts with ⟨_, none | room⟩ | counted
    · refine le_trans (OnyxEngine.aliveKeys_length_le ?_) sound.few
      intro key alive
      obtain ⟨entry, held, live⟩ := (OnyxEngine.view_isSome_iff _ time key).mp alive
      apply (store.engine.mem_aliveKeys _ key).mpr
      by_cases inside : key ∈ keys
      · cases image : (beginMutation keys store).1.beforeEntries.lookup key with
        | none => exact absurd inside ((imaged key).mp image)
        | some slot =>
            cases slot with
            | none =>
                have listed := mem_newKeys image
                rw [none] at listed
                exact absurd listed List.not_mem_nil
            | some old => exact peekAll_alive keys ∅ sound.steady (fun _ _ held => held) le_rfl unimaged image
      · exact OnyxEngine.view_earlier late (Was.trans begun (others key entry inside held) live)
    · refine le_trans (OnyxEngine.aliveKeys_length_le ?_)
        (((List.length_append).trans (congrArg (· + _) middle.length_keys)).le.trans room)
      intro key alive
      obtain ⟨entry, held, live⟩ := (OnyxEngine.view_isSome_iff _ time key).mp alive
      rw [List.mem_append]
      by_cases inside : key ∈ keys
      · cases image : (beginMutation keys store).1.beforeEntries.lookup key with
        | none => exact absurd inside ((imaged key).mp image)
        | some slot =>
            cases slot with
            | none => exact Or.inr (mem_newKeys image)
            | some old =>
                rcases peekAll_held keys ∅ store image with present | ⟨_, noted⟩
                · exact Or.inl ((OnyxEngine.mem_keys _ key).mpr ⟨old, present⟩)
                · rw [AList.lookup_empty] at noted
                  cases noted
      · obtain ⟨shown, present, _⟩ :=
          ((beginMutation keys store).2.engine.view_isSome_iff time key).mp (others key entry inside held live)
        have begins := (beginMutation_measures keys store).sheds
        exact Or.inl ((OnyxEngine.mem_keys _ key).mpr ⟨shown, begins key shown present⟩)
    · rw [uncounted] at counted
      cases counted
  · intro count counted
    rcases counts with ⟨uncounted, _⟩ | exactly
    · rw [counted] at uncounted
      cases uncounted
    · rw [counted, Option.some.injEq] at exactly
      rw [exactly]
      have peekedSteady := peeked.leads.nondecreasing sound.steady
      have fewer := OnyxEngine.stats_le_alive middle peekedSteady
      have receded := Was.length_le ((Was.self store _).sheds peeked.sheds) (peeked.leads.now_le sound.steady)
      exact fewer.trans (receded.trans sound.few)

/-- A mutation, from its beginning to its admission. -/
theorem undertake_weighed {store : ShardedStore} (sound : Within store) {keys : List Bytes} {program : StoreM α}
    (confined : Confined keys program) (keeps : ∀ store, Accounted store → Accounted (program store).2) {time : Nat}
    (upto : (undertake keys program store).2.engine.clock.now ≤ time) :
    Weighed store time keys (undertake keys program store).1.2.2 (undertake keys program store).2 ∧
      Imaged keys (undertake keys program store).1.1.beforeEntries ∧
      Holds (Was store time) (undertake keys program store).1.1.intoRollback := by
  obtain ⟨begun, holds, imaged⟩ := beginMutation_was keys store time
  have steady := (beginMutation_ages keys store).leads.nondecreasing sound.steady
  have ran := (confined (beginMutation keys store).2 steady).leads
  have weighs := weigh_leads keys (beginMutation keys store).1 (program (beginMutation keys store).2).2
  have late := (weighs.now_le (ran.nondecreasing steady)).trans upto
  obtain ⟨uncounted, counted⟩ := executed_few sound confined late
  have others : (program (beginMutation keys store).2).2.All (Outside keys (Was store time)) :=
    fun key entry held outside => Was.trans begun (confined_was confined steady late outside held)
  have accounted := keeps _ (beginMutation_accounted keys sound.accounted)
  exact ⟨weigh_weighed accounted imaged holds others uncounted counted, imaged, holds⟩

theorem undertake_leads {store : ShardedStore} {keys : List Bytes} {program : StoreM α}
    (confined : Confined keys program) (steady : store.engine.clock.Nondecreasing) :
    store.engine.clock.Leads (undertake keys program store).2.engine.clock := by
  have begun := (beginMutation_ages keys store).leads
  have ran := (confined (beginMutation keys store).2 (begun.nondecreasing steady)).leads
  exact (begun.trans ran).trans (weigh_leads keys _ _)

theorem undertake_accounted {store : ShardedStore} (accounted : Accounted store) (keys : List Bytes)
    {program : StoreM α} (keeps : ∀ store, Accounted store → Accounted (program store).2) :
    Accounted (undertake keys program store).2 :=
  weigh_accounted (keeps _ (beginMutation_accounted keys accounted)) keys _

end Undertakings

section Bounds

theorem restoreAll_append (first second : List MutationRollback) (store : ShardedStore) :
    (restoreAll (first ++ second) store).2 = (restoreAll first (restoreAll second store).2).2 := by
  induction first with
  | nil => rfl
  | cons undo first rest =>
      have early : (restoreAll (undo :: first ++ second) store).2 =
          undo.restore (restoreAll (first ++ second) store).2 := rfl
      rw [early, rest]
      rfl

theorem restoreAll_accounted (undos : List MutationRollback) {store : ShardedStore} (accounted : Accounted store) :
    Accounted (restoreAll undos store).2 := by
  induction undos with
  | nil => exact accounted
  | cons undo undos rest => exact restore_accounted undo rest

theorem restoreAll_leads (undos : List MutationRollback) (store : ShardedStore) :
    store.engine.clock.Leads (restoreAll undos store).2.engine.clock := by
  have holds : ∀ undo ∈ undos, Holds (fun _ _ => True) undo :=
    fun _ _ => ⟨fun _ _ _ => trivial, fun _ _ => trivial⟩
  exact (restoreAll_ensures holds).onward store

/-- A store that some requests led to: it is within the limit, and undoing them brings no other key to life than were
alive before. -/
structure Bounded (base : ShardedStore) (undos : List MutationRollback) (after : ShardedStore) : Prop where
  leads : base.engine.clock.Leads after.engine.clock
  within : Within after
  reversible : ∀ time, after.engine.clock.now ≤ time → ∀ later : ShardedStore, later.All (Was after time) →
    (restoreAll undos later).2.All (Was base time)

namespace Bounded

variable {base middle after : ShardedStore} {undos more : List MutationRollback}

theorem refl (within : Within base) : Bounded base [] base := ⟨Clock.Leads.refl _, within, fun _ _ _ all => all⟩

/-- Nothing to undo when nothing has come alive. -/
theorem settled (sound : Within base) (leads : base.engine.clock.Leads after.engine.clock)
    (accounted : Accounted after) (all : ∀ time, after.engine.clock.now ≤ time → after.All (Was base time)) :
    Bounded base [] after := by
  refine ⟨leads, ⟨leads.nondecreasing sound.steady, accounted, ?_⟩, ?_⟩
  · exact (Was.length_le (all _ le_rfl) (leads.now_le sound.steady)).trans sound.few
  · exact fun time upto later was => Was.all_trans (all time upto) was

theorem was (bounded : Bounded base [] after) {time : Nat} (upto : after.engine.clock.now ≤ time) :
    after.All (Was base time) := bounded.reversible time upto after (Was.self after time)

theorem append (first : Bounded base undos middle) (second : Bounded middle more after) :
    Bounded base (undos ++ more) after := by
  refine ⟨first.leads.trans second.leads, second.within, ?_⟩
  intro time upto later was
  rw [restoreAll_append]
  have order := second.leads.now_le first.within.steady
  exact first.reversible time (order.trans upto) _ (second.reversible time upto later was)

/-- What has been undone is settled. -/
theorem undone (sound : Within base) (first : Bounded base undos middle) (second : Bounded middle [] after) :
    Bounded base [] (restoreAll undos after).2 := by
  have leads := restoreAll_leads undos after
  apply settled sound ((first.leads.trans second.leads).trans leads)
    (restoreAll_accounted undos second.within.accounted)
  intro time upto
  have late := (leads.now_le second.within.steady).trans upto
  have order := second.leads.now_le first.within.steady
  exact first.reversible time (order.trans late) after (second.was late)

/-- Looking at a store changes nothing about it. -/
theorem ages (bounded : Bounded base undos middle) (ages : middle.engine.Ages after.engine)
    (accounted : Accounted after) : Bounded base undos after := by
  have looked : Bounded middle [] after :=
    settled bounded.within ages.leads accounted (fun time _ => (Was.self middle time).sheds ages.sheds)
  have both := bounded.append looked
  rwa [List.append_nil] at both

end Bounded

variable {α : Type}

/-- A mutation that was not admitted leaves nothing to undo. -/
theorem undertake_settled {store : ShardedStore} (sound : Within store) {keys : List Bytes} {program : StoreM α}
    (confined : Confined keys program) (keeps : ∀ store, Accounted store → Accounted (program store).2)
    (denied : ∀ attempt, (undertake keys program store).1.2.2 ≠ .admitted attempt) :
    Bounded store [] (undertake keys program store).2 := by
  apply Bounded.settled sound (undertake_leads confined sound.steady)
    (undertake_accounted sound.accounted keys keeps)
  intro time upto
  have weighed := (undertake_weighed sound confined keeps upto).1
  revert weighed denied
  generalize (undertake keys program store).1.2.2 = verdict
  intro denied weighed
  cases weighed with
  | unchanged all => exact all
  | refused all => exact all
  | admitted => exact absurd rfl (denied _)

/-- An admitted mutation can be undone with what it carries. -/
theorem undertake_admitted {store : ShardedStore} (sound : Within store) {keys : List Bytes} {program : StoreM α}
    (confined : Confined keys program) (keeps : ∀ store, Accounted store → Accounted (program store).2)
    {attempt : MutationAttempt} (verdict : (undertake keys program store).1.2.2 = .admitted attempt) :
    Bounded store [attempt.intoRollback] (undertake keys program store).2 := by
  have leads := undertake_leads confined sound.steady
  have weighed : ∀ time, (undertake keys program store).2.engine.clock.now ≤ time →
      Weighed store time keys (.admitted attempt) (undertake keys program store).2 := by
    intro time upto
    have weighed := (undertake_weighed sound confined keeps upto).1
    rwa [verdict] at weighed
  refine ⟨leads, ⟨leads.nondecreasing sound.steady, undertake_accounted sound.accounted keys keeps, ?_⟩, ?_⟩
  · cases weighed _ le_rfl with
    | admitted _ _ _ few => exact few
  · intro time upto later was
    cases weighed time upto with
    | admitted imaged holds others _ =>
        apply restore_was imaged holds
        intro key entry held outside live
        obtain ⟨between, present, alive⟩ :=
          (OnyxEngine.view_isSome_iff _ time key).mp (was key entry held live)
        exact others key between present outside alive

end Bounds

end OnyxDB.Coordinator
