import OnyxDB.Engine.EvictionOrder
import OnyxDB.Store.AdmissionSpec

/-! Admission is exact: an admitted mutation fits or uses no more memory than before it, its victims are those of the
eviction loop, and a refused one leaves nothing behind once it is rolled back. -/

namespace OnyxDB.Store
open OnyxDB.Library OnyxDB.Engine OnyxDB.Engine.Value
open OnyxDB.Engine.OnyxEngine (Evicting)

variable [Platform]

/-- The victims of an admission: none, or those the eviction loop takes under the limits of the store. -/
inductive Evicted (store after : ShardedStore) (protectedKeys : List Bytes) : List (Bytes × DataEntry) → Prop where
  | none (ages : store.engine.Ages after.engine) : Evicted store after protectedKeys []
  | loop {start last : OnyxEngine} {victims : List (Bytes × DataEntry)} (swept : store.engine.Ages start)
      (evicting : Evicting store.maxmemoryBytes store.maxmemoryPolicy protectedKeys start victims last)
      (measured : last.Ages after.engine) : Evicted store after protectedKeys victims

theorem usedMemoryBytes_again {store : ShardedStore} {time : Nat} (fixed : store.engine.clock.Fixed time) :
    store.usedMemoryBytes.2.usedMemoryBytes.1 = store.usedMemoryBytes.1 :=
  OnyxEngine.totalMemoryBytes_again fixed

theorem totalMemoryBytes_fixed {engine : OnyxEngine} {time : Nat} (fixed : engine.clock.Fixed time) :
    engine.totalMemoryBytes.2.clock.Fixed time :=
  engine.totalMemoryBytes_ages.leads.fixed fixed

/-- The store in which a beginning mutation measures its baseline. -/
theorem beginMutation_measured {store : ShardedStore} {time : Nat} (fixed : store.engine.clock.Fixed time)
    (limited : store.maxmemoryBytes ≠ 0) (keys : List Bytes) :
    ∃ middle : ShardedStore, middle.engine.clock.Fixed time ∧
      (store.beginMutation keys).1.memoryBefore = some middle.usedMemoryBytes.1 ∧
      (store.beginMutation keys).2 = middle.usedMemoryBytes.2 := by
  have peeked := peekAll_confines keys ∅ store
  unfold ShardedStore.beginMutation
  cases looking : ShardedStore.peekAll keys ∅ store with
  | mk images middle =>
      rw [looking] at peeked
      simp only at peeked
      have positive : decide (middle.maxmemoryBytes > 0) = true := by
        rw [peeked.maxmemoryBytes]
        exact decide_eq_true (Nat.pos_of_ne_zero limited)
      simp only
      cases keyLimitRequiresExactCount middle.engine.physicalKeyCount
          (images.entries.countP (fun image => image.2.isNone)) with
      | true =>
          have counted := peeked.trans (stats_confines middle [])
          have same : middle.stats.2.maxmemoryBytes = middle.maxmemoryBytes := rfl
          simp only [same, positive]
          exact ⟨middle.stats.2, counted.fixed fixed, rfl, rfl⟩
      | false =>
          simp only [positive]
          exact ⟨middle, peeked.fixed fixed, rfl, rfl⟩

/-- The baseline of an attempt is the memory used when the mutation begins. -/
theorem beginMutation_baseline {store : ShardedStore} {time : Nat} (fixed : store.engine.clock.Fixed time)
    (limited : store.maxmemoryBytes ≠ 0) (keys : List Bytes) :
    (store.beginMutation keys).1.memoryBefore = some (store.beginMutation keys).2.usedMemoryBytes.1 := by
  obtain ⟨middle, still, baseline, after⟩ := beginMutation_measured fixed limited keys
  rw [baseline, after, usedMemoryBytes_again still]

section Admitting

/-- What an admission that passes has measured and taken. -/
structure Passed (store after : ShardedStore) (attempt admitted : MutationAttempt) (protectedKeys : List Bytes) :
    Prop where
  memory : store.maxmemoryBytes ≠ 0 →
    after.usedMemoryBytes.1 ≤ store.maxmemoryBytes ∨ after.usedMemoryBytes.1 ≤ attempt.memoryBefore.getD 0
  victims : ∃ victims, admitted.evictedEntries = attempt.evictedEntries ++ victims ∧
    Evicted store after protectedKeys victims

theorem Passed.none {store after : ShardedStore} {attempt : MutationAttempt} {protectedKeys : List Bytes}
    (memory : store.maxmemoryBytes ≠ 0 →
      after.usedMemoryBytes.1 ≤ store.maxmemoryBytes ∨ after.usedMemoryBytes.1 ≤ attempt.memoryBefore.getD 0)
    (ages : store.engine.Ages after.engine) : Passed store after attempt attempt protectedKeys :=
  ⟨memory, [], (List.append_nil _).symm, .none ages⟩

theorem checkMaxmemory_passed {store : ShardedStore} {time : Nat} (fixed : store.engine.clock.Fixed time)
    {attempt admitted : MutationAttempt} {protectedKeys : List Bytes} {after : ShardedStore}
    (passed : store.checkMaxmemory attempt protectedKeys = (.ok admitted, after)) :
    Passed store after attempt admitted protectedKeys := by
  unfold ShardedStore.checkMaxmemory at passed
  by_cases unlimited : store.maxmemoryBytes = 0
  · rw [if_pos unlimited] at passed
    cases passed
    exact .none (fun limited => absurd unlimited limited) (OnyxEngine.Touches.refl _ _)
  · rw [if_neg unlimited] at passed
    have again := usedMemoryBytes_again fixed
    have swept : store.engine.Ages store.usedMemoryBytes.2.engine := store.engine.totalMemoryBytes_ages
    have still := totalMemoryBytes_fixed fixed
    simp only at passed
    split at passed
    next fits =>
      cases passed
      refine .none (fun _ => ?_) swept
      rw [again]
      exact fits
    next exceeds =>
      split at passed
      · cases passed
      next evicting =>
        obtain ⟨run, _⟩ := OnyxEngine.evictToFit_evicting store.maxmemoryBytes store.maxmemoryPolicy protectedKeys
          still evicting unlimited
        have taken := store.usedMemoryBytes.2.engine.evictToFit_evicts store.maxmemoryBytes store.maxmemoryPolicy
          protectedKeys
        let evicted := store.usedMemoryBytes.2.engine.evictToFit store.maxmemoryBytes store.maxmemoryPolicy
          protectedKeys
        let left : ShardedStore := { store.usedMemoryBytes.2 with engine := evicted.2 }
        have later : left.engine.clock.Fixed time := taken.touches.leads.fixed still
        change (if left.usedMemoryBytes.1 ≤ store.maxmemoryBytes then
          (.ok { attempt with evictedEntries := attempt.evictedEntries ++ evicted.1 }, left.usedMemoryBytes.2)
          else (.error .maxmemory, left.usedMemoryBytes.2.applyEntries evicted.1) :
            Except AdmissionError MutationAttempt × ShardedStore) = _ at passed
        split at passed
        next fits =>
          cases passed
          refine ⟨fun _ => Or.inl ?_, evicted.1, rfl, .loop swept run left.engine.totalMemoryBytes_ages⟩
          rw [usedMemoryBytes_again later]
          exact fits
        · cases passed

theorem admitMutation_passed {store : ShardedStore} {time : Nat} (fixed : store.engine.clock.Fixed time)
    {attempt admitted : MutationAttempt} {protectedKeys : List Bytes} {after : ShardedStore}
    (passed : store.admitMutation attempt protectedKeys = (.ok admitted, after)) :
    Passed store after attempt admitted protectedKeys := by
  unfold ShardedStore.admitMutation ShardedStore.checkKeyLimit at passed
  cases count : attempt.keyCountBefore with
  | none =>
      rw [count] at passed
      exact checkMaxmemory_passed fixed passed
  | some keyCountBefore =>
      rw [count] at passed
      simp only at passed
      split at passed
      next refused => cases passed
      next allowed =>
        split at allowed
        · cases allowed
        · cases allowed
          have counted := store.engine.stats_ages
          obtain ⟨memory, victims, listed, evicted⟩ := checkMaxmemory_passed (counted.leads.fixed fixed) passed
          refine ⟨memory, victims, listed, ?_⟩
          cases evicted with
          | none ages => exact .none (counted.trans ages)
          | loop swept evicting measured => exact .loop (counted.trans swept) evicting measured

/-- A refusal leaves an attempt that, rolled back, gives the content before the mutation. -/
theorem admitMutation_refused {store changed after : ShardedStore} {keys protectedKeys : List Bytes} {time : Nat}
    (fixed : store.engine.clock.Fixed time) (mutated : (store.beginMutation keys).2.Confines changed keys)
    {error : AdmissionError}
    (refused : changed.admitMutation (store.beginMutation keys).1 protectedKeys = (.error error, after)) :
    (after.rollback (store.beginMutation keys).1).view time = store.view time := by
  have begun := (beginMutation_confines store keys).mono (List.nil_subset keys)
  have course := begun.trans mutated
  have admission := admitMutation_admission changed (store.beginMutation keys).1 protectedKeys
  rw [refused] at admission
  cases admission with
  | refused confines =>
      have ended := course.trans (confines.mono (List.nil_subset keys))
      exact rollback_view (ended.fixed fixed) (beginMutation_pictures store fixed keys)
        (beginMutation_images store keys).2 (fun key => ended.view fixed)

end Admitting

/-- At a fixed clock, a mutation of some keys that is admitted under a memory limit uses no more than the limit or no
more than when it began; its victims are those of the eviction loop, which ends, takes at each pass an entry it may
take, the least recently accessed one where the policy asks for it, and only stops when the memory fits or no such entry
is left; and a mutation that is refused leaves, once rolled back, the content before it. -/
theorem admission_exact (store changed : ShardedStore) (keys protectedKeys : List Bytes) {time : Nat}
    (fixed : store.engine.clock.Fixed time) (mutated : (store.beginMutation keys).2.Confines changed keys) :
    (∀ admitted after, changed.admitMutation (store.beginMutation keys).1 protectedKeys = (.ok admitted, after) →
      (changed.maxmemoryBytes ≠ 0 → after.usedMemoryBytes.1 ≤ changed.maxmemoryBytes ∨
        after.usedMemoryBytes.1 ≤ (store.beginMutation keys).2.usedMemoryBytes.1) ∧
      Evicted changed after protectedKeys admitted.evictedEntries) ∧
    (∀ error after, changed.admitMutation (store.beginMutation keys).1 protectedKeys = (.error error, after) →
      (after.rollback (store.beginMutation keys).1).view time = store.view time) ∧
    ∀ (engine : OnyxEngine) (maxmemoryBytes : Nat) (policy : EvictionPolicy), engine.clock.Fixed time →
      policy ≠ .noEviction → maxmemoryBytes ≠ 0 →
        Evicting maxmemoryBytes policy protectedKeys engine (engine.evictToFit maxmemoryBytes policy protectedKeys).1
            (engine.evictToFit maxmemoryBytes policy protectedKeys).2 ∧
          ∀ fuel, engine.physicalEntries < fuel →
            OnyxEngine.evictLoop maxmemoryBytes policy protectedKeys fuel engine [] =
              engine.evictToFit maxmemoryBytes policy protectedKeys := by
  have begun := (beginMutation_confines store keys).mono (List.nil_subset keys)
  have course := begun.trans mutated
  refine ⟨?_, fun _ _ refused => admitMutation_refused fixed mutated refused, ?_⟩
  · intro admitted after passed
    obtain ⟨memory, victims, listed, evicted⟩ := admitMutation_passed (course.fixed fixed) passed
    rw [(beginMutation_images store keys).2, List.nil_append] at listed
    rw [listed]
    refine ⟨fun limited => ?_, evicted⟩
    have original : store.maxmemoryBytes ≠ 0 := by
      rw [← course.maxmemoryBytes]
      exact limited
    have bounded := memory limited
    rw [beginMutation_baseline fixed original keys, Option.getD_some] at bounded
    exact bounded
  · intro engine maxmemoryBytes policy still evicts limited
    exact OnyxEngine.evictToFit_evicting maxmemoryBytes policy protectedKeys still evicts limited

end OnyxDB.Store

namespace OnyxDB.Store
open OnyxDB.Engine

/-- An empty store at a fixed clock, under a memory limit of `limit` bytes. -/
def limitedStore (limit : Nat) : ShardedStore := ⟨.new (.constant 5), limit, .allKeysLru⟩

/-- A store of which one key takes most of the memory. -/
def crowdedStore [Platform] : ShardedStore :=
  (ShardedStore.perform (.set [118] (.blob [1, 2, 3]) none) (limitedStore 100)).2

/-- A second key set there: it is admitted, and the first one is evicted. -/
theorem admission_exact_evicts :
    letI := Reference.platform (fun _ => .error "unsupported")
    let begun := crowdedStore.beginMutation [[107]]
    let changed := (ShardedStore.perform (.set [107] (.blob [1, 2, 3]) none) begun.2).2
    ∃ admitted after, changed.admitMutation begun.1 [[107]] = (.ok admitted, after) ∧
      admitted.evictedEntries.map Prod.fst = [[118]] ∧
      (after.usedMemoryBytes.1 ≤ 100 ∨ after.usedMemoryBytes.1 ≤ begun.2.usedMemoryBytes.1) ∧
      Evicted changed after [[107]] admitted.evictedEntries := by
  let platform := Reference.platform (fun _ => .error "unsupported")
  have fixed : crowdedStore.engine.clock.Fixed 5 := fun _ => rfl
  have begun := @beginMutation_confines platform crowdedStore [[107]]
  have confined : Confined [[107]] (ShardedStore.perform (.set [107] (.blob [1, 2, 3]) none)) :=
    Confined.perform (List.Subset.refl _)
  have mutated := confined _ (begun.fixed fixed).nondecreasing
  have victims : ((ShardedStore.perform (.set [107] (.blob [1, 2, 3]) none)
      (crowdedStore.beginMutation [[107]]).2).2.admitMutation (crowdedStore.beginMutation [[107]]).1
        [[107]]).1.toOption.map (fun admitted => admitted.evictedEntries.map Prod.fst) = some [[118]] := by
    decide +kernel
  have limit : (ShardedStore.perform (.set [107] (.blob [1, 2, 3]) none)
      (crowdedStore.beginMutation [[107]]).2).2.maxmemoryBytes = 100 := by decide +kernel
  obtain ⟨admits, _, _⟩ := @admission_exact platform crowdedStore _ [[107]] [[107]] 5 fixed mutated
  cases admission : (ShardedStore.perform (.set [107] (.blob [1, 2, 3]) none)
      (crowdedStore.beginMutation [[107]]).2).2.admitMutation (crowdedStore.beginMutation [[107]]).1 [[107]] with
  | mk verdict after =>
      rw [admission] at victims
      cases verdict with
      | error error => cases victims
      | ok admitted =>
          obtain ⟨memory, evicted⟩ := admits admitted after admission
          rw [limit] at memory
          exact ⟨admitted, after, admission, Option.some.inj victims, memory (by decide), evicted⟩

end OnyxDB.Store
