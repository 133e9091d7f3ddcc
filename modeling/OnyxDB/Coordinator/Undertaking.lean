import OnyxDB.Command.Confinement
import OnyxDB.Coordinator.Prepare
import OnyxDB.Store.AdmissionSpec

/-! The course every mutation takes up to its admission, at a clock that stands still: the images of the keys
are taken, the program runs, and what it did is derived, admitted or rolled back. -/

namespace OnyxDB.Coordinator
open OnyxDB.Library OnyxDB.Engine OnyxDB.Engine.Value OnyxDB.Store OnyxDB.Protocol OnyxDB.Command
  OnyxDB.Persistence.Model OnyxDB.Persistence.Commit

/-- What an image held when it was taken; a key without one held nothing. -/
def imageShown (images : Images) (key : Bytes) : Option PersistentEntry :=
  ((images.lookup key).getD none).map PersistentEntry.ofDataEntry

/-- The effects on `keys` between two contents. -/
def effectsBetween (keys : List Bytes) (before after : Bytes → Option PersistentEntry)
    (evicted : List Bytes) : List CommittedEffect :=
  keys.flatMap (fun key => keyEffect key (before key) (after key) (decide (key ∈ evicted)))

theorem keyEffect_nil (key : Bytes) (previous current : Option PersistentEntry) :
    keyEffect key previous current false = [] ↔ imageBeq previous current = true := by
  unfold keyEffect
  cases imageBeq previous current <;> cases current <;> simp

theorem effectsBetween_nil (keys : List Bytes) (before after : Bytes → Option PersistentEntry) :
    effectsBetween keys before after [] = [] ↔ ∀ key ∈ keys, imageBeq (before key) (after key) = true := by
  simp only [effectsBetween, List.flatMap_eq_nil_iff, List.not_mem_nil, decide_false, keyEffect_nil]

theorem evictionEffects_nil {evicted : List Bytes} (none : evictionEffects evicted = []) : evicted = [] := by
  cases evicted with
  | nil => rfl
  | cons key evicted => simp [evictionEffects, List.eraseDups_cons] at none

theorem pictures_shown {store : ShardedStore} {time : Nat} {keys : List Bytes} {images : Images}
    (pictures : Pictures store time keys images) {key : Bytes} (member : key ∈ keys) :
    imageShown images key = store.view time key := by
  have shown := pictures.shown key member
  unfold imageShown
  cases found : images.lookup key with
  | none =>
      rw [found] at shown
      cases shown
  | some slot =>
      rw [found] at shown
      exact Option.some.inj shown

variable [Platform]

section Derivation

theorem keyEffects_confines (before : Images) (evicted keys : List Bytes) (store : ShardedStore) :
    store.Confines (keyEffects before evicted keys store).2 [] := by
  induction keys generalizing store with
  | nil => exact .refl store []
  | cons key keys rest => exact (peekEntry_confines store key []).trans (rest _)

/-- The effects derived at a clock that stands still. -/
theorem keyEffects_between (before : Images) (evicted keys : List Bytes) (store : ShardedStore) {time : Nat}
    (fixed : store.engine.clock.Fixed time) :
    (keyEffects before evicted keys store).1 =
      effectsBetween keys (imageShown before) (store.view time) evicted := by
  induction keys generalizing store with
  | nil => rfl
  | cons key keys rest =>
      have looked := peekEntry_confines store key []
      have same : (store.peekEntry key).2.view time = store.view time :=
        funext fun other => looked.view fixed List.not_mem_nil
      have further := rest (store.peekEntry key).2 (looked.fixed fixed)
      rw [same] at further
      unfold effectsBetween at further ⊢
      rw [List.flatMap_cons, ← further, ← peekEntry_view store fixed key]
      rfl

theorem derive_confines (store : ShardedStore) (keys : List Bytes) (before : Images)
    (evicted : List (Bytes × DataEntry)) : store.Confines (derive keys before evicted store).2 [] :=
  keyEffects_confines before (evicted.map Prod.fst) keys store

/-- The effects of a mutation: one deletion for each victim, then what became of the keys. -/
def derivedEffects (keys : List Bytes) (before : Images) (victims : List (Bytes × DataEntry))
    (after : Bytes → Option PersistentEntry) : List CommittedEffect :=
  evictionEffects (victims.map Prod.fst) ++
    effectsBetween keys (imageShown before) after (victims.map Prod.fst)

theorem derive_effects (store : ShardedStore) (keys : List Bytes) (before : Images)
    (victims : List (Bytes × DataEntry)) {time : Nat} (fixed : store.engine.clock.Fixed time) :
    (derive keys before victims store).1 =
      if derivedEffects keys before victims (store.view time) = [] then none
      else some ⟨derivedEffects keys before victims (store.view time)⟩ := by
  have effects := keyEffects_between before (victims.map Prod.fst) keys store fixed
  rw [derivedEffects, ← effects]
  unfold derive deriveCommittedBatch
  simp only [List.isEmpty_iff]

/-- Without victims a batch is derived exactly when a key has changed. -/
theorem derive_none_iff {origin store : ShardedStore} {keys : List Bytes} {before : Images} {time : Nat}
    (pictures : Pictures origin time keys before) (fixed : store.engine.clock.Fixed time) :
    (derive keys before [] store).1 = none ↔
      ∀ key ∈ keys, imageBeq (origin.view time key) (store.view time key) = true := by
  rw [derive_effects store keys before [] fixed]
  have effects : derivedEffects keys before [] (store.view time) =
      effectsBetween keys (imageShown before) (store.view time) [] := rfl
  rw [effects, ite_eq_left_iff, effectsBetween_nil]
  constructor
  · intro nothing key member
    by_contra differ
    have listed : ¬ ∀ key ∈ keys, imageBeq (imageShown before key) (store.view time key) = true := by
      intro same
      have here := same key member
      rw [pictures_shown pictures member] at here
      exact differ here
    cases nothing listed
  · intro same changed
    refine absurd ?_ changed
    intro key member
    rw [pictures_shown pictures member]
    exact same key member

end Derivation

/-- How a mutation stands after its admission. -/
inductive Verdict where
  | unchanged
  | refused (error : AdmissionError)
  | admitted (attempt : MutationAttempt)

/-- What is decided about a mutation that has been executed. -/
def weigh (keys : List Bytes) (attempt : MutationAttempt) : StoreM Verdict := do
  match ← derive keys attempt.beforeEntries [] with
  | none => return .unchanged
  | some _ =>
      match ← admitAttempt attempt keys with
      | .error error =>
          rollback attempt
          return .refused error
      | .ok admitted => return .admitted admitted

/-- A mutation up to its admission. -/
def undertake {α : Type} (keys : List Bytes) (program : StoreM α) : StoreM (MutationAttempt × α × Verdict) := do
  let attempt ← beginMutation keys
  let answer ← program
  return (attempt, answer, ← weigh keys attempt)

theorem weigh_unchanged {keys : List Bytes} {attempt : MutationAttempt} {store after : ShardedStore}
    (derivation : derive keys attempt.beforeEntries [] store = (none, after)) :
    weigh keys attempt store = (.unchanged, after) := by
  simp only [weigh, bind, StateT.bind, derivation]
  rfl

theorem weigh_changed {keys : List Bytes} {attempt : MutationAttempt} {store after : ShardedStore}
    {batch : CommittedBatch} (derivation : derive keys attempt.beforeEntries [] store = (some batch, after)) :
    weigh keys attempt store =
      match after.admitMutation attempt keys with
      | (.error error, after) => (.refused error, after.rollback attempt)
      | (.ok admitted, after) => (.admitted admitted, after) := by
  simp only [weigh, bind, StateT.bind, derivation, admitAttempt]
  cases after.admitMutation attempt keys with
  | mk verdict after => cases verdict <;> rfl

section Course
variable {α : Type}

/-- The three ways a mutation goes. -/
inductive Undertaking (time : Nat) (keys : List Bytes) (store : ShardedStore) (attempt : MutationAttempt) :
    Verdict → ShardedStore → Prop where
  | unchanged {after : ShardedStore} (confines : store.Confines after keys)
      (same : ∀ key ∈ keys, imageBeq (store.view time key) (after.view time key) = true) :
      Undertaking time keys store attempt .unchanged after
  | refused {error : AdmissionError} {after : ShardedStore}
      (leads : store.engine.clock.Leads after.engine.clock) (same : after.view time = store.view time) :
      Undertaking time keys store attempt (.refused error) after
  | admitted {admitted : MutationAttempt} {middle after : ShardedStore} {victims : List (Bytes × DataEntry)}
      (confines : store.Confines middle keys)
      (changed : ∃ key ∈ keys, imageBeq (store.view time key) (middle.view time key) = false)
      (admits : Admits middle after attempt admitted keys victims) :
      Undertaking time keys store attempt (.admitted admitted) after

omit [Platform] in
theorem Undertaking.leads {time : Nat} {keys : List Bytes} {store after : ShardedStore}
    {attempt : MutationAttempt} {verdict : Verdict}
    (undertaking : Undertaking time keys store attempt verdict after) :
    store.engine.clock.Leads after.engine.clock := by
  cases undertaking with
  | unchanged confines _ => exact confines.leads
  | refused leads _ => exact leads
  | admitted confines _ admits => exact confines.leads.trans admits.evicts.touches.leads

/-- What is decided about a mutation whose keys were pictured before it. -/
theorem weigh_course {keys : List Bytes} {attempt : MutationAttempt} {store executed : ShardedStore} {time : Nat}
    (fixed : store.engine.clock.Fixed time) (pictures : Pictures store time keys attempt.beforeEntries)
    (clean : attempt.evictedEntries = []) (ran : store.Confines executed keys) :
    let (verdict, after) := weigh keys attempt executed
    Undertaking time keys store attempt verdict after := by
  have looked := derive_confines executed keys attempt.beforeEntries []
  have derived := derive_none_iff pictures (ran.fixed fixed)
  cases derivation : derive keys attempt.beforeEntries [] executed with
  | mk batch middle =>
      rw [derivation] at looked derived
      have course := ran.trans (looked.mono (List.nil_subset keys))
      have same : middle.view time = executed.view time :=
        funext fun key => looked.view (ran.fixed fixed) List.not_mem_nil
      rw [← same] at derived
      cases batch with
      | none =>
          rw [weigh_unchanged derivation]
          exact .unchanged course (derived.mp rfl)
      | some batch =>
          rw [weigh_changed derivation]
          have changed : ∃ key ∈ keys, imageBeq (store.view time key) (middle.view time key) = false := by
            by_contra unchanged
            have all : ∀ key ∈ keys, imageBeq (store.view time key) (middle.view time key) = true := by
              intro key member
              apply Bool.eq_true_of_not_eq_false
              exact fun differ => unchanged ⟨key, member, differ⟩
            cases derived.mpr all
          have admission := admitMutation_admission middle attempt keys
          revert admission
          cases middle.admitMutation attempt keys with
          | mk verdict after =>
              intro admission
              cases admission with
              | admitted admits => exact .admitted course changed admits
              | refused confines =>
                  have ended := course.trans (confines.mono (List.nil_subset keys))
                  have written := restoreEntries_writes after attempt.beforeEntries attempt.evictedEntries
                  refine .refused (ended.leads.trans written.leads) ?_
                  exact rollback_view (ended.fixed fixed) pictures clean (fun key => ended.view fixed)

/-- A mutation changes its own keys, or is rolled back, or evicts what it says on top of what it changed. -/
theorem undertake_course {keys : List Bytes} {program : StoreM α} (confined : Confined keys program)
    (store : ShardedStore) {time : Nat} (fixed : store.engine.clock.Fixed time) :
    let ((attempt, _, verdict), after) := undertake keys program store
    Pictures store time keys attempt.beforeEntries ∧ attempt.evictedEntries = [] ∧
      Undertaking time keys store attempt verdict after := by
  have pictures := beginMutation_pictures store fixed keys
  have begun := beginMutation_confines store keys
  have clean := (beginMutation_images store keys).2
  have ran := (begun.mono (List.nil_subset keys)).trans (confined _ (begun.fixed fixed).nondecreasing)
  exact ⟨pictures, clean, weigh_course fixed pictures clean ran⟩

end Course

end OnyxDB.Coordinator
