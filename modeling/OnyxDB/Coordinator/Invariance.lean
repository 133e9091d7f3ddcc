import OnyxDB.Command.ValueShape
import OnyxDB.Coordinator.Preparation
import OnyxDB.Coordinator.Process

/-! Properties of stored entries through the coordinator: what is put back was stored before, so a property that every
command keeps survives admissions, rollbacks and refused groups as well. -/

namespace OnyxDB.Coordinator
open OnyxDB.Library OnyxDB.Engine OnyxDB.Engine.Value OnyxDB.Store OnyxDB.Protocol OnyxDB.Command
  OnyxDB.Persistence.Model OnyxDB.Persistence.Commit

/-- What a rollback would put back has a property. -/
structure Holds (property : Bytes → DataEntry → Prop) (undo : MutationRollback) : Prop where
  images : ∀ key entry, undo.beforeEntries.lookup key = some (some entry) → property key entry
  evicted : ∀ entry ∈ undo.evictedEntries, property entry.1 entry.2

/-- What a batch puts are entries with a property that were alive when they were read. -/
def Logs (property : Bytes → DataEntry → Prop) (batch : CommittedBatch) : Prop :=
  ∀ key entry, CommittedEffect.put key entry ∈ batch.effects →
    ∃ held reading, property key held ∧ held.expired reading = false ∧ entry = PersistentEntry.ofDataEntry held

variable [Platform] {property : Bytes → DataEntry → Prop} {store : ShardedStore}

section Installing

omit [Platform] in
theorem holds_at {key : Bytes} {entry new : DataEntry} {slot : Option DataEntry} {engine after : OnyxEngine}
    (sets : engine.Sets after key slot) (installs : ∀ made, slot = some made → made = entry) {other : Bytes}
    (held : after.lookup other = some new) :
    (other = key ∧ new = entry) ∨ (other ≠ key ∧ engine.lookup other = some new) := by
  by_cases same : other = key
  · subst same
    exact Or.inl ⟨rfl, installs new (sets.slot.symm.trans held)⟩
  · exact Or.inr ⟨same, (sets.other same).symm.trans held⟩

theorem applyEntry_slot (store : ShardedStore) (key : Bytes) (entry : DataEntry) {other : Bytes} {new : DataEntry}
    (held : (store.applyEntry key entry).2.engine.lookup other = some new) :
    (other = key ∧ new = entry) ∨ (other ≠ key ∧ store.engine.lookup other = some new) := by
  obtain ⟨_, _, sets⟩ := store.engine.applyEntry_sets key entry
  exact holds_at sets (fun made same => (Option.some.inj (OnyxEngine.fresh_held same)).symm) held

theorem deleteBytes_slot (store : ShardedStore) (key : Bytes) {other : Bytes} {new : DataEntry}
    (held : (store.deleteBytes key).2.engine.lookup other = some new) :
    other ≠ key ∧ store.engine.lookup other = some new := by
  have sets := store.engine.delete_sets key
  by_cases same : other = key
  · subst same
    exact absurd (sets.slot.symm.trans held) nofun
  · exact ⟨same, (sets.other same).symm.trans held⟩

/-- What is under a key after entries were put back: one of them, or what was there if there is none for it. -/
theorem applyEntries_slot (entries : List (Bytes × DataEntry)) (store : ShardedStore) {key : Bytes} {new : DataEntry}
    (held : (store.applyEntries entries).engine.lookup key = some new) :
    (key, new) ∈ entries ∨ (key ∉ entries.map Prod.fst ∧ store.engine.lookup key = some new) := by
  induction entries generalizing store with
  | nil => exact Or.inr ⟨List.not_mem_nil, held⟩
  | cons entry entries rest =>
      rcases rest _ held with later | ⟨absent, before⟩
      · exact Or.inl (List.mem_cons_of_mem entry later)
      · rcases applyEntry_slot store entry.1 entry.2 before with ⟨rfl, rfl⟩ | ⟨differ, earlier⟩
        · exact Or.inl List.mem_cons_self
        · refine Or.inr ⟨?_, earlier⟩
          rw [List.map_cons, List.mem_cons, not_or]
          exact ⟨differ, absent⟩

theorem restoreImages_slot (images : List (Sigma fun _ : Bytes => Option DataEntry)) (store : ShardedStore)
    {key : Bytes} {new : DataEntry} (held : (store.restoreImages images).engine.lookup key = some new) :
    ⟨key, some new⟩ ∈ images ∨ (key ∉ images.map Sigma.fst ∧ store.engine.lookup key = some new) := by
  induction images generalizing store with
  | nil => exact Or.inr ⟨List.not_mem_nil, held⟩
  | cons image images rest =>
      obtain ⟨target, slot⟩ := image
      have listed (absent : key ∉ images.map Sigma.fst) (differ : key ≠ target) :
          key ∉ ((⟨target, slot⟩ : Sigma fun _ : Bytes => Option DataEntry) :: images).map Sigma.fst := by
        rw [List.map_cons, List.mem_cons, not_or]
        exact ⟨differ, absent⟩
      cases slot with
      | none =>
          rcases rest (store.deleteBytes target).2 held with later | ⟨absent, before⟩
          · exact Or.inl (List.mem_cons_of_mem _ later)
          · obtain ⟨differ, earlier⟩ := deleteBytes_slot store target before
            exact Or.inr ⟨listed absent differ, earlier⟩
      | some entry =>
          rcases rest (store.applyEntry target entry).2 held with later | ⟨absent, before⟩
          · exact Or.inl (List.mem_cons_of_mem _ later)
          · rcases applyEntry_slot store target entry before with ⟨rfl, rfl⟩ | ⟨differ, earlier⟩
            · exact Or.inl List.mem_cons_self
            · exact Or.inr ⟨listed absent differ, earlier⟩

/-- What is under a key after a rollback: its image, the entry an eviction took, or what was there if the rollback
does not know it. -/
theorem restore_slot (undo : MutationRollback) (store : ShardedStore) {key : Bytes} {new : DataEntry}
    (held : (undo.restore store).engine.lookup key = some new) :
    undo.beforeEntries.lookup key = some (some new) ∨ (key, new) ∈ undo.evictedEntries ∨
      (undo.beforeEntries.lookup key = none ∧ key ∉ undo.evictedEntries.map Prod.fst ∧
        store.engine.lookup key = some new) := by
  rcases applyEntries_slot _ _ held with evicted | ⟨unevicted, before⟩
  · exact Or.inr (Or.inl (List.mem_of_mem_filter evicted))
  · rcases restoreImages_slot _ _ before with imaged | ⟨absent, earlier⟩
    · exact Or.inl (AList.mem_lookup_iff.mpr imaged)
    · have unimaged : key ∉ undo.beforeEntries.keys := absent
      refine Or.inr (Or.inr ⟨AList.lookup_eq_none.mpr unimaged, ?_, earlier⟩)
      intro member
      obtain ⟨entry, listed, rfl⟩ := List.mem_map.mp member
      apply unevicted
      exact List.mem_map_of_mem (List.mem_filter.mpr ⟨listed, decide_eq_true unimaged⟩)

theorem applyEntries_all (all : store.All property) {entries : List (Bytes × DataEntry)}
    (holds : ∀ entry ∈ entries, property entry.1 entry.2) : (store.applyEntries entries).All property := by
  intro key entry held
  rcases applyEntries_slot entries store held with put | ⟨_, before⟩
  · exact holds (key, entry) put
  · exact all key entry before

theorem restore_ensures {undo : MutationRollback} (holds : Holds property undo) : Preserves property (restore undo) := by
  intro store all
  refine ⟨(restoreEntries_writes store undo.beforeEntries undo.evictedEntries).leads, ?_, trivial⟩
  intro key entry held
  rcases restore_slot undo store held with imaged | evicted | ⟨_, _, before⟩
  · exact holds.images key entry imaged
  · exact holds.evicted (key, entry) evicted
  · exact all key entry before

theorem rollback_ensures {attempt : MutationAttempt} (holds : Holds property attempt.intoRollback) :
    Preserves property (rollback attempt) := restore_ensures holds

end Installing

section Looking

theorem peekAll_all (keys : List Bytes) (images : Images) (all : store.All property)
    (holds : ∀ key entry, images.lookup key = some (some entry) → property key entry) :
    (ShardedStore.peekAll keys images store).2.All property ∧
      ∀ key entry, (ShardedStore.peekAll keys images store).1.lookup key = some (some entry) →
        property key entry := by
  induction keys generalizing images store with
  | nil => exact ⟨all, holds⟩
  | cons key keys rest =>
      have kept : (store.peekEntry key).2.All property := all.sheds (store.engine.peek_ages key).sheds
      apply rest _ kept
      intro other entry shown
      by_cases here : other = key
      · rw [here, AList.lookup_insert, Option.some.injEq] at shown
        rw [here]
        exact all key entry (OnyxEngine.fresh_held ((store.engine.peek_fst key).symm.trans shown))
      · rw [AList.lookup_insert_ne here] at shown
        exact holds other entry shown

theorem peekAll_ages (keys : List Bytes) (images : Images) (store : ShardedStore) :
    store.engine.Ages (ShardedStore.peekAll keys images store).2.engine := by
  induction keys generalizing images store with
  | nil => exact OnyxEngine.Touches.refl _ _
  | cons key keys rest =>
      have looked : store.engine.Ages (store.peekEntry key).2.engine := store.engine.peek_ages key
      exact looked.trans (rest _ _)

/-- When the keys have been peeked, the store is only measured. -/
theorem beginMutation_measures (keys : List Bytes) (store : ShardedStore) :
    (ShardedStore.peekAll keys ∅ store).2.engine.Ages (beginMutation keys store).2.engine := by
  unfold beginMutation ShardedStore.beginMutation
  cases looking : ShardedStore.peekAll keys ∅ store with
  | mk images middle =>
      simp only
      have counted := middle.engine.stats_ages
      cases keyLimitRequiresExactCount middle.engine.physicalKeyCount
          (images.entries.countP (fun image => image.2.isNone)) with
      | true =>
          simp only
          split
          · exact counted.trans (OnyxEngine.totalMemoryBytes_ages _)
          · exact counted
      | false =>
          simp only
          split
          · exact OnyxEngine.totalMemoryBytes_ages _
          · exact OnyxEngine.Touches.refl _ _

/-- Beginning a mutation writes no slot. -/
theorem beginMutation_ages (keys : List Bytes) (store : ShardedStore) :
    store.engine.Ages (beginMutation keys store).2.engine :=
  (peekAll_ages keys ∅ store).trans (beginMutation_measures keys store)

theorem beginMutation_ensures (keys : List Bytes) :
    Ensures property (beginMutation keys) (fun attempt => Holds property attempt.intoRollback) := by
  intro store all
  have none : ∀ key entry, (∅ : Images).lookup key = some (some entry) → property key entry := by
    intro key entry shown
    rw [AList.lookup_empty] at shown
    cases shown
  have looked := beginMutation_ages keys store
  exact ⟨looked.leads, all.sheds looked.sheds, (peekAll_all keys ∅ all none).2, nofun⟩

theorem keyEffects_ages (before : Images) (evicted keys : List Bytes) (store : ShardedStore) :
    store.engine.Ages (keyEffects before evicted keys store).2.engine := by
  induction keys generalizing store with
  | nil => exact OnyxEngine.Touches.refl _ _
  | cons key keys rest =>
      have looked : store.engine.Ages (store.peekEntry key).2.engine := store.engine.peek_ages key
      exact looked.trans (rest _)

theorem derive_ages (keys : List Bytes) (before : Images) (victims : List (Bytes × DataEntry))
    (store : ShardedStore) : store.engine.Ages (derive keys before victims store).2.engine :=
  keyEffects_ages before (victims.map Prod.fst) keys store

omit [Platform] in
/-- The effect on a key puts what the key holds. -/
theorem mem_keyEffect {key other : Bytes} {previous current : Option PersistentEntry} {evicted : Bool}
    {entry : PersistentEntry} (member : .put other entry ∈ keyEffect key previous current evicted) :
    other = key ∧ current = some entry := by
  unfold keyEffect at member
  split at member
  · exact absurd member List.not_mem_nil
  · cases current with
    | some held =>
        cases List.mem_singleton.mp member
        exact ⟨rfl, rfl⟩
    | none =>
        simp only at member
        split at member
        · exact absurd member List.not_mem_nil
        · cases List.mem_singleton.mp member

theorem keyEffects_logs (before : Images) (evicted keys : List Bytes) {store : ShardedStore}
    (all : store.All property) : Logs property ⟨(keyEffects before evicted keys store).1⟩ := by
  induction keys generalizing store with
  | nil => exact fun _ _ member => absurd member List.not_mem_nil
  | cons key keys rest =>
      have kept : (store.peekEntry key).2.All property := all.sheds (store.engine.peek_ages key).sheds
      intro other entry member
      rcases List.mem_append.mp member with here | later
      · obtain ⟨rfl, shown⟩ := mem_keyEffect here
        obtain ⟨held, found, rfl⟩ := Option.map_eq_some_iff.mp shown
        have live := (store.engine.peek_fst other).symm.trans found
        exact ⟨held, _, all other held (OnyxEngine.fresh_held live), (Expiring.live_eq_some live).2, rfl⟩
      · exact rest kept other entry later

/-- A derived batch puts what the store holds. -/
theorem derive_ensures (keys : List Bytes) (before : Images) (victims : List (Bytes × DataEntry)) :
    Ensures property (derive keys before victims) (fun derived => ∀ batch ∈ derived, Logs property batch) := by
  intro store all
  have looked := derive_ages keys before victims store
  refine ⟨looked.leads, all.sheds looked.sheds, ?_⟩
  intro batch made key entry member
  have effects : batch.effects = evictionEffects (victims.map Prod.fst) ++
      (keyEffects before (victims.map Prod.fst) keys store).1 := by
    simp only [derive, deriveCommittedBatch] at made
    split at made
    · cases made
    · rw [← Option.some.inj made]
  rw [effects] at member
  rcases List.mem_append.mp member with evicted | later
  · obtain ⟨victim, _, deletion⟩ := List.mem_map.mp evicted
    cases deletion
  · exact keyEffects_logs before _ keys all key entry later

end Looking

section Admission

omit [Platform] in
/-- An eviction only takes values away. -/
theorem evicts_sheds {engine after : OnyxEngine} {protectedKeys : List Bytes} {victims : List (Bytes × DataEntry)}
    (evicts : engine.Evicts after protectedKeys victims) : engine.Sheds after := by
  intro key new held
  have spared : key ∉ victims.map Prod.fst := by
    intro member
    obtain ⟨victim, listed, rfl⟩ := List.mem_map.mp member
    rw [evicts.removed victim listed] at held
    cases held
  exact (evicts.touches.aged key spared).held held

/-- What an admission leaves and what it would put back. -/
def Admitted (property : Bytes → DataEntry → Prop) :
    Except AdmissionError MutationAttempt → Prop
  | .ok attempt => Holds property attempt.intoRollback
  | .error _ => True

theorem checkMaxmemory_all (all : store.All property) {attempt : MutationAttempt}
    (holds : Holds property attempt.intoRollback) (protectedKeys : List Bytes) :
    (store.checkMaxmemory attempt protectedKeys).2.All property ∧
      Admitted property (store.checkMaxmemory attempt protectedKeys).1 := by
  have measured : store.usedMemoryBytes.2.All property := all.sheds store.engine.totalMemoryBytes_ages.sheds
  unfold ShardedStore.checkMaxmemory
  split
  · exact ⟨all, holds⟩
  · simp only
    split
    · exact ⟨measured, holds⟩
    · split
      · exact ⟨measured, trivial⟩
      · have evicts := store.usedMemoryBytes.2.engine.evictToFit_evicts store.maxmemoryBytes
          store.maxmemoryPolicy protectedKeys
        have victims : ∀ victim ∈ (store.usedMemoryBytes.2.engine.evictToFit store.maxmemoryBytes
            store.maxmemoryPolicy protectedKeys).1, property victim.1 victim.2 :=
          fun victim listed => measured victim.1 victim.2 (evicts.held victim listed)
        have remeasured : (store.usedMemoryBytes.2.run (fun engine =>
            engine.evictToFit store.maxmemoryBytes store.maxmemoryPolicy protectedKeys)).2.usedMemoryBytes.2.All
              property := (measured.sheds (evicts_sheds evicts)).sheds (OnyxEngine.totalMemoryBytes_ages _).sheds
        split
        · refine ⟨remeasured, holds.images, ?_⟩
          intro entry member
          rcases List.mem_append.mp member with earlier | victim
          · exact holds.evicted entry earlier
          · exact victims entry victim
        · exact ⟨applyEntries_all remeasured victims, trivial⟩

theorem admitMutation_all (all : store.All property) {attempt : MutationAttempt}
    (holds : Holds property attempt.intoRollback) (protectedKeys : List Bytes) :
    (store.admitMutation attempt protectedKeys).2.All property ∧
      Admitted property (store.admitMutation attempt protectedKeys).1 := by
  unfold ShardedStore.admitMutation ShardedStore.checkKeyLimit
  cases attempt.keyCountBefore with
  | none => exact checkMaxmemory_all all holds protectedKeys
  | some keyCountBefore =>
      have counted : store.stats.2.All property := all.sheds store.engine.stats_ages.sheds
      simp only
      split
      next refused =>
        split at refused
        · cases refused
          exact ⟨counted, trivial⟩
        · cases refused
      next passed =>
        split at passed
        · cases passed
        · cases passed
          exact checkMaxmemory_all counted holds protectedKeys

theorem admitMutation_leads (store : ShardedStore) (attempt : MutationAttempt) (protectedKeys : List Bytes) :
    store.engine.clock.Leads (store.admitMutation attempt protectedKeys).2.engine.clock := by
  have admission := admitMutation_admission store attempt protectedKeys
  generalize store.admitMutation attempt protectedKeys = outcome at admission ⊢
  cases admission with
  | admitted admits => exact admits.evicts.touches.leads
  | refused confines => exact confines.leads

theorem admitAttempt_ensures {attempt : MutationAttempt} (holds : Holds property attempt.intoRollback)
    (protectedKeys : List Bytes) : Ensures property (admitAttempt attempt protectedKeys) (Admitted property) := by
  intro store all
  have admitted := admitMutation_all all holds protectedKeys
  exact ⟨admitMutation_leads store attempt protectedKeys, admitted.1, admitted.2⟩

end Admission

section Undertaking

/-- The rollback an admitted mutation carries. -/
def Verdict.Holds (property : Bytes → DataEntry → Prop) : Verdict → Prop
  | .admitted attempt => Coordinator.Holds property attempt.intoRollback
  | _ => True

theorem weigh_ensures {attempt : MutationAttempt} (holds : Holds property attempt.intoRollback) (keys : List Bytes) :
    Ensures property (weigh keys attempt) (Verdict.Holds property) := by
  apply (derive_ensures keys attempt.beforeEntries []).bind
  rintro (_ | batch) _
  · exact Ensures.pure trivial
  · apply (admitAttempt_ensures holds keys).bind
    rintro (error | admitted) result
    · apply (rollback_ensures holds).bind
      exact fun _ _ => Ensures.pure trivial
    · exact Ensures.pure result

theorem undertake_ensures {α : Type} {program : StoreM α} (keeps : Preserves property program) (keys : List Bytes) :
    Ensures property (undertake keys program)
      (fun undertaken => Holds property undertaken.1.intoRollback ∧ undertaken.2.2.Holds property) := by
  apply (beginMutation_ensures keys).bind
  intro attempt holds
  apply keeps.bind
  intro answer _
  apply (weigh_ensures holds keys).bind
  exact fun verdict result => Ensures.pure ⟨holds, result⟩

theorem concludeAdmitted_ensures {attempt : MutationAttempt} (holds : Holds property attempt.intoRollback)
    (keys : List Bytes) (message : String) : Ensures property (concludeAdmitted keys attempt message)
      (fun concluded => ∀ batch, concluded = .ok batch → Logs property batch) := by
  apply (derive_ensures keys attempt.beforeEntries attempt.evictedEntries).bind
  rintro (_ | batch) logs
  · apply (rollback_ensures holds).bind
    exact fun _ _ => Ensures.pure nofun
  · apply Ensures.pure
    rintro _ same
    rw [← Except.ok.inj same]
    exact logs batch rfl

omit [Platform] in
theorem undoes_none (response : MasterCommitResponse) (property : Bytes → DataEntry → Prop) :
    ∀ undo ∈ (PreparedMasterCommit.withoutMutation response).rollbacks, Holds property undo :=
  fun _ member => absurd member List.not_mem_nil

/-- The batch of a prepared command, if it has one. -/
def Records (property : Bytes → DataEntry → Prop) : Except PersistenceError PreparedCommandOperation → Prop
  | .ok prepared => ∀ batch ∈ prepared.batch, Logs property batch
  | .error _ => True

/-- The rollback of a prepared command, if it has one. -/
def Carries (property : Bytes → DataEntry → Prop) : Except PersistenceError PreparedCommandOperation → Prop
  | .ok prepared => ∀ undo ∈ prepared.rollback, Holds property undo
  | .error _ => True

theorem concludeCommand_ensures (keys : List Bytes) (outcome : CommandOutcome) {verdict : Verdict}
    (holds : verdict.Holds property) : Ensures property (concludeCommand keys outcome verdict)
      (fun prepared => Carries property prepared ∧ Records property prepared) := by
  cases verdict with
  | unchanged => exact Ensures.pure ⟨nofun, nofun⟩
  | refused error => exact Ensures.pure ⟨nofun, nofun⟩
  | admitted attempt =>
      apply (concludeAdmitted_ensures holds keys derivationFailed).bind
      rintro (error | batch) logs
      · exact Ensures.pure ⟨trivial, trivial⟩
      · apply Ensures.pure
        constructor
        · intro undo same
          rw [← Option.some.inj same]
          exact holds
        · intro made same
          rw [← Option.some.inj same]
          exact logs batch rfl

/-- The rollbacks of a prepared request. -/
def Undoes (property : Bytes → DataEntry → Prop) (pending : PreparedMasterCommit) : Prop :=
  ∀ undo ∈ pending.rollbacks, Holds property undo

def Prepared (property : Bytes → DataEntry → Prop) : Except PersistenceError PreparedMasterCommit → Prop
  | .ok pending => Undoes property pending
  | .error _ => True

omit [Platform] in
theorem undoes_one (response : MasterCommitResponse) (batch : CommittedBatch) {undo : MutationRollback}
    (holds : Holds property undo) : Undoes property (.withMutation response batch undo) := by
  intro other member
  rw [List.mem_singleton.mp member]
  exact holds

/-- What a prepared request would undo, and what it logs, has a property. -/
structure Retains (property : Bytes → DataEntry → Prop) (pending : PreparedMasterCommit) : Prop where
  undoes : Undoes property pending
  logs : ∀ batch ∈ pending.batches, Logs property batch

def Retained (property : Bytes → DataEntry → Prop) : Except PersistenceError PreparedMasterCommit → Prop
  | .ok pending => Retains property pending
  | .error _ => True

omit [Platform] in
theorem retains_none (response : MasterCommitResponse) (property : Bytes → DataEntry → Prop) :
    Retains property (.withoutMutation response) :=
  ⟨undoes_none response property, fun _ member => absurd member List.not_mem_nil⟩

omit [Platform] in
theorem retains_one (response : MasterCommitResponse) {batch : CommittedBatch} {undo : MutationRollback}
    (holds : Holds property undo) (logs : Logs property batch) :
    Retains property (.withMutation response batch undo) := by
  refine ⟨undoes_one response batch holds, ?_⟩
  intro other member
  rw [List.mem_singleton.mp member]
  exact logs

theorem concludeObpSet_ensures (keys : List Bytes) {verdict : Verdict} (holds : verdict.Holds property) :
    Ensures property (concludeObpSet keys verdict) (Retained property) := by
  cases verdict with
  | unchanged => exact Ensures.pure (retains_none _ property)
  | refused error => exact Ensures.pure (retains_none _ property)
  | admitted attempt =>
      apply (concludeAdmitted_ensures holds keys _).bind
      rintro (error | batch) logs
      · exact Ensures.pure trivial
      · exact Ensures.pure (retains_one _ holds (logs batch rfl))

theorem restoreAll_ensures {undos : List MutationRollback} (holds : ∀ undo ∈ undos, Holds property undo) :
    Preserves property (restoreAll undos) := by
  induction undos with
  | nil => exact Ensures.pure trivial
  | cons undo undos rest =>
      apply (rest (fun other member => holds other (List.mem_cons_of_mem undo member))).bind
      exact fun _ _ => restore_ensures (holds undo List.mem_cons_self)

end Undertaking

section Baselines

omit [Platform] in
theorem mem_note (baseline : Baseline) (key : Bytes) (image : Option DataEntry) (other : Bytes) :
    other ∈ (baseline.note key image).changedKeys ↔ other = key ∨ other ∈ baseline.changedKeys := by
  unfold Baseline.note
  split
  next noted => exact ⟨Or.inr, fun either => either.elim (fun same => same ▸ noted) id⟩
  · rw [List.mem_append, List.mem_singleton, or_comm]

omit [Platform] in
theorem mem_noteAffected (baseline : Baseline) (keys : List Bytes) (before : Images) (other : Bytes) :
    other ∈ (baseline.noteAffected keys before).changedKeys ↔ other ∈ keys ∨ other ∈ baseline.changedKeys := by
  induction keys generalizing baseline with
  | nil => simp [Baseline.noteAffected]
  | cons key keys rest =>
      have later := rest (baseline.note key ((before.lookup key).getD none))
      rw [mem_note] at later
      rw [List.mem_cons, or_assoc, or_left_comm]
      exact later

omit [Platform] in
theorem mem_noteEvicted (baseline : Baseline) (evicted : List (Bytes × DataEntry)) (other : Bytes) :
    other ∈ (baseline.noteEvicted evicted).changedKeys ↔
      other ∈ evicted.map Prod.fst ∨ other ∈ baseline.changedKeys := by
  induction evicted generalizing baseline with
  | nil => simp [Baseline.noteEvicted]
  | cons entry evicted rest =>
      have later := rest (baseline.note entry.1 (some entry.2))
      rw [mem_note] at later
      rw [List.map_cons, List.mem_cons, or_assoc, or_left_comm]
      exact later

omit [Platform] in
/-- Noting a key asks for the property only if the key is new. -/
theorem note_holds {baseline : Baseline} (holds : Holds property (.fromBaseline baseline.images)) {key : Bytes}
    {image : Option DataEntry}
    (shows : key ∉ baseline.changedKeys → ∀ entry, image = some entry → property key entry) :
    Holds property (.fromBaseline (baseline.note key image).images) := by
  unfold Baseline.note
  split
  · exact holds
  next fresh =>
    refine ⟨?_, nofun⟩
    intro other entry shown
    by_cases here : other = key
    · rw [MutationRollback.fromBaseline, here, AList.lookup_insert, Option.some.injEq] at shown
      rw [here]
      exact shows fresh entry shown
    · rw [MutationRollback.fromBaseline, AList.lookup_insert_ne here] at shown
      exact holds.images other entry shown

omit [Platform] in
theorem noteAffected_holds {baseline : Baseline} (holds : Holds property (.fromBaseline baseline.images))
    (keys : List Bytes) {before : Images}
    (shows : ∀ key entry, key ∉ baseline.changedKeys → before.lookup key = some (some entry) → property key entry) :
    Holds property (.fromBaseline (baseline.noteAffected keys before).images) := by
  induction keys generalizing baseline with
  | nil => exact holds
  | cons key keys rest =>
      apply rest
      · apply note_holds holds
        intro fresh entry shown
        apply shows key entry fresh
        cases found : before.lookup key with
        | none =>
            rw [found] at shown
            cases shown
        | some image =>
            rw [found, Option.getD_some] at shown
            rw [shown]
      · intro other entry unnoted
        rw [mem_note, not_or] at unnoted
        exact shows other entry unnoted.2

omit [Platform] in
theorem noteEvicted_holds {baseline : Baseline} (holds : Holds property (.fromBaseline baseline.images))
    {evicted : List (Bytes × DataEntry)}
    (shows : ∀ entry ∈ evicted, entry.1 ∉ baseline.changedKeys → property entry.1 entry.2) :
    Holds property (.fromBaseline (baseline.noteEvicted evicted).images) := by
  induction evicted generalizing baseline with
  | nil => exact holds
  | cons entry evicted rest =>
      apply rest
      · apply note_holds holds
        intro fresh other same
        rw [← Option.some.inj same]
        exact shows entry List.mem_cons_self fresh
      · intro other member unnoted
        rw [mem_note, not_or] at unnoted
        exact shows other (List.mem_cons_of_mem entry member) unnoted.2

end Baselines

/-- The commands a request runs. -/
def MasterCommitOperation.commands : MasterCommitOperation → List (List String)
  | .command arguments => [arguments]
  | .commandGroup group | .transaction group => group
  | .obpSet _ _ | .obpDelete _ => []

section Requests
variable [Process]

theorem prepareCommandOperation_ensures {arguments : List String}
    (keeps : Preserves property (executeServerCommand arguments)) :
    Ensures property (prepareCommandOperation arguments)
      (fun prepared => Carries property prepared ∧ Records property prepared) := by
  rw [prepareCommandOperation_eq]
  apply (undertake_ensures keeps (affectedKeys arguments)).bind
  exact fun _ holds => concludeCommand_ensures _ _ holds.2

theorem prepareCommand_ensures {arguments : List String}
    (keeps : Preserves property (executeServerCommand arguments)) :
    Ensures property (prepareCommand arguments) (Retained property) := by
  apply (prepareCommandOperation_ensures keeps).bind
  rintro (error | ⟨outcome, batch, rollback⟩) ⟨carries, records⟩
  · exact Ensures.pure trivial
  · cases batch with
    | none => exact Ensures.pure (retains_none _ property)
    | some batch =>
        cases rollback with
        | none => exact Ensures.pure (retains_none _ property)
        | some undo => exact Ensures.pure (retains_one _ (carries undo rfl) (records batch rfl))

theorem prepareCommands_ensures {group : List (List String)}
    (keeps : ∀ arguments ∈ group, Preserves property (executeServerCommand arguments))
    {prepared : PreparedMasterCommit} (retains : Retains property prepared) (outcomes : List CommandOutcome) :
    Ensures property (prepareCommands group prepared outcomes) (Retained property) := by
  induction group generalizing prepared outcomes with
  | nil => exact Ensures.pure ⟨retains.undoes, retains.logs⟩
  | cons arguments group rest =>
      rw [List.forall_mem_cons] at keeps
      apply (prepareCommandOperation_ensures keeps.1).bind
      rintro (error | next) ⟨carries, records⟩
      · apply (restoreAll_ensures retains.undoes).bind
        exact fun _ _ => Ensures.pure trivial
      · apply rest keeps.2
        constructor
        · intro undo member
          rcases List.mem_append.mp member with earlier | later
          · exact retains.undoes undo earlier
          · exact carries undo (Option.mem_toList.mp later)
        · intro batch member
          rcases List.mem_append.mp member with earlier | later
          · exact retains.logs batch earlier
          · exact records batch (Option.mem_toList.mp later)

theorem prepareMember_ensures {baseline : Baseline} (holds : Holds property (.fromBaseline baseline.images))
    {arguments : List String} (keeps : Preserves property (executeServerCommand arguments)) :
    Ensures property (prepareMember baseline arguments)
      (fun result => Holds property (.fromBaseline result.2.images)) := by
  cases writing : isWriteCommand (argument arguments 0) with
  | false =>
      simp only [prepareMember, writing, Bool.not_false, if_true]
      apply keeps.bind
      exact fun _ _ => Ensures.pure holds
  | true =>
      rw [prepareMember_write baseline writing]
      apply (undertake_ensures keeps (affectedKeys arguments)).bind
      rintro ⟨attempt, outcome, verdict⟩ ⟨begun, weighed⟩
      have noted := noteAffected_holds holds (affectedKeys arguments)
        (fun key entry _ imaged => begun.images key entry imaged)
      apply Ensures.pure
      cases verdict with
      | unchanged => exact noted
      | refused error => exact noted
      | admitted attempt => exact noteEvicted_holds noted (fun entry member _ => weighed.evicted entry member)

theorem prepareMembers_ensures {group : List (List String)}
    (keeps : ∀ arguments ∈ group, Preserves property (executeServerCommand arguments)) {baseline : Baseline}
    (holds : Holds property (.fromBaseline baseline.images)) : Ensures property (prepareMembers group baseline)
      (fun result => Holds property (.fromBaseline result.2.images)) := by
  induction group generalizing baseline with
  | nil => exact Ensures.pure holds
  | cons arguments group rest =>
      rw [List.forall_mem_cons] at keeps
      apply (prepareMember_ensures holds keeps.1).bind
      intro first kept
      apply (rest keeps.2 kept).bind
      exact fun _ result => Ensures.pure result

theorem prepareTransaction_ensures {group : List (List String)}
    (keeps : ∀ arguments ∈ group, Preserves property (executeServerCommand arguments)) :
    Ensures property (prepareTransaction group) (Retains property) := by
  have empty : Holds property (.fromBaseline Baseline.empty.images) := by
    refine ⟨?_, nofun⟩
    intro key entry shown
    rw [MutationRollback.fromBaseline, Baseline.empty, AList.lookup_empty] at shown
    cases shown
  apply (prepareMembers_ensures keeps empty).bind
  intro members holds
  apply (derive_ensures _ _ _).bind
  rintro (_ | batch) logs
  · exact Ensures.pure (retains_none _ property)
  · exact Ensures.pure (retains_one _ holds (logs batch rfl))

omit [Process] in
theorem prepareObpSet_ensures {key value : Bytes}
    (puts : Preserves property (ShardedStore.perform (.set key (.blob value) none))) :
    Ensures property (prepareObpSet key value) (Retained property) := by
  rw [prepareObpSet_eq]
  apply (undertake_ensures puts [key]).bind
  exact fun _ holds => concludeObpSet_ensures _ holds.2

omit [Process] in
theorem prepareObpDelete_ensures (key : Bytes) : Ensures property (prepareObpDelete key) (Retains property) := by
  have deletes : Preserves property (ShardedStore.perform (.delete key)) := fun store all =>
    ⟨(store.engine.delete_sets key).leads, fun other entry held =>
      all other entry (deleteBytes_slot store key held).2, trivial⟩
  have deletion : Logs property ⟨[.delete key]⟩ := by
    intro other entry member
    cases List.mem_singleton.mp member
  apply (beginMutation_ensures [key]).bind
  intro attempt holds
  apply deletes.bind
  intro deleted _
  cases deleted with
  | true => exact Ensures.pure (retains_one _ holds deletion)
  | false => exact Ensures.pure (retains_none _ property)

variable (blobs : ∀ key value, Preserves property (ShardedStore.perform (.set key (.blob value) none)))
include blobs

theorem prepareRequest_ensures {request : MasterCommitOperation}
    (keeps : ∀ arguments ∈ request.commands, Preserves property (executeServerCommand arguments)) :
    Ensures property (prepareRequest request) (Retained property) := by
  cases request with
  | command arguments => exact prepareCommand_ensures (keeps arguments List.mem_cons_self)
  | commandGroup group => exact prepareCommands_ensures keeps (retains_none _ property) []
  | transaction group =>
      apply (prepareTransaction_ensures keeps).bind
      exact fun _ retains => Ensures.pure retains
  | obpSet key value => exact prepareObpSet_ensures (blobs key value)
  | obpDelete key =>
      apply (prepareObpDelete_ensures key).bind
      exact fun _ retains => Ensures.pure retains

omit [Process] blobs in
theorem rollbackPrepared_ensures {prepared : List PreparedMasterCommit}
    (undoes : ∀ pending ∈ prepared, Undoes property pending) : Preserves property (rollbackPrepared prepared) := by
  apply restoreAll_ensures
  intro undo member
  obtain ⟨pending, listed, within⟩ := List.mem_flatMap.mp member
  exact undoes pending listed undo within

/-- The rollbacks of a prepared group. -/
def PreparedAll (property : Bytes → DataEntry → Prop) : Except PersistenceError (List PreparedMasterCommit) → Prop
  | .ok prepared => ∀ pending ∈ prepared, Undoes property pending
  | .error _ => True

/-- The rollbacks and the batches of a prepared group. -/
def RetainedAll (property : Bytes → DataEntry → Prop) : Except PersistenceError (List PreparedMasterCommit) → Prop
  | .ok prepared => ∀ pending ∈ prepared, Retains property pending
  | .error _ => True

theorem prepareRequests_ensures {requests : List MasterCommitOperation}
    (keeps : ∀ request ∈ requests, ∀ arguments ∈ request.commands,
      Preserves property (executeServerCommand arguments))
    {prepared : List PreparedMasterCommit} (retains : ∀ pending ∈ prepared, Retains property pending) :
    Ensures property (prepareRequests requests prepared) (RetainedAll property) := by
  induction requests generalizing prepared with
  | nil => exact Ensures.pure retains
  | cons request requests rest =>
      rw [List.forall_mem_cons] at keeps
      apply (prepareRequest_ensures blobs keeps.1).bind
      rintro (error | pending) next
      · apply (rollbackPrepared_ensures (fun pending member => (retains pending member).undoes)).bind
        exact fun _ _ => Ensures.pure trivial
      · apply rest keeps.2
        intro other member
        rcases List.mem_append.mp member with earlier | later
        · exact retains other earlier
        · rw [List.mem_singleton.mp later]
          exact next

omit [Process] blobs in
theorem concludeGroup_all {append : AppendBatches} (requests : List MasterCommitOperation)
    {prepared : List PreparedMasterCommit} (undoes : ∀ pending ∈ prepared, Undoes property pending) {server : Server}
    (all : server.store.All property) : (concludeGroup append requests prepared server).2.store.All property := by
  have undone := (rollbackPrepared_ensures undoes server.store all).all
  unfold concludeGroup
  simp only
  split
  · exact undone
  · exact all
  · split
    · exact all
    · split
      · exact all
      · exact undone

/-- A property that commands and OBP sets keep is kept by a commit group, however it ends. -/
theorem processCommitGroup_all (append : AppendBatches) {requests : List MasterCommitOperation}
    (keeps : ∀ request ∈ requests, ∀ arguments ∈ request.commands,
      Preserves property (executeServerCommand arguments)) {server : Server}
    (all : server.store.All property) : (processCommitGroup append requests server).2.store.All property := by
  have none : ∀ pending ∈ ([] : List PreparedMasterCommit), Retains property pending :=
    fun _ member => absurd member List.not_mem_nil
  have prepares := prepareRequests_ensures blobs keeps none server.store all
  unfold processCommitGroup
  split
  · exact all
  · split
    next ran =>
      rw [ran] at prepares
      exact prepares.all
    next ran =>
      rw [ran] at prepares
      exact concludeGroup_all requests (fun pending member => (prepares.result pending member).undoes) prepares.all

end Requests

end OnyxDB.Coordinator
