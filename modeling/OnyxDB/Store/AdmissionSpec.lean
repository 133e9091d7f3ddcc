import OnyxDB.Engine.EvictionSpec
import OnyxDB.Store.Programs

/-! Admission and rollback: what an admitted mutation has evicted, that a refused one leaves the content as it
found it, and what restoring the images of some keys writes. -/

namespace OnyxDB.Store
open OnyxDB.Library OnyxDB.Engine OnyxDB.Engine.Value

section Evictions

theorem view_of_removed {engine : OnyxEngine} {key : Bytes} (removed : engine.lookup key = none) (time : Nat) :
    engine.view time key = none := by
  rw [OnyxEngine.view, removed]
  rfl

/-- The content after an eviction. -/
theorem evicts_view {engine after : OnyxEngine} {protectedKeys : List Bytes}
    {victims : List (Bytes × DataEntry)} (evicts : engine.Evicts after protectedKeys victims) {time : Nat}
    (upto : engine.clock.Upto after.clock time) (key : Bytes) :
    after.view time key = if key ∈ victims.map Prod.fst then none else engine.view time key := by
  split
  next member =>
    obtain ⟨victim, listed, rfl⟩ := List.mem_map.mp member
    exact view_of_removed (evicts.removed victim listed) time
  next absent => exact evicts.touches.view upto absent

end Evictions

variable [Platform]

/-- The writes that put entries back. -/
def entryWrites (entries : List (Bytes × DataEntry)) : List (Expiring.Write Bytes PersistentEntry) :=
  entries.map (fun entry => (entry.1, some (.ofDataEntry entry.2)))

omit [Platform] in
theorem entryWrites_keys (entries : List (Bytes × DataEntry)) :
    (entryWrites entries).map Prod.fst = entries.map Prod.fst := by
  rw [entryWrites, List.map_map]
  rfl

theorem applyEntries_writes (store : ShardedStore) (entries : List (Bytes × DataEntry)) :
    Writes store (store.applyEntries entries) (entryWrites entries) := by
  unfold ShardedStore.applyEntries entryWrites
  induction entries generalizing store with
  | nil => exact Writes.refl store
  | cons entry entries rest =>
      exact (applyEntry_writes store entry.1 entry.2).trans (rest (store.applyEntry entry.1 entry.2).2)

theorem applyEntries_limits (store : ShardedStore) (entries : List (Bytes × DataEntry)) :
    (store.applyEntries entries).maxmemoryBytes = store.maxmemoryBytes ∧
      (store.applyEntries entries).maxmemoryPolicy = store.maxmemoryPolicy := by
  unfold ShardedStore.applyEntries
  induction entries generalizing store with
  | nil => exact ⟨rfl, rfl⟩
  | cons entry entries rest => exact rest (store.applyEntry entry.1 entry.2).2

/-- Putting the victims of an eviction back leaves nothing to be seen of it. -/
theorem applyEntries_undoes {store evicted : ShardedStore} {protectedKeys : List Bytes}
    {victims : List (Bytes × DataEntry)}
    (evicts : store.engine.Evicts evicted.engine protectedKeys victims) :
    store.engine.Confines (evicted.applyEntries victims).engine [] := by
  have writes := applyEntries_writes evicted victims
  refine ⟨evicts.touches.leads.trans writes.leads, ?_⟩
  intro time upto key _
  have early := upto.start writes.leads
  have shown := congrFun (writes.view time (upto.rest evicts.touches.leads)) key
  change (evicted.applyEntries victims).view time key = store.view time key
  rw [shown, visible]
  by_cases member : key ∈ victims.map Prod.fst
  · obtain ⟨victim, listed, rfl⟩ := List.mem_map.mp member
    have distinct : ((entryWrites victims).map Prod.fst).Nodup := by
      rw [entryWrites_keys]
      exact evicts.nodup
    have written : (victim.1, some (PersistentEntry.ofDataEntry victim.2)) ∈ entryWrites victims :=
      List.mem_map.mpr ⟨victim, listed, rfl⟩
    rw [Expiring.replay_of_nodup _ _ distinct written, ShardedStore.view, OnyxEngine.view,
      evicts.held victim listed, shown_eq_live]
    rfl
  · have absent : key ∉ (entryWrites victims).map Prod.fst := by
      rw [entryWrites_keys]
      exact member
    rw [Expiring.replay_other _ _ _ absent]
    have same : evicted.view time key = store.view time key := evicts.touches.view early member
    rw [same]
    exact congrFun (visible_view store.engine time) key

section Admission

omit [Platform] in
theorem ages_confines {store : ShardedStore} {engine : OnyxEngine} (ages : store.engine.Ages engine)
    (keys : List Bytes) : store.Confines { store with engine := engine } keys :=
  ⟨ages.confines.mono (List.nil_subset _), rfl, rfl⟩

/-- What an admitted mutation has evicted. -/
structure Admits (store after : ShardedStore) (attempt admitted : MutationAttempt) (protectedKeys : List Bytes)
    (victims : List (Bytes × DataEntry)) : Prop where
  attempt : admitted = { attempt with evictedEntries := attempt.evictedEntries ++ victims }
  evicts : store.engine.Evicts after.engine protectedKeys victims
  maxmemoryBytes : after.maxmemoryBytes = store.maxmemoryBytes
  maxmemoryPolicy : after.maxmemoryPolicy = store.maxmemoryPolicy

omit [Platform] in
theorem Admits.unchanged {store : ShardedStore} {engine : OnyxEngine} (ages : store.engine.Ages engine)
    (attempt : MutationAttempt) (protectedKeys : List Bytes) :
    Admits store { store with engine := engine } attempt attempt protectedKeys [] :=
  ⟨by rw [List.append_nil], .none _ ages, rfl, rfl⟩

/-- The two ways an admission ends. -/
inductive Admission (store : ShardedStore) (attempt : MutationAttempt) (protectedKeys : List Bytes) :
    Except AdmissionError MutationAttempt × ShardedStore → Prop where
  | admitted {admitted : MutationAttempt} {after : ShardedStore} {victims : List (Bytes × DataEntry)}
      (admits : Admits store after attempt admitted protectedKeys victims) :
      Admission store attempt protectedKeys (.ok admitted, after)
  | refused {error : AdmissionError} {after : ShardedStore} (confines : store.Confines after []) :
      Admission store attempt protectedKeys (.error error, after)

omit [Platform] in
/-- Measuring the memory after an eviction. -/
theorem evicts_then_ages {engine evicted after : OnyxEngine} {protectedKeys : List Bytes}
    {victims : List (Bytes × DataEntry)} (evicts : engine.Evicts evicted protectedKeys victims)
    (ages : evicted.Ages after) : engine.Evicts after protectedKeys victims where
  touches := evicts.touches.trans (ages.mono (List.nil_subset _))
  unprotected := evicts.unprotected
  removed := fun victim member => (ages.aged victim.1 List.not_mem_nil).absent (evicts.removed victim member)
  held := evicts.held
  nodup := evicts.nodup

theorem checkMaxmemory_admission (store : ShardedStore) (attempt : MutationAttempt)
    (protectedKeys : List Bytes) :
    Admission store attempt protectedKeys (store.checkMaxmemory attempt protectedKeys) := by
  have measured := store.engine.totalMemoryBytes_ages
  unfold ShardedStore.checkMaxmemory
  split
  · exact .admitted (.unchanged (OnyxEngine.Touches.refl _ _) attempt protectedKeys)
  · cases reading : store.engine.totalMemoryBytes with
    | mk used engine =>
        rw [reading] at measured
        simp only [ShardedStore.usedMemoryBytes, ShardedStore.run, reading]
        split
        · exact .admitted (.unchanged measured attempt protectedKeys)
        · split
          · exact .refused (ages_confines measured [])
          · have taken := (engine.evictToFit_evicts store.maxmemoryBytes store.maxmemoryPolicy
              protectedKeys).after_ages measured
            cases eviction : engine.evictToFit store.maxmemoryBytes store.maxmemoryPolicy protectedKeys with
            | mk victims evicted =>
                rw [eviction] at taken
                have swept := evicted.totalMemoryBytes_ages
                cases final : evicted.totalMemoryBytes with
                | mk left last =>
                    rw [final] at swept
                    have lasting := evicts_then_ages taken swept
                    simp only
                    split
                    · exact .admitted ⟨rfl, lasting, rfl, rfl⟩
                    · let full : ShardedStore := { store with engine := last }
                      have undone : store.engine.Confines (full.applyEntries victims).engine [] :=
                        applyEntries_undoes lasting
                      have limits := applyEntries_limits full victims
                      exact .refused ⟨undone, limits.1, limits.2⟩

omit [Platform] in
theorem Admission.after_ages {store : ShardedStore} {engine : OnyxEngine} {attempt : MutationAttempt}
    {protectedKeys : List Bytes} {outcome : Except AdmissionError MutationAttempt × ShardedStore}
    (ages : store.engine.Ages engine)
    (admission : Admission { store with engine := engine } attempt protectedKeys outcome) :
    Admission store attempt protectedKeys outcome := by
  cases admission with
  | admitted admits =>
      exact .admitted ⟨admits.attempt, admits.evicts.after_ages ages, admits.maxmemoryBytes,
        admits.maxmemoryPolicy⟩
  | refused confines => exact .refused ((ages_confines ages []).trans confines)

/-- An admission evicts what it says, or leaves nothing to be seen. -/
theorem admitMutation_admission (store : ShardedStore) (attempt : MutationAttempt)
    (protectedKeys : List Bytes) :
    Admission store attempt protectedKeys (store.admitMutation attempt protectedKeys) := by
  have counted := store.engine.stats_ages
  unfold ShardedStore.admitMutation ShardedStore.checkKeyLimit
  cases attempt.keyCountBefore with
  | none => exact checkMaxmemory_admission store attempt protectedKeys
  | some keyCountBefore =>
      cases reading : store.engine.stats with
      | mk stats engine =>
          rw [reading] at counted
          simp only [ShardedStore.stats, ShardedStore.run, reading]
          split
          next refused =>
            split at refused
            · cases refused
              exact .refused (ages_confines counted [])
            · cases refused
          next passed =>
            split at passed
            · cases passed
            · cases passed
              exact (checkMaxmemory_admission _ attempt protectedKeys).after_ages counted

end Admission

section ImagesOfKeys

theorem peekEntry_view (store : ShardedStore) {time : Nat} (fixed : store.engine.clock.Fixed time)
    (key : Bytes) : (store.peekEntry key).1.map PersistentEntry.ofDataEntry = store.view time key := by
  have found : (store.peekEntry key).1 = fresh store.engine.clock.now (store.engine.lookup key) :=
    store.engine.peek_fst key
  rw [found, fixed.now]
  rfl

theorem peekEntry_confines (store : ShardedStore) (key : Bytes) (keys : List Bytes) :
    store.Confines (store.peekEntry key).2 keys :=
  ages_confines (store.engine.peek_ages key) keys

/-- The images of some keys show what the keys showed. -/
structure Pictures (store : ShardedStore) (time : Nat) (keys : List Bytes) (images : Images) : Prop where
  shown : ∀ key ∈ keys, (images.lookup key).map (Option.map PersistentEntry.ofDataEntry) =
    some (store.view time key)
  only : ∀ key, key ∈ images.keys → key ∈ keys

theorem peekAll_pictures {time : Nat} (keys : List Bytes) (images : Images) (store : ShardedStore)
    (fixed : store.engine.clock.Fixed time) {seen : List Bytes} (before : Pictures store time seen images) :
    Pictures store time (seen ++ keys) (ShardedStore.peekAll keys images store).1 ∧
      store.Confines (ShardedStore.peekAll keys images store).2 [] := by
  induction keys generalizing images store seen with
  | nil =>
      rw [List.append_nil]
      exact ⟨before, .refl store []⟩
  | cons key keys rest =>
      have looked := peekEntry_confines store key []
      have image := peekEntry_view store fixed key
      have same (other : Bytes) : (store.peekEntry key).2.view time other = store.view time other :=
        looked.view fixed List.not_mem_nil
      have noted : Pictures (store.peekEntry key).2 time (seen ++ [key])
          (images.insert key (store.peekEntry key).1) := by
        constructor
        · intro other member
          rw [same]
          by_cases here : other = key
          · rw [here, AList.lookup_insert, Option.map_some, image]
          · rw [AList.lookup_insert_ne here]
            apply before.shown
            rcases List.mem_append.mp member with early | last
            · exact early
            · exact absurd (List.mem_singleton.mp last) here
        · intro other member
          rw [← AList.mem_keys, AList.mem_insert] at member
          rw [List.mem_append, List.mem_singleton]
          rcases member with here | elsewhere
          · exact Or.inr here
          · exact Or.inl (before.only other elsewhere)
      obtain ⟨pictures, confines⟩ := rest _ _ (looked.fixed fixed) noted
      rw [List.append_assoc, List.singleton_append] at pictures
      refine ⟨⟨?_, pictures.only⟩, looked.trans confines⟩
      intro other member
      rw [← same]
      exact pictures.shown other member

theorem stats_confines (store : ShardedStore) (keys : List Bytes) : store.Confines store.stats.2 keys :=
  ages_confines store.engine.stats_ages keys

theorem usedMemoryBytes_confines (store : ShardedStore) (keys : List Bytes) :
    store.Confines store.usedMemoryBytes.2 keys :=
  ages_confines store.engine.totalMemoryBytes_ages keys

theorem peekAll_confines (keys : List Bytes) (images : Images) (store : ShardedStore) :
    store.Confines (ShardedStore.peekAll keys images store).2 [] := by
  induction keys generalizing images store with
  | nil => exact .refl store []
  | cons key keys rest => exact (peekEntry_confines store key []).trans (rest _ _)

/-- Beginning a mutation only looks at the store. -/
theorem beginMutation_confines (store : ShardedStore) (keys : List Bytes) :
    store.Confines (store.beginMutation keys).2 [] := by
  have peeked := peekAll_confines keys ∅ store
  unfold ShardedStore.beginMutation
  cases looking : ShardedStore.peekAll keys ∅ store with
  | mk images middle =>
      rw [looking] at peeked
      simp only
      cases keyLimitRequiresExactCount middle.engine.physicalKeyCount
          (images.entries.countP (fun image => image.2.isNone)) with
      | true =>
          have counted := peeked.trans (stats_confines middle [])
          simp only
          split
          · exact counted.trans (usedMemoryBytes_confines middle.stats.2 [])
          · exact counted
      | false =>
          simp only
          split
          · exact peeked.trans (usedMemoryBytes_confines middle [])
          · exact peeked

theorem beginMutation_images (store : ShardedStore) (keys : List Bytes) :
    (store.beginMutation keys).1.beforeEntries = (ShardedStore.peekAll keys ∅ store).1 ∧
      (store.beginMutation keys).1.evictedEntries = [] :=
  ⟨rfl, rfl⟩

/-- The images a mutation begins with. -/
theorem beginMutation_pictures (store : ShardedStore) {time : Nat} (fixed : store.engine.clock.Fixed time)
    (keys : List Bytes) : Pictures store time keys (store.beginMutation keys).1.beforeEntries := by
  have none : Pictures store time [] (∅ : Images) := ⟨nofun, fun _ member => absurd member (by simp)⟩
  obtain ⟨pictures, _⟩ := peekAll_pictures keys ∅ store fixed none
  rw [List.nil_append] at pictures
  exact pictures

end ImagesOfKeys

section Restoring

/-- The write that puts one image back. -/
def imageWrite (image : Sigma fun _ : Bytes => Option DataEntry) : Expiring.Write Bytes PersistentEntry :=
  (image.1, image.2.map PersistentEntry.ofDataEntry)

/-- The writes of a rollback. -/
def restoringWrites (before : Images) (evicted : List (Bytes × DataEntry)) :
    List (Expiring.Write Bytes PersistentEntry) :=
  before.entries.map imageWrite ++ entryWrites (evicted.filter (fun entry => decide (entry.1 ∉ before.keys)))

theorem restoreImages_writes (store : ShardedStore)
    (images : List (Sigma fun _ : Bytes => Option DataEntry)) :
    Writes store (store.restoreImages images) (images.map imageWrite) := by
  unfold ShardedStore.restoreImages
  induction images generalizing store with
  | nil => exact Writes.refl store
  | cons image images rest =>
      obtain ⟨key, slot⟩ := image
      cases slot with
      | none => exact (deleteBytes_writes store key).trans (rest (store.deleteBytes key).2)
      | some entry => exact (applyEntry_writes store key entry).trans (rest (store.applyEntry key entry).2)

theorem restoreEntries_writes (store : ShardedStore) (before : Images) (evicted : List (Bytes × DataEntry)) :
    Writes store (store.restoreEntries before evicted) (restoringWrites before evicted) :=
  (restoreImages_writes store before.entries).trans (applyEntries_writes _ _)

/-- Putting the images back gives the content they were taken from. -/
theorem rollback_view {store after : ShardedStore} {time : Nat} {keys : List Bytes} {attempt : MutationAttempt}
    (fixed : after.engine.clock.Fixed time) (pictures : Pictures store time keys attempt.beforeEntries)
    (clean : attempt.evictedEntries = [])
    (only : ∀ key, key ∉ keys → after.view time key = store.view time key) :
    (after.rollback attempt).view time = store.view time := by
  have writes := restoreEntries_writes after attempt.beforeEntries attempt.evictedEntries
  have shown := writes.view time fixed.upto
  rw [clean] at shown
  unfold ShardedStore.rollback
  rw [clean, shown]
  have distinct : ((attempt.beforeEntries.entries.map imageWrite).map Prod.fst).Nodup := by
    rw [List.map_map]
    exact attempt.beforeEntries.nodupKeys
  simp only [restoringWrites, List.filter_nil, entryWrites, List.map_nil, List.append_nil]
  funext key
  rw [visible]
  cases found : attempt.beforeEntries.lookup key with
  | none =>
      have outside : key ∉ keys := by
        intro member
        have shown := pictures.shown key member
        rw [found] at shown
        cases shown
      have unwritten : key ∉ (attempt.beforeEntries.entries.map imageWrite).map Prod.fst := by
        rw [List.map_map]
        exact AList.lookup_eq_none.mp found
      rw [Expiring.replay_other _ _ _ unwritten, only key outside]
      exact congrFun (visible_view store.engine time) key
  | some image =>
      have listed : (⟨key, image⟩ : Sigma fun _ : Bytes => Option DataEntry) ∈ attempt.beforeEntries.entries :=
        AList.mem_lookup_iff.mp found
      have written : (key, image.map PersistentEntry.ofDataEntry) ∈ attempt.beforeEntries.entries.map imageWrite :=
        List.mem_map.mpr ⟨_, listed, rfl⟩
      have inside : key ∈ keys := pictures.only key (AList.mem_keys.mp (AList.lookup_isSome.mp (by rw [found]; rfl)))
      have shown := pictures.shown key inside
      rw [found] at shown
      rw [Expiring.replay_of_nodup _ _ distinct written, Option.some.inj shown]
      exact congrFun (visible_view store.engine time) key

end Restoring

end OnyxDB.Store
