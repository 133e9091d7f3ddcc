import OnyxDB.Coordinator.KeyLimitRuns

/-! Coherence of a request at a clock that stands still: its batches redo on the content before it what it did,
and its rollbacks undo it. Content is compared as the coordinator compares it, so a value that was replaced by an
equal one leaves neither a batch nor a rollback. -/

namespace OnyxDB.Coordinator
open OnyxDB.Library OnyxDB.Engine OnyxDB.Engine.Value OnyxDB.Store OnyxDB.Protocol OnyxDB.Command
  OnyxDB.Persistence.Model OnyxDB.Persistence.Commit

section Images

/-- The same image, or one that is equal to it. -/
def Alike (first second : Option PersistentEntry) : Prop := first = second ∨ imageBeq first second = true

theorem Alike.refl (image : Option PersistentEntry) : Alike image image := .inl rfl

theorem entryBeq_trans {first second third : PersistentEntry} (one : entryBeq first second = true)
    (other : entryBeq second third = true) : entryBeq first third = true := by
  simp only [entryBeq, Bool.and_eq_true, beq_iff_eq] at one other ⊢
  exact ⟨OnyxValue.beq_trans one.1 other.1, one.2.trans other.2⟩

theorem imageBeq_some {first second : Option PersistentEntry} (equal : imageBeq first second = true) :
    (first = none ∧ second = none) ∨
      ∃ one other, first = some one ∧ second = some other ∧ entryBeq one other = true := by
  cases first with
  | none =>
      cases second with
      | none => exact .inl ⟨rfl, rfl⟩
      | some other => cases equal
  | some one =>
      cases second with
      | none => cases equal
      | some other => exact .inr ⟨one, other, rfl, rfl, equal⟩

theorem imageBeq_trans {first second third : Option PersistentEntry} (one : imageBeq first second = true)
    (other : imageBeq second third = true) : imageBeq first third = true := by
  rcases imageBeq_some one with ⟨rfl, rfl⟩ | ⟨a, b, rfl, rfl, left⟩
  · exact other
  · rcases imageBeq_some other with ⟨impossible, _⟩ | ⟨b', c, same, rfl, right⟩
    · cases impossible
    · cases same
      exact entryBeq_trans left right

theorem Alike.trans {first second third : Option PersistentEntry} (one : Alike first second)
    (other : Alike second third) : Alike first third := by
  rcases one with rfl | equal
  · exact other
  · rcases other with rfl | later
    · exact .inr equal
    · exact .inr (imageBeq_trans equal later)

/-- An image as it is seen at `time`. -/
abbrev shownImage (time : Nat) (image : Option PersistentEntry) : Option PersistentEntry :=
  Expiring.live (fun time (entry : PersistentEntry) => entry.expired time) time image

/-- Equal images expire together. -/
theorem Alike.live {first second : Option PersistentEntry} (alike : Alike first second) (time : Nat) :
    Alike (shownImage time first) (shownImage time second) := by
  rcases alike with rfl | equal
  · exact .refl _
  · rcases imageBeq_some equal with ⟨rfl, rfl⟩ | ⟨one, other, rfl, rfl, same⟩
    · exact .refl _
    · have expiry : one.expiresAt = other.expiresAt := by
        simp only [entryBeq, Bool.and_eq_true, beq_iff_eq] at same
        exact same.2
      have together : one.expired time = other.expired time := by
        rw [PersistentEntry.expired, PersistentEntry.expired, expiry]
      rw [shownImage, shownImage, Expiring.live_some, Expiring.live_some, together]
      split
      · exact .refl _
      · exact .inr equal

/-- The same writes on contents that are alike. -/
theorem replay_alike {first second : Bytes → Option PersistentEntry} (alike : ∀ key, Alike (first key) (second key))
    (writes : List (Expiring.Write Bytes PersistentEntry)) (key : Bytes) :
    Alike (Expiring.replay first writes key) (Expiring.replay second writes key) := by
  by_cases written : key ∈ writes.map Prod.fst
  · rw [Expiring.replay_written first second writes key written]
    exact .refl _
  · rw [Expiring.replay_other _ _ _ written, Expiring.replay_other _ _ _ written]
    exact alike key

theorem visible_replay_alike {first second : Bytes → Option PersistentEntry}
    (alike : ∀ key, Alike (first key) (second key)) (writes : List (Expiring.Write Bytes PersistentEntry))
    (time : Nat) (key : Bytes) :
    Alike (visible time (Expiring.replay first writes) key) (visible time (Expiring.replay second writes) key) :=
  (replay_alike alike writes key).live time

end Images

section Logs

/-- On the content `before`, the writes give a content like `after`. -/
def Repeats (time : Nat) (before : Bytes → Option PersistentEntry)
    (writes : List (Expiring.Write Bytes PersistentEntry)) (after : Bytes → Option PersistentEntry) : Prop :=
  ∀ key, Alike (visible time (Expiring.replay before writes) key) (after key)

/-- On the content `after`, the writes give back a content like `before`. -/
def Reverts (time : Nat) (before : Bytes → Option PersistentEntry)
    (writes : List (Expiring.Write Bytes PersistentEntry)) (after : Bytes → Option PersistentEntry) : Prop :=
  ∀ key, Alike (before key) (visible time (Expiring.replay after writes) key)

variable {time : Nat} {before middle after : Bytes → Option PersistentEntry}
  {first second : List (Expiring.Write Bytes PersistentEntry)}

theorem Repeats.trans (one : Repeats time before first middle) (other : Repeats time middle second after) :
    Repeats time before (first ++ second) after := by
  intro key
  rw [Expiring.replay_append, ← visible_replay_visible le_rfl]
  exact (visible_replay_alike one second time key).trans (other key)

theorem Reverts.trans (one : Reverts time before first middle) (other : Reverts time middle second after) :
    Reverts time before (second ++ first) after := by
  intro key
  rw [Expiring.replay_append, ← visible_replay_visible le_rfl]
  exact (one key).trans (visible_replay_alike other first time key)

/-- Writes of what the content comes to, where the keys that are not written stay alike. -/
theorem repeats_of_uniform {writes : List (Expiring.Write Bytes PersistentEntry)}
    (shows : visible time before = before) (uniform : ∀ write ∈ writes, shownImage time write.2 = after write.1)
    (others : ∀ key, key ∉ writes.map Prod.fst → Alike (before key) (after key)) : Repeats time before writes after := by
  intro key
  rw [visible, Expiring.live_replay_uniform uniform]
  split
  · exact .refl _
  next unwritten =>
    have same : shownImage time (before key) = before key := congrFun shows key
    rw [shownImage] at same
    rw [same]
    exact others key unwritten

theorem reverts_of_uniform {writes : List (Expiring.Write Bytes PersistentEntry)}
    (shows : visible time after = after) (uniform : ∀ write ∈ writes, shownImage time write.2 = before write.1)
    (others : ∀ key, key ∉ writes.map Prod.fst → Alike (before key) (after key)) : Reverts time before writes after := by
  intro key
  rw [visible, Expiring.live_replay_uniform uniform]
  split
  · exact .refl _
  next unwritten =>
    have same : shownImage time (after key) = after key := congrFun shows key
    rw [shownImage] at same
    rw [same]
    exact others key unwritten

end Logs

section Effects

/-- The writes of the effects between two contents. -/
theorem effectsBetween_writes {keys victims : List Bytes} {before after : Bytes → Option PersistentEntry}
    (spared : ∀ key ∈ keys, key ∉ victims) {write : Expiring.Write Bytes PersistentEntry}
    (member : write ∈ (effectsBetween keys before after victims).map effectWrite) :
    write.1 ∈ keys ∧ write.2 = after write.1 := by
  obtain ⟨effect, listed, rfl⟩ := List.mem_map.mp member
  obtain ⟨key, inside, here⟩ := List.mem_flatMap.mp listed
  rw [decide_eq_false (spared key inside)] at here
  unfold keyEffect at here
  rw [Bool.not_false, Bool.and_true] at here
  split at here
  · cases here
  · cases shown : after key with
    | none =>
        rw [shown] at here
        rw [List.mem_singleton.mp here]
        exact ⟨inside, shown.symm⟩
    | some entry =>
        rw [shown] at here
        rw [List.mem_singleton.mp here]
        exact ⟨inside, shown.symm⟩

/-- A key without an effect has the same image as before, or an equal one. -/
theorem effectsBetween_unwritten {keys victims : List Bytes} {before after : Bytes → Option PersistentEntry}
    (spared : ∀ key ∈ keys, key ∉ victims) {key : Bytes} (inside : key ∈ keys)
    (unwritten : key ∉ ((effectsBetween keys before after victims).map effectWrite).map Prod.fst) :
    imageBeq (before key) (after key) = true := by
  by_contra differs
  apply unwritten
  have written : ∃ effect ∈ keyEffect key (before key) (after key) (decide (key ∈ victims)),
      (effectWrite effect).1 = key := by
    rw [decide_eq_false (spared key inside)]
    unfold keyEffect
    rw [Bool.not_false, Bool.and_true, if_neg differs]
    cases after key with
    | none => exact ⟨.delete key, List.mem_cons_self, rfl⟩
    | some entry => exact ⟨.put key entry, List.mem_cons_self, rfl⟩
  obtain ⟨effect, listed, same⟩ := written
  rw [List.map_map]
  exact List.mem_map.mpr ⟨effect, List.mem_flatMap.mpr ⟨key, inside, listed⟩, same⟩

theorem evictionEffects_writes (victims : List Bytes) :
    (evictionEffects victims).map effectWrite = victims.eraseDups.map (fun key => (key, none)) := by
  rw [evictionEffects, List.map_map]
  rfl

end Effects

section Members

/-- The writes that take rollbacks back, the latest first. -/
def undoWrites (rollbacks : List MutationRollback) : List (Expiring.Write Bytes PersistentEntry) :=
  rollbacks.reverse.flatMap (fun undo => restoringWrites undo.beforeEntries undo.evictedEntries)

/-- At a clock that stands still, the batches repeat what was done to the store and the rollbacks revert it. -/
structure Describes (time : Nat) (store after : ShardedStore) (batches : List CommittedBatch)
    (rollbacks : List MutationRollback) : Prop where
  fixed : after.engine.clock.Fixed time
  repeats : Repeats time (store.view time) (batches.flatMap batchWrites) (after.view time)
  reverts : Reverts time (store.view time) (undoWrites rollbacks) (after.view time)

variable {time : Nat} {store middle after : ShardedStore}

theorem Describes.quiet (fixed : after.engine.clock.Fixed time)
    (alike : ∀ key, Alike (store.view time key) (after.view time key)) : Describes time store after [] [] where
  fixed := fixed
  repeats := repeats_of_uniform (visible_view store.engine time) (fun _ none => absurd none List.not_mem_nil)
    (fun key _ => alike key)
  reverts := reverts_of_uniform (visible_view after.engine time) (fun _ none => absurd none List.not_mem_nil)
    (fun key _ => alike key)

theorem Describes.trans {early late : List CommittedBatch} {first second : List MutationRollback}
    (one : Describes time store middle early first) (other : Describes time middle after late second) :
    Describes time store after (early ++ late) (first ++ second) where
  fixed := other.fixed
  repeats := by
    rw [List.flatMap_append]
    exact one.repeats.trans other.repeats
  reverts := by
    rw [undoWrites, List.reverse_append, List.flatMap_append]
    exact one.reverts.trans other.reverts

/-- What an image shows of a slot is what the engine shows of it. -/
theorem shownImage_slot (time : Nat) (slot : Option DataEntry) :
    shownImage time (slot.map PersistentEntry.ofDataEntry) = shown time slot := (shown_eq_live time slot).symm

theorem shownImage_view (store : ShardedStore) (time : Nat) (key : Bytes) :
    shownImage time (store.view time key) = store.view time key := congrFun (visible_view store.engine time) key

theorem pictures_slot {keys : List Bytes} {images : Images} (pictures : Pictures store time keys images) {key : Bytes}
    (inside : key ∈ keys) : shown time ((images.lookup key).getD none) = store.view time key := by
  rw [← shownImage_slot]
  change shownImage time (imageShown images key) = _
  rw [pictures_shown pictures inside]
  exact shownImage_view store time key

section Admitted
variable {keys : List Bytes} {attempt admitted : MutationAttempt} {victims : List (Bytes × DataEntry)}
  (fixed : store.engine.clock.Fixed time) (pictures : Pictures store time keys attempt.beforeEntries)
  (confines : store.Confines middle keys) (admits : Admits middle after attempt admitted keys victims)

include admits in
theorem spared_of_admits : ∀ key ∈ keys, key ∉ victims.map Prod.fst := by
  intro key inside member
  obtain ⟨victim, listed, rfl⟩ := List.mem_map.mp member
  exact admits.evicts.unprotected victim listed inside

include fixed confines admits

/-- An admitted mutation leaves the keys alone that are neither its own nor evicted. -/
theorem admitted_view {key : Bytes} (outside : key ∉ keys) (kept : key ∉ victims.map Prod.fst) :
    after.view time key = store.view time key := by
  have shown := evicts_view admits.evicts (confines.fixed fixed).upto key
  rw [if_neg kept] at shown
  exact shown.trans (confines.view fixed outside)

theorem evicted_view {victim : Bytes × DataEntry} (listed : victim ∈ victims) :
    after.view time victim.1 = none ∧
      shownImage time (some (.ofDataEntry victim.2)) = store.view time victim.1 := by
  have member : victim.1 ∈ victims.map Prod.fst := List.mem_map_of_mem listed
  have shown := evicts_view admits.evicts (confines.fixed fixed).upto victim.1
  rw [if_pos member] at shown
  refine ⟨shown, ?_⟩
  have outside := admits.evicts.unprotected victim listed
  rw [← confines.view fixed outside, ShardedStore.view, OnyxEngine.view, admits.evicts.held victim listed]
  exact shownImage_slot time (some victim.2)

include pictures

theorem admitted_repeats :
    Repeats time (store.view time) (batchWrites ⟨derivedEffects keys attempt.beforeEntries victims (after.view time)⟩)
      (after.view time) := by
  have spared := spared_of_admits admits
  apply repeats_of_uniform (visible_view store.engine time)
  · intro write member
    rw [batchWrites, derivedEffects, List.map_append, evictionEffects_writes] at member
    rcases List.mem_append.mp member with evicted | changed
    · obtain ⟨key, listed, rfl⟩ := List.mem_map.mp evicted
      obtain ⟨victim, taken, rfl⟩ := List.mem_map.mp (List.mem_eraseDups.mp listed)
      exact (evicted_view fixed confines admits taken).1.symm
    · rw [(effectsBetween_writes spared changed).2]
      exact shownImage_view after time write.1
  · intro key unwritten
    rw [batchWrites, derivedEffects, List.map_append, List.map_append, List.mem_append, not_or,
      evictionEffects_writes] at unwritten
    by_cases inside : key ∈ keys
    · have equal := effectsBetween_unwritten spared inside unwritten.2
      rw [pictures_shown pictures inside] at equal
      exact .inr equal
    · have kept : key ∉ victims.map Prod.fst := by
        intro member
        apply unwritten.1
        rw [List.map_map]
        exact List.mem_map.mpr ⟨key, List.mem_eraseDups.mpr member, rfl⟩
      exact .inl (admitted_view fixed confines admits inside kept).symm

theorem admitted_reverts :
    Reverts time (store.view time) (restoringWrites attempt.beforeEntries victims) (after.view time) := by
  apply reverts_of_uniform (visible_view after.engine time)
  · intro write member
    rcases List.mem_append.mp member with imaged | evicted
    · obtain ⟨⟨key, image⟩, listed, rfl⟩ := List.mem_map.mp imaged
      have found : attempt.beforeEntries.lookup key = some image := AList.mem_lookup_iff.mpr listed
      have inside := pictures.only key (AList.mem_keys.mp (AList.lookup_isSome.mp (by rw [found]; rfl)))
      have shown := pictures.shown key inside
      rw [found] at shown
      change shownImage time (image.map PersistentEntry.ofDataEntry) = store.view time key
      rw [Option.some.inj shown]
      exact shownImage_view store time key
    · obtain ⟨victim, listed, rfl⟩ := List.mem_map.mp evicted
      exact (evicted_view fixed confines admits (List.mem_of_mem_filter listed)).2
  · intro key unwritten
    rw [restoringWrites, List.map_append, List.mem_append, not_or, entryWrites_keys] at unwritten
    have unimaged : key ∉ attempt.beforeEntries.keys := by
      rw [List.map_map] at unwritten
      exact unwritten.1
    have outside : key ∉ keys := by
      intro inside
      have shown := pictures.shown key inside
      rw [AList.lookup_eq_none.mpr unimaged] at shown
      cases shown
    have kept : key ∉ victims.map Prod.fst := by
      intro member
      obtain ⟨victim, listed, rfl⟩ := List.mem_map.mp member
      apply unwritten.2
      exact List.mem_map_of_mem (List.mem_filter.mpr ⟨listed, decide_eq_true unimaged⟩)
    exact .inl (admitted_view fixed confines admits outside kept).symm

end Admitted

/-- What became of a mutation, with the batch and the rollback that its admission leaves. -/
theorem Describes.undertaken {keys : List Bytes} {attempt : MutationAttempt} {verdict : Verdict}
    (fixed : store.engine.clock.Fixed time) (undertaking : Undertaking time keys store attempt verdict after)
    (settled : ∀ admitted, verdict ≠ .admitted admitted) : Describes time store after [] [] := by
  have last := undertaking.leads.fixed fixed
  cases undertaking with
  | unchanged confines same =>
      apply Describes.quiet last
      intro key
      by_cases inside : key ∈ keys
      · exact .inr (same key inside)
      · exact .inl (confines.view fixed inside).symm
  | refused _ same =>
      apply Describes.quiet last
      intro key
      rw [same]
      exact .refl _
  | admitted => exact absurd rfl (settled _)

theorem Describes.admitted {final : ShardedStore} {keys : List Bytes} {attempt admitted : MutationAttempt}
    {victims : List (Bytes × DataEntry)} (fixed : store.engine.clock.Fixed time)
    (pictures : Pictures store time keys attempt.beforeEntries) (clean : attempt.evictedEntries = []) (confines : store.Confines middle keys)
    (admits : Admits middle after attempt admitted keys victims) (looked : after.Confines final []) :
    Describes time store final [⟨derivedEffects keys attempt.beforeEntries victims (after.view time)⟩]
      [admitted.intoRollback] := by
  have last : after.engine.clock.Fixed time := admits.evicts.touches.leads.fixed (confines.fixed fixed)
  have same : final.view time = after.view time := funext fun key => looked.view last List.not_mem_nil
  refine ⟨looked.fixed last, ?_, ?_⟩
  · rw [List.flatMap_singleton, same]
    exact admitted_repeats fixed pictures confines admits
  · have undo : undoWrites [admitted.intoRollback] = restoringWrites attempt.beforeEntries victims := by
      rw [undoWrites, List.reverse_singleton, List.flatMap_singleton, MutationAttempt.intoRollback, admits.attempt,
        clean, List.nil_append]
    rw [undo, same]
    exact admitted_reverts fixed pictures confines admits

end Members

section Requests
variable [Platform]

/-- How a verdict describes what was done, once the batch of an admitted mutation is derived. -/
def Verdict.Settled (time : Nat) (keys : List Bytes) (message : String) (store : ShardedStore) :
    Verdict → ShardedStore → Prop
  | .admitted attempt, after => ∃ batch final, concludeAdmitted keys attempt message after = (.ok batch, final) ∧
      Describes time store final [batch] [attempt.intoRollback]
  | _, after => Describes time store after [] []

theorem undertake_settles {α : Type} {keys : List Bytes} {program : StoreM α} (confined : Confined keys program)
    {time : Nat} {store : ShardedStore} (fixed : store.engine.clock.Fixed time) (message : String) :
    (undertake keys program store).1.2.2.Settled time keys message store (undertake keys program store).2 := by
  have course := undertake_course confined store fixed
  cases ran : undertake keys program store with
  | mk result after =>
      obtain ⟨attempt, answer, verdict⟩ := result
      rw [ran] at course
      obtain ⟨pictures, clean, undertaking⟩ := course
      cases verdict with
      | unchanged =>
          apply Describes.undertaken fixed undertaking
          intro _ same
          cases same
      | refused error =>
          apply Describes.undertaken fixed undertaking
          intro _ same
          cases same
      | admitted admission =>
          cases undertaking with
          | admitted confines changed admits =>
              obtain ⟨final, concluded, looked⟩ :=
                concludeAdmitted_ok fixed pictures clean confines changed admits message
              exact ⟨_, final, concluded, .admitted fixed pictures clean confines admits looked⟩

theorem prepareObpSet_describes {time : Nat} (key value : Bytes) {store : ShardedStore}
    (fixed : store.engine.clock.Fixed time) :
    ∃ prepared after, prepareObpSet key value store = (.ok prepared, after) ∧
      Describes time store after prepared.batches prepared.rollbacks := by
  have confined : Confined [key] (ShardedStore.perform (.set key (.blob value) none)) :=
    .perform (List.Subset.refl _)
  have settled := undertake_settles confined fixed "OBP committed effect derivation failed after admission"
  rw [prepareObpSet_eq]
  simp only [bind, StateT.bind]
  cases undertaken : undertake [key] (ShardedStore.perform (.set key (.blob value) none)) store with
  | mk result after =>
      obtain ⟨attempt, outcome, verdict⟩ := result
      rw [undertaken] at settled
      cases verdict with
      | unchanged => exact ⟨_, _, rfl, settled⟩
      | refused error => exact ⟨_, _, rfl, settled⟩
      | admitted admission =>
          obtain ⟨batch, final, concluded, describes⟩ := settled
          simp only [concludeObpSet, bind, StateT.bind, concluded]
          exact ⟨_, _, rfl, describes⟩

theorem prepareObpDelete_describes {time : Nat} (key : Bytes) {store : ShardedStore}
    (fixed : store.engine.clock.Fixed time) :
    Describes time store (prepareObpDelete key store).2 (prepareObpDelete key store).1.batches
      (prepareObpDelete key store).1.rollbacks := by
  have pictures := beginMutation_pictures store fixed [key]
  have begun := (beginMutation_confines store [key]).mono (List.nil_subset [key])
  have confined : Confined [key] (ShardedStore.perform (.delete key)) := .perform (List.Subset.refl _)
  simp only [prepareObpDelete, bind, StateT.bind]
  cases beginning : beginMutation [key] store with
  | mk attempt middle =>
      change Pictures store time [key] (beginMutation [key] store).1.beforeEntries at pictures
      change store.Confines (beginMutation [key] store).2 [key] at begun
      have clean : (beginMutation [key] store).1.evictedEntries = [] := rfl
      rw [beginning] at pictures begun clean
      have looked (other : Bytes) : middle.view time other = store.view time other := by
        have same := (beginMutation_confines store [key]).view fixed (List.not_mem_nil (a := other))
        change (beginMutation [key] store).2.view time other = _ at same
        rw [beginning] at same
        exact same
      have writes := deleteBytes_writes middle key
      have ran := begun.trans (confined middle (begun.fixed fixed).nondecreasing)
      have answer := middle.engine.delete_fst key
      have last := ran.fixed fixed
      have gone : (ShardedStore.perform (.delete key) middle).2.view time key = none := by
        have shown := congrFun (writes.view time (begun.fixed fixed).upto) key
        rw [visible, Expiring.replay_cons, Expiring.replay_nil, Function.update_self] at shown
        exact shown
      change (ShardedStore.perform (.delete key) middle).1 = _ at answer
      dsimp only
      cases deleting : ShardedStore.perform (.delete key) middle with
      | mk deleted after =>
          rw [deleting] at ran answer last gone
          cases deleted with
          | false =>
              change Describes time store after [] []
              apply Describes.quiet last
              intro other
              by_cases here : other = key
              · have absent : store.view time key = none := by
                  rw [(begun.fixed fixed).now] at answer
                  have nothing := Option.isNone_iff_eq_none.mp (Option.isSome_eq_false_iff.mp answer.symm)
                  rw [← looked key, ShardedStore.view, OnyxEngine.view, ← shown_fresh le_rfl, nothing]
                  rfl
                rw [here, absent, gone]
                exact .refl _
              · exact .inl (ran.view fixed (fun member => here (List.mem_singleton.mp member))).symm
          | true =>
              change Describes time store after [⟨[.delete key]⟩] [attempt.intoRollback]
              refine ⟨last, ?_, ?_⟩
              · apply repeats_of_uniform (visible_view store.engine time)
                · intro write member
                  rw [List.mem_singleton.mp member]
                  exact gone.symm
                · intro other unwritten
                  exact .inl (ran.view fixed unwritten).symm
              · have undo : undoWrites [attempt.intoRollback] = restoringWrites attempt.beforeEntries [] := by
                  rw [undoWrites, List.reverse_singleton, List.flatMap_singleton, MutationAttempt.intoRollback, clean]
                rw [undo]
                exact admitted_reverts fixed pictures ran (.unchanged (OnyxEngine.Touches.refl _ _) attempt [key])

section Baselines
variable {property : Bytes → Option DataEntry → Prop} {baseline : Baseline}

omit [Platform] in
theorem note_images (holds : ∀ key image, baseline.images.lookup key = some image → property key image) {key : Bytes}
    {image : Option DataEntry} (shows : key ∉ baseline.changedKeys → property key image) :
    ∀ other slot, (baseline.note key image).images.lookup other = some slot → property other slot := by
  unfold Baseline.note
  split
  · exact holds
  next fresh =>
    intro other slot found
    by_cases here : other = key
    · rw [here, AList.lookup_insert] at found
      rw [here, ← Option.some.inj found]
      exact shows fresh
    · rw [AList.lookup_insert_ne here] at found
      exact holds other slot found

omit [Platform] in
theorem noteAffected_images (holds : ∀ key image, baseline.images.lookup key = some image → property key image)
    {keys : List Bytes} {before : Images}
    (shows : ∀ key ∈ keys, key ∉ baseline.changedKeys → property key ((before.lookup key).getD none)) :
    ∀ key image, (baseline.noteAffected keys before).images.lookup key = some image → property key image := by
  induction keys generalizing baseline with
  | nil => exact holds
  | cons key keys rest =>
      apply rest (note_images holds (shows key List.mem_cons_self))
      intro other member unnoted
      rw [mem_note, not_or] at unnoted
      exact shows other (List.mem_cons_of_mem key member) unnoted.2

omit [Platform] in
theorem noteEvicted_images (holds : ∀ key image, baseline.images.lookup key = some image → property key image)
    {evicted : List (Bytes × DataEntry)}
    (shows : ∀ entry ∈ evicted, entry.1 ∉ baseline.changedKeys → property entry.1 (some entry.2)) :
    ∀ key image, (baseline.noteEvicted evicted).images.lookup key = some image → property key image := by
  induction evicted generalizing baseline with
  | nil => exact holds
  | cons entry evicted rest =>
      apply rest (note_images holds (shows entry List.mem_cons_self))
      intro other member unnoted
      rw [mem_note, not_or] at unnoted
      exact shows other (List.mem_cons_of_mem entry member) unnoted.2

end Baselines

/-- How far a transaction has come: it noted what the keys it touched had shown before it, and it touched no other. -/
structure Tracked (time : Nat) (base : ShardedStore) (baseline : Baseline) (store : ShardedStore) : Prop where
  fixed : store.engine.clock.Fixed time
  imaged : Imaged baseline.changedKeys baseline.images
  shows : ∀ key image, baseline.images.lookup key = some image → shown time image = base.view time key
  others : ∀ key, key ∉ baseline.changedKeys → store.view time key = base.view time key

section Tracking
variable {time : Nat} {base store middle after : ShardedStore} {baseline : Baseline} {keys : List Bytes}
  {attempt admission : MutationAttempt} {victims : List (Bytes × DataEntry)}

omit [Platform] in
/-- The keys of a mutation are noted before it. -/
theorem Tracked.affected (tracked : Tracked time base baseline store)
    (pictures : Pictures store time keys attempt.beforeEntries) :
    Tracked time base (baseline.noteAffected keys attempt.beforeEntries) store := by
  refine ⟨tracked.fixed, noteAffected_imaged tracked.imaged keys _, ?_, ?_⟩
  · apply noteAffected_images tracked.shows
    intro key inside unnoted
    rw [← tracked.others key unnoted]
    exact pictures_slot pictures inside
  · intro key outside
    rw [mem_noteAffected, not_or] at outside
    exact tracked.others key outside.2

omit [Platform] in
/-- A mutation that is not admitted changes noted keys only. -/
theorem Tracked.undertaken {verdict : Verdict} (tracked : Tracked time base baseline store)
    (touched : ∀ key ∈ keys, key ∈ baseline.changedKeys)
    (undertaking : Undertaking time keys store attempt verdict after)
    (settled : ∀ admitted, verdict ≠ .admitted admitted) : Tracked time base baseline after := by
  refine ⟨undertaking.leads.fixed tracked.fixed, tracked.imaged, tracked.shows, ?_⟩
  intro key outside
  rw [← tracked.others key outside]
  cases undertaking with
  | unchanged confines same => exact confines.view tracked.fixed (fun inside => outside (touched key inside))
  | refused _ same => exact congrFun same key
  | admitted => exact absurd rfl (settled _)

omit [Platform] in
theorem Tracked.admitted (tracked : Tracked time base baseline store)
    (touched : ∀ key ∈ keys, key ∈ baseline.changedKeys) (clean : attempt.evictedEntries = [])
    (confines : store.Confines middle keys) (admits : Admits middle after attempt admission keys victims) :
    Tracked time base (baseline.noteEvicted admission.evictedEntries) after := by
  have taken : admission.evictedEntries = victims := by rw [admits.attempt, clean, List.nil_append]
  rw [taken]
  refine ⟨admits.evicts.touches.leads.fixed (confines.fixed tracked.fixed), noteEvicted_imaged tracked.imaged _, ?_, ?_⟩
  · apply noteEvicted_images tracked.shows
    intro victim listed unnoted
    rw [← tracked.others victim.1 unnoted, ← shownImage_slot]
    exact (evicted_view tracked.fixed confines admits listed).2
  · intro key outside
    rw [mem_noteEvicted, not_or] at outside
    rw [← tracked.others key outside.2]
    exact admitted_view tracked.fixed confines admits (fun inside => outside.2 (touched key inside)) outside.1

end Tracking

end Requests

section Commands
variable [Platform] [Process]

theorem prepareCommandOperation_describes {time : Nat} (arguments : List String) {store : ShardedStore}
    (fixed : store.engine.clock.Fixed time) :
    ∃ prepared after, prepareCommandOperation arguments store = (.ok prepared, after) ∧
      Describes time store after prepared.batch.toList prepared.rollback.toList := by
  have settled := undertake_settles (executeServerCommand_confined arguments) fixed derivationFailed
  rw [prepareCommandOperation_eq]
  simp only [bind, StateT.bind]
  cases undertaken : undertake (affectedKeys arguments) (executeServerCommand arguments) store with
  | mk result after =>
      obtain ⟨attempt, outcome, verdict⟩ := result
      rw [undertaken] at settled
      cases verdict with
      | unchanged => exact ⟨_, _, rfl, settled⟩
      | refused error => exact ⟨_, _, rfl, settled⟩
      | admitted admission =>
          obtain ⟨batch, final, concluded, describes⟩ := settled
          simp only [concludeCommand, bind, StateT.bind, concluded]
          exact ⟨_, _, rfl, describes⟩

theorem prepareCommand_describes {time : Nat} (arguments : List String) {store : ShardedStore}
    (fixed : store.engine.clock.Fixed time) :
    ∃ prepared after, prepareCommand arguments store = (.ok prepared, after) ∧
      Describes time store after prepared.batches prepared.rollbacks := by
  obtain ⟨prepared, after, operation, describes⟩ := prepareCommandOperation_describes arguments fixed
  have paired := prepareCommandOperation_paired operation
  simp only [prepareCommand, bind, StateT.bind, operation]
  obtain ⟨outcome, batch, rollback⟩ := prepared
  cases batch with
  | none =>
      cases rollback with
      | none => exact ⟨_, _, rfl, describes⟩
      | some undo => cases paired
  | some batch =>
      cases rollback with
      | none => cases paired
      | some undo => exact ⟨_, _, rfl, describes⟩

theorem prepareCommands_describes {time : Nat} {base : ShardedStore} (commands : List (List String))
    {prepared : PreparedMasterCommit} {outcomes : List CommandOutcome} {store : ShardedStore}
    (described : Describes time base store prepared.batches prepared.rollbacks) :
    ∃ finished after, prepareCommands commands prepared outcomes store = (.ok finished, after) ∧
      Describes time base after finished.batches finished.rollbacks := by
  induction commands generalizing prepared outcomes store with
  | nil => exact ⟨_, _, rfl, described⟩
  | cons arguments commands rest =>
      obtain ⟨next, middle, operation, describes⟩ := prepareCommandOperation_describes arguments described.fixed
      simp only [prepareCommands, bind, StateT.bind, operation]
      exact rest (described.trans describes)

theorem prepareMember_tracked {time : Nat} {base store : ShardedStore} {baseline : Baseline}
    (tracked : Tracked time base baseline store) (arguments : List String) :
    Tracked time base (prepareMember baseline arguments store).1.2 (prepareMember baseline arguments store).2 := by
  have confined := executeServerCommand_confined arguments
  cases writing : isWriteCommand (argument arguments 0) with
  | false =>
      have ran := confined store tracked.fixed.nondecreasing
      rw [affectedKeys_nil writing] at ran
      simp only [prepareMember, writing, Bool.not_false, if_true]
      refine ⟨ran.fixed tracked.fixed, tracked.imaged, tracked.shows, ?_⟩
      intro key outside
      exact (ran.view tracked.fixed List.not_mem_nil).trans (tracked.others key outside)
  | true =>
      have course := undertake_course confined store tracked.fixed
      rw [prepareMember_write baseline writing]
      simp only [bind, StateT.bind]
      cases ran : undertake (affectedKeys arguments) (executeServerCommand arguments) store with
      | mk result after =>
          obtain ⟨attempt, outcome, verdict⟩ := result
          rw [ran] at course
          obtain ⟨pictures, clean, undertaking⟩ := course
          have affected := tracked.affected pictures
          have touched : ∀ key ∈ affectedKeys arguments,
              key ∈ (baseline.noteAffected (affectedKeys arguments) attempt.beforeEntries).changedKeys :=
            fun key inside => (mem_noteAffected baseline _ _ key).mpr (.inl inside)
          cases verdict with
          | unchanged =>
              apply affected.undertaken touched undertaking
              intro _ same
              cases same
          | refused error =>
              apply affected.undertaken touched undertaking
              intro _ same
              cases same
          | admitted admission =>
              cases undertaking with
              | admitted confines changed admits => exact affected.admitted touched clean confines admits

theorem prepareMembers_tracked {time : Nat} {base : ShardedStore} (commands : List (List String)) {store : ShardedStore}
    {baseline : Baseline} (tracked : Tracked time base baseline store) :
    Tracked time base (prepareMembers commands baseline store).1.2 (prepareMembers commands baseline store).2 := by
  induction commands generalizing baseline store with
  | nil => exact tracked
  | cons arguments commands rest => exact rest (prepareMember_tracked tracked arguments)

omit [Platform] [Process] in
/-- The batch and the rollback of a transaction that has come to its end. -/
theorem Tracked.describes {time : Nat} {base store final : ShardedStore} {baseline : Baseline}
    (tracked : Tracked time base baseline store) (looked : store.Confines final []) :
    let effects := derivedEffects (sortKeys baseline.changedKeys) baseline.images [] (store.view time)
    (effects = [] → Describes time base final [] []) ∧
      Describes time base final [⟨effects⟩] [.fromBaseline baseline.images] := by
  have last := looked.fixed tracked.fixed
  have same : final.view time = store.view time := funext fun key => looked.view tracked.fixed List.not_mem_nil
  have pictured {key : Bytes} (noted : key ∈ baseline.changedKeys) :
      shownImage time (imageShown baseline.images key) = base.view time key := by
    cases found : baseline.images.lookup key with
    | none => exact absurd noted ((tracked.imaged key).mp found)
    | some image =>
        rw [imageShown, found, Option.getD_some, shownImage_slot]
        exact tracked.shows key image found
  have equal {key : Bytes} (noted : key ∈ baseline.changedKeys)
      (alike : imageBeq (imageShown baseline.images key) (store.view time key) = true) :
      Alike (base.view time key) (store.view time key) := by
    have lively := Alike.live (.inr alike) time
    rw [pictured noted, shownImage_view] at lively
    exact lively
  have untouched {key : Bytes} (outside : key ∉ sortKeys baseline.changedKeys) :
      Alike (base.view time key) (store.view time key) := by
    rw [sortKeys_mem] at outside
    exact .inl (tracked.others key outside).symm
  have spared : ∀ key ∈ sortKeys baseline.changedKeys, key ∉ ([] : List Bytes) := fun _ _ => List.not_mem_nil
  refine ⟨?_, last, ?_, ?_⟩
  · intro nothing
    apply Describes.quiet last
    intro key
    rw [same]
    by_cases inside : key ∈ sortKeys baseline.changedKeys
    · exact equal ((sortKeys_mem _ _).mp inside) ((effectsBetween_nil _ _ _).mp nothing key inside)
    · exact untouched inside
  · rw [List.flatMap_singleton, same]
    apply repeats_of_uniform (visible_view base.engine time)
    · intro write member
      rw [(effectsBetween_writes spared member).2]
      exact shownImage_view store time write.1
    · intro key unwritten
      by_cases inside : key ∈ sortKeys baseline.changedKeys
      · exact equal ((sortKeys_mem _ _).mp inside) (effectsBetween_unwritten spared inside unwritten)
      · exact untouched inside
  · have undo : undoWrites [.fromBaseline baseline.images] = restoringWrites baseline.images [] := by
      rw [undoWrites, List.reverse_singleton, List.flatMap_singleton, MutationRollback.fromBaseline]
    rw [undo, same]
    apply reverts_of_uniform (visible_view store.engine time)
    · intro write member
      rw [restoringWrites, List.filter_nil, entryWrites, List.map_nil, List.append_nil] at member
      obtain ⟨⟨key, image⟩, listed, rfl⟩ := List.mem_map.mp member
      change shownImage time (image.map PersistentEntry.ofDataEntry) = base.view time key
      rw [shownImage_slot]
      exact tracked.shows key image (AList.mem_lookup_iff.mpr listed)
    · intro key unwritten
      rw [restoringWrites, List.map_append, List.mem_append, not_or, List.map_map] at unwritten
      exact .inl (tracked.others key ((tracked.imaged key).mp (AList.lookup_eq_none.mpr unwritten.1))).symm

theorem prepareTransaction_describes {time : Nat} (commands : List (List String)) {store : ShardedStore}
    (fixed : store.engine.clock.Fixed time) :
    Describes time store (prepareTransaction commands store).2 (prepareTransaction commands store).1.batches
      (prepareTransaction commands store).1.rollbacks := by
  have start : Tracked time store .empty store := by
    refine ⟨fixed, ?_, ?_, fun _ _ => rfl⟩
    · intro key
      simp [Baseline.empty]
    · intro key image found
      rw [Baseline.empty, AList.lookup_empty] at found
      cases found
  have tracked := prepareMembers_tracked commands start
  simp only [prepareTransaction, bind, StateT.bind]
  cases ran : prepareMembers commands .empty store with
  | mk result middle =>
      obtain ⟨results, baseline⟩ := result
      rw [ran] at tracked
      have looked := derive_confines middle (sortKeys baseline.changedKeys) baseline.images []
      have effects := derive_effects middle (sortKeys baseline.changedKeys) baseline.images [] tracked.fixed
      dsimp only
      cases derived : derive (sortKeys baseline.changedKeys) baseline.images [] middle with
      | mk batch after =>
          rw [derived] at looked effects
          obtain ⟨quiet, describes⟩ := tracked.describes looked
          cases batch with
          | none =>
              apply quiet
              by_contra some
              rw [if_neg some] at effects
              cases effects
          | some batch =>
              split at effects
              · cases effects
              · cases effects
                exact describes

/-- Every request is prepared, with batches and rollbacks that describe what it did. -/
theorem prepareRequest_describes {time : Nat} (request : MasterCommitOperation) {store : ShardedStore}
    (fixed : store.engine.clock.Fixed time) :
    ∃ prepared after, prepareRequest request store = (.ok prepared, after) ∧
      Describes time store after prepared.batches prepared.rollbacks := by
  cases request with
  | command arguments => exact prepareCommand_describes arguments fixed
  | commandGroup commands => exact prepareCommands_describes commands (.quiet fixed (fun _ => .refl _))
  | transaction commands => exact ⟨_, _, rfl, prepareTransaction_describes commands fixed⟩
  | obpSet key value => exact prepareObpSet_describes key value fixed
  | obpDelete key => exact ⟨_, _, rfl, prepareObpDelete_describes key fixed⟩

omit [Process] in
theorem applyBatches_writes (batches : List CommittedBatch) (store : ShardedStore) :
    Writes store (batches.foldl applyCommittedBatch store) (batches.flatMap batchWrites) := by
  induction batches generalizing store with
  | nil => exact Writes.refl store
  | cons batch batches rest => exact (applyCommittedBatch_writes store batch).trans (rest _)

/-- A request that is prepared at a clock that stands still leaves batches that turn any store with the content
before it into one with the content after it; without a batch the content is as before. -/
theorem committed_batches_coherent {time : Nat} {store : ShardedStore} (fixed : store.engine.clock.Fixed time)
    (request : MasterCommitOperation) :
    ∃ prepared after, prepareRequest request store = (.ok prepared, after) ∧
      (∀ copy : ShardedStore, copy.engine.clock.Fixed time → copy.view time = store.view time →
        ∀ key, Alike ((prepared.batches.foldl applyCommittedBatch copy).view time key) (after.view time key)) ∧
      (prepared.batches = [] → ∀ key, Alike (store.view time key) (after.view time key)) := by
  obtain ⟨prepared, after, preparation, describes⟩ := prepareRequest_describes request fixed
  refine ⟨prepared, after, preparation, ?_, ?_⟩
  · intro copy standing same key
    rw [(applyBatches_writes prepared.batches copy).view time standing.upto, same]
    exact describes.repeats key
  · intro none key
    have quiet := describes.repeats key
    rw [none, List.flatMap_nil, Expiring.replay_nil] at quiet
    rw [← shownImage_view store time key]
    exact quiet

end Commands

/-- A transaction that writes, changes and deletes on an empty store. -/
theorem committed_batches_coherent_transaction :
    letI := Reference.platform (fun _ => .error "unsupported")
    letI := startedProcess
    ∃ prepared after, prepareRequest (.transaction [["SET", "a", "1"], ["APPEND", "a", "2"], ["DEL", "b"]])
        (emptyServer 0).store = (.ok prepared, after) ∧
      (∀ copy : ShardedStore, copy.engine.clock.Fixed 0 → copy.view 0 = (emptyServer 0).store.view 0 →
        ∀ key, Alike ((prepared.batches.foldl applyCommittedBatch copy).view 0 key) (after.view 0 key)) ∧
      (prepared.batches = [] → ∀ key, Alike ((emptyServer 0).store.view 0 key) (after.view 0 key)) :=
  letI := Reference.platform (fun _ => .error "unsupported")
  letI := startedProcess
  committed_batches_coherent (fun _ => rfl) _

end OnyxDB.Coordinator
