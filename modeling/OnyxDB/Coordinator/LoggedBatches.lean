import OnyxDB.Coordinator.Invariance
import OnyxDB.Coordinator.Transparency

/-! The batches that storage acknowledges over a run. They are numbered without a gap, and what they put was stored and
alive when they were derived. -/

namespace OnyxDB.Coordinator
open OnyxDB.Engine OnyxDB.Engine.Value OnyxDB.Store OnyxDB.Protocol OnyxDB.Command
  OnyxDB.Persistence.Model OnyxDB.Persistence.Commit

section Acknowledging

/-- Storage has acknowledged some batches more, under the sequences that follow. -/
structure Acknowledges (before after : CommitRuntime) (batches : List CommittedBatch) : Prop where
  offset : after.replOffset = before.replOffset + batches.length
  appended : after.appended = before.appended ++ numbered before.replOffset batches
  fits : batches ≠ [] → after.replOffset < 2 ^ 64

theorem acknowledges_none {before after : CommitRuntime} (offset : after.replOffset = before.replOffset)
    (appended : after.appended = before.appended) : Acknowledges before after [] := by
  refine ⟨offset, ?_, fun filled => absurd rfl filled⟩
  rw [appended, numbered, List.append_nil]

theorem mem_numbered {sequence : Nat} {batches : List CommittedBatch} {entry : Nat × CommittedBatch}
    (member : entry ∈ numbered sequence batches) : entry.2 ∈ batches ∧ entry.1 ≤ sequence + batches.length := by
  induction batches generalizing sequence with
  | nil => exact absurd member List.not_mem_nil
  | cons batch batches rest =>
      rw [List.length_cons]
      rcases List.mem_cons.mp member with rfl | later
      · exact ⟨List.mem_cons_self, by simp only; omega⟩
      · obtain ⟨listed, bound⟩ := rest later
        exact ⟨List.mem_cons_of_mem batch listed, by omega⟩

theorem numbered_mem (sequence : Nat) {batches : List CommittedBatch} {batch : CommittedBatch}
    (member : batch ∈ batches) : ∃ entry ∈ numbered sequence batches, entry.2 = batch := by
  induction batches generalizing sequence with
  | nil => exact absurd member List.not_mem_nil
  | cons first batches rest =>
      rcases List.mem_cons.mp member with rfl | later
      · exact ⟨_, List.mem_cons_self, rfl⟩
      · obtain ⟨entry, listed, same⟩ := rest (sequence + 1) later
        exact ⟨entry, List.mem_cons_of_mem _ listed, same⟩

/-- What storage has acknowledged is numbered without a gap, and each batch has a property. -/
def Recounts (property : CommittedBatch → Prop) (runtime : CommitRuntime) : Prop :=
  ∃ first batches, runtime.appended = numbered first batches ∧ runtime.replOffset = first + batches.length ∧
    (batches ≠ [] → runtime.replOffset < 2 ^ 64) ∧ ∀ batch ∈ batches, property batch

theorem recounts_fresh {property : CommittedBatch → Prop} {runtime : CommitRuntime} (fresh : runtime.appended = []) :
    Recounts property runtime :=
  ⟨runtime.replOffset, [], fresh, rfl, fun filled => absurd rfl filled, nofun⟩

theorem Acknowledges.recounts {before after : CommitRuntime} {batches : List CommittedBatch}
    (acknowledges : Acknowledges before after batches) {property : CommittedBatch → Prop}
    (recounts : Recounts property before) (holds : ∀ batch ∈ batches, property batch) : Recounts property after := by
  obtain ⟨first, earlier, appended, offset, fits, held⟩ := recounts
  refine ⟨first, earlier ++ batches, ?_, ?_, ?_, ?_⟩
  · rw [acknowledges.appended, appended, offset, numbered_append]
  · rw [acknowledges.offset, offset, List.length_append, Nat.add_assoc]
  · intro filled
    cases batches with
    | nil =>
        rw [List.append_nil] at filled
        rw [acknowledges.offset, List.length_nil, Nat.add_zero]
        exact fits filled
    | cons batch batches => exact acknowledges.fits (List.cons_ne_nil batch batches)
  · intro batch member
    rcases List.mem_append.mp member with before | new
    · exact held batch before
    · exact holds batch new

section Recounted
variable {property : CommittedBatch → Prop} {runtime : CommitRuntime} {entry : Nat × CommittedBatch}

theorem Recounts.holds (recounts : Recounts property runtime) (member : entry ∈ runtime.appended) :
    property entry.2 := by
  obtain ⟨first, batches, appended, _, _, holds⟩ := recounts
  rw [appended] at member
  exact holds entry.2 (mem_numbered member).1

theorem Recounts.bounded (recounts : Recounts property runtime) (member : entry ∈ runtime.appended) :
    entry.1 < 2 ^ 64 := by
  obtain ⟨first, batches, appended, offset, fits, _⟩ := recounts
  rw [appended] at member
  have room := fits (List.ne_nil_of_mem (mem_numbered member).1)
  have last := (mem_numbered member).2
  omega

end Recounted

variable [Platform]

/-- A concluded group has none of its batches acknowledged, or all of them. -/
theorem concludeGroup_acknowledges (append : AppendBatches) (requests : List MasterCommitOperation)
    (prepared : List PreparedMasterCommit) (server : Server) :
    ∃ batches, batches ⊆ prepared.flatMap PreparedMasterCommit.batches ∧
      Acknowledges server.runtime (concludeGroup append requests prepared server).2.runtime batches := by
  unfold concludeGroup
  obtain ⟨batches, derived⟩ : ∃ batches, prepared.flatMap PreparedMasterCommit.batches = batches := ⟨_, rfl⟩
  simp only [derived]
  cases numbers : numberBatches server.runtime.replOffset batches with
  | none => exact ⟨[], List.nil_subset _, acknowledges_none rfl rfl⟩
  | some entries =>
      obtain ⟨rfl, fits⟩ := numberBatches_some numbers
      cases batches with
      | nil => exact ⟨[], List.nil_subset _, acknowledges_none rfl rfl⟩
      | cons batch batches =>
          have bound := fits (List.cons_ne_nil batch batches)
          have persisted := persistAndPublish_eq append bound
          cases answered : append server.runtime.appended (numbered server.runtime.replOffset (batch :: batches)) with
          | ok _ =>
              rw [answered] at persisted
              rw [numbered] at persisted ⊢
              simp only [persisted, Except.map]
              exact ⟨batch :: batches, List.Subset.refl _, rfl, rfl, fun _ => bound⟩
          | error error =>
              rw [answered] at persisted
              rw [numbered] at persisted ⊢
              simp only [persisted, Except.map]
              split
              · exact ⟨[], List.nil_subset _, acknowledges_none rfl rfl⟩
              · exact ⟨[], List.nil_subset _, acknowledges_none rfl rfl⟩

variable [Process] {property : Bytes → DataEntry → Prop}

/-- What a group has acknowledged logs what was stored. -/
theorem processCommitGroup_acknowledges
    (blobs : ∀ key value, Preserves property (ShardedStore.perform (.set key (.blob value) none)))
    (append : AppendBatches) {requests : List MasterCommitOperation}
    (keeps : ∀ request ∈ requests, ∀ arguments ∈ request.commands,
      Preserves property (executeServerCommand arguments)) {server : Server} (all : server.store.All property) :
    ∃ batches, (∀ batch ∈ batches, Logs property batch) ∧
      Acknowledges server.runtime (processCommitGroup append requests server).2.runtime batches := by
  have none : ∀ pending ∈ ([] : List PreparedMasterCommit), Retains property pending :=
    fun _ member => absurd member List.not_mem_nil
  have prepares := prepareRequests_ensures blobs keeps none server.store all
  unfold processCommitGroup
  split
  · exact ⟨[], nofun, acknowledges_none rfl rfl⟩
  · split
    next ran => exact ⟨[], nofun, acknowledges_none rfl rfl⟩
    next prepared store ran =>
      rw [ran] at prepares
      obtain ⟨batches, derived, acknowledges⟩ :=
        concludeGroup_acknowledges append requests prepared { server with store := store }
      refine ⟨batches, ?_, acknowledges⟩
      intro batch member
      obtain ⟨pending, listed, within⟩ := List.mem_flatMap.mp (derived member)
      exact (prepares.result pending listed).logs batch within

end Acknowledging

section Runs
variable [Platform] [Process]

/-- The servers that an empty store reaches with commands of some kind: requests come in groups that storage may
refuse, connections execute commands and OBP reads themselves, and expired keys are collected. -/
inductive Reaches (allowed : List String → Prop) : Server → Prop where
  | start (clock : Clock) (maxmemoryBytes : Nat) (policy : EvictionPolicy) {runtime : CommitRuntime}
      (fresh : runtime.appended = []) : Reaches allowed ⟨.withMaxmemory clock maxmemoryBytes policy, runtime⟩
  | group {server : Server} (reaches : Reaches allowed server) (append : AppendBatches)
      {requests : List MasterCommitOperation}
      (allows : ∀ request ∈ requests, ∀ arguments ∈ request.commands, allowed arguments) :
      Reaches allowed (processCommitGroup append requests server).2
  | execute {server : Server} (reaches : Reaches allowed server) {arguments : List String}
      (allows : allowed arguments) :
      Reaches allowed { server with store := (executeServerCommand arguments server.store).2 }
  | obpGet {server : Server} (reaches : Reaches allowed server) (key : Bytes) :
      Reaches allowed { server with store := (server.store.getEntry key).2 }
  | collect {server : Server} (reaches : Reaches allowed server) :
      Reaches allowed { server with store := (ShardedStore.perform .gcExpired server.store).2 }

variable {allowed : List String → Prop} {server : Server} {kind : Bytes → OnyxValue → Prop}

/-- A kind of values that the allowed commands keep is the kind of all that is stored and of all that is logged. -/
theorem Reaches.retains (reaches : Reaches allowed server)
    (keeps : ∀ arguments, allowed arguments → Preserves (OnValues kind) (executeServerCommand arguments))
    (blobs : ∀ key value, Preserves (OnValues kind) (ShardedStore.perform (.set key (.blob value) none))) :
    server.store.All (OnValues kind) ∧ Recounts (Logs (OnValues kind)) server.runtime := by
  induction reaches with
  | start clock maxmemoryBytes policy fresh =>
      refine ⟨?_, recounts_fresh fresh⟩
      intro key entry held
      cases held
  | @group server reaches append requests allows retained =>
      have keep : ∀ request ∈ requests, ∀ arguments ∈ request.commands,
          Preserves (OnValues kind) (executeServerCommand arguments) :=
        fun request listed arguments member => keeps arguments (allows request listed arguments member)
      obtain ⟨batches, logs, acknowledges⟩ := processCommitGroup_acknowledges blobs append keep retained.1
      exact ⟨processCommitGroup_all blobs append keep retained.1, acknowledges.recounts retained.2 logs⟩
  | execute reaches allows retained => exact ⟨(keeps _ allows _ retained.1).all, retained.2⟩
  | obpGet reaches key retained =>
      have reads : Preserves (OnValues kind) (ShardedStore.perform (.get key)) := Ensures.reads rfl
      exact ⟨(reads _ retained.1).all, retained.2⟩
  | collect reaches retained =>
      have reads : Preserves (OnValues kind) (ShardedStore.perform .gcExpired) := Ensures.reads rfl
      exact ⟨(reads _ retained.1).all, retained.2⟩

end Runs

end OnyxDB.Coordinator
