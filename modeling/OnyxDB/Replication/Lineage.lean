import OnyxDB.Replication.Node

/-! Nodes that follow upstreams, die and start again. An upstream is known by its replication ID, and
its state after a batch is what its batches up to that one make of an empty store. -/

namespace OnyxDB.Replication
open OnyxDB.Library OnyxDB.Engine OnyxDB.Engine.Value OnyxDB.Store OnyxDB.Persistence
  OnyxDB.Persistence.Codec OnyxDB.Persistence.Commit OnyxDB.Persistence.Model
  OnyxDB.Persistence.Record OnyxDB.Persistence.Recovery OnyxDB.Persistence.Snapshot
  OnyxDB.Persistence.Writing OnyxDB.Persistence.Lifecycle

section Model
variable [Platform]

/-- The batches of every upstream, by its replication ID. -/
structure Lineages where
  batches : Nat → List LoggedBatch
  bounded : ∀ replid, (batches replid).length < 2 ^ 64

namespace Lineages

/-- A staging store that holds what its upstream held after the batch of its sequence, and whose
documents `serde_json` reads back. -/
structure Offers (lineages : Lineages) (baseline : Baseline) (now : Nat) : Prop where
  sound : baseline.Sound
  reached : baseline.identity.baselineSequence ≤ (lineages.batches baseline.identity.replid).length
  steady : baseline.staging.engine.clock.Nondecreasing
  passed : baseline.staging.rawEntries.2.engine.clock.now ≤ now
  view : ∀ time, baseline.staging.rawEntries.2.engine.clock.now ≤ time → baseline.staging.view time =
    visible time (content (lineages.batches baseline.identity.replid) baseline.identity.baselineSequence)

/-- The `sequence`-th batch of an upstream. -/
def Sends (lineages : Lineages) (replid sequence : Nat) (batch : CommittedBatch) : Prop :=
  ∃ logged, (lineages.batches replid)[sequence - 1]? = some logged ∧ logged.batch = batch

def upstreams (lineages : Lineages) : Upstreams := ⟨lineages.Sends, lineages.Offers⟩

end Lineages

/-- The disk, and the process if there is one. `clock` is the wall clock while no process runs. -/
structure ReplicaSystem where
  directory : ReplicaDirectory
  clock : Clock
  process : Option Node

inductive SystemStep (lineages : Lineages) : ReplicaSystem → ReplicaSystem → Prop where
  | run {system : ReplicaSystem} {node after : Node} {directory : ReplicaDirectory} {event : Event}
      (up : system.process = some node)
      (step : NodeStep lineages.upstreams (system.directory, node) event (directory, after)) :
      SystemStep lineages system { system with directory, process := some after }
  | crash {system : ReplicaSystem} {node : Node} (up : system.process = some node) :
      SystemStep lineages system { system with
        clock := node.server.store.engine.clock
        process := none }
  | wait {system : ReplicaSystem} {clock : Clock} (down : system.process = none)
      (later : system.clock.Leads clock) : SystemStep lineages system { system with clock }
  /-- The process dies during recovery, after the active binlog has been cut back and some of the
  covered segments have been removed. -/
  | crashInRecovery {system : ReplicaSystem} {store : ShardedStore} {result : Recovered}
      {removed : List (Nat × Bytes)} {segments : Catalog Bytes} (down : system.process = none)
      (same : store.engine.clock = system.clock)
      (accepted : loadDataFromPaths store system.directory.toDirectory = .ok result)
      (split : system.directory.segments.entries = removed ++ segments.entries)
      (covered : ∀ segment ∈ removed, segment.1 ≤ result.state.snapshotWatermark) :
      SystemStep lineages system { system with
        directory := { system.directory with
          binlog := system.directory.binlog.map validPart
          segments } }
  /-- The process dies after recovery, before a new marker is in place. -/
  | crashInStartup {system : ReplicaSystem} {store : ShardedStore} {result : Recovered}
      (temporary : Option Bytes) (down : system.process = none)
      (same : store.engine.clock = system.clock)
      (accepted : loadDataFromPaths store system.directory.toDirectory = .ok result) :
      SystemStep lineages system { system with
        directory := { system.directory with
          toDirectory := result.directory
          replicaStateTemp := temporary } }
  /-- The node starts, as a replica or as a master. -/
  | start {system : ReplicaSystem} {store : ShardedStore} {result : Recovered}
      {configuredAsReplica : Bool} {identity : Option ReplicaIdentity} {marker : Option Bytes}
      (down : system.process = none) (same : store.engine.clock = system.clock)
      (accepted : loadDataFromPaths store system.directory.toDirectory = .ok result)
      (startup : prepareReplicationStartup system.directory.replicaState result.state.snapshotWatermark
        configuredAsReplica = .ok (identity, marker)) :
      SystemStep lineages system { system with
        directory := { system.directory with toDirectory := result.directory, replicaState := marker }
        process := some (.start
          ⟨result.store, result.state.lastSequence, result.state.snapshotWatermark, false, none⟩
          identity configuredAsReplica) }

/-- Everything that can come of a directory that has never been a replica's. -/
inductive Reachable (lineages : Lineages) (clock : Clock) : ReplicaSystem → Prop where
  | start (directory : ReplicaDirectory) (unmarked : directory.replicaState = none) :
      Reachable lineages clock ⟨directory, clock, none⟩
  | step {system after : ReplicaSystem} (before : Reachable lineages clock system)
      (next : SystemStep lineages system after) : Reachable lineages clock after

end Model

section Histories
variable [Platform]

theorem Lineages.Offers.later {lineages : Lineages} {baseline : Baseline} {now later : Nat}
    (offers : lineages.Offers baseline now) (order : now ≤ later) : lineages.Offers baseline later :=
  ⟨offers.sound, offers.reached, offers.steady, offers.passed.trans order, offers.view⟩

/-- The entries of a baseline describe the content of its upstream. -/
theorem Lineages.Offers.describes {lineages : Lineages} {baseline : Baseline} {now : Nat}
    (offers : lineages.Offers baseline now) :
    Describes baseline.entries (content (lineages.batches baseline.identity.replid)
      baseline.identity.baselineSequence) now := by
  refine ⟨baseline.staging.engine.nodup_snapshotAll, offers.sound.roundTrips, ?_⟩
  intro time after
  have reached := offers.passed.trans after
  have entries := rawEntries_content baseline.staging (offers.steady.upto reached)
  exact entries.trans (offers.view time reached)

/-- A directory that holds nothing but a baseline carries its upstream's batches up to it. -/
theorem Replaced.disk {lineages : Lineages} {baseline : Baseline} {directory : Directory} {now : Nat}
    (replaced : Replaced baseline directory) (offers : lineages.Offers baseline now) :
    Disk directory (lineages.batches baseline.identity.replid) baseline.identity.baselineSequence
      baseline.identity.baselineSequence [] now := by
  obtain ⟨file, found, written⟩ := replaced.snapshot
  refine ⟨replaced.settled, ⟨replaced.cleared.sound _, ?_, ?_⟩, ?_, Or.inr ?_, offers.reached,
    lineages.bounded _⟩
  · rw [replaced.cleared.logs, lastOf_nil, Nat.max_zero]
  · intro recorded
    exact absurd replaced.cleared.logs recorded
  · intro log member
    rw [replaced.cleared.logs] at member
    cases member
  · exact ⟨file, baseline.entries, by rw [found, Option.some_or], written, offers.describes⟩

end Histories

end OnyxDB.Replication
