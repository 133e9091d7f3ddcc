import OnyxDB.Replication.FullSync

/-! A running node and the tasks that change what it follows. The replica task, a promotion and the end
of a compaction each own the write gate while they change the flags and the marker; a task that waits
for the gate has done nothing yet, so the state names the one that owns it and how far it has come.
Reads, snapshot writing and catalog maintenance go on beside it. -/

namespace OnyxDB.Replication
open OnyxDB.Library OnyxDB.Engine OnyxDB.Engine.Value OnyxDB.Store OnyxDB.Persistence
  OnyxDB.Persistence.Codec OnyxDB.Persistence.Commit OnyxDB.Persistence.Model
  OnyxDB.Persistence.Record OnyxDB.Persistence.Recovery OnyxDB.Persistence.Snapshot
  OnyxDB.Persistence.Writing OnyxDB.Persistence.Lifecycle

section State

/-- How far `begin_full_sync_reception` has come. -/
inductive ReceptionStage where
  | entered
  | checked
  | marked
  | unready
  deriving DecidableEq, Repr

/-- How far `persist_and_apply_replica_effect` has come. -/
inductive EffectStage where
  | entered
  | checked
  | accepted
  deriving DecidableEq, Repr

/-- How far `install_full_sync` has come. -/
inductive InstallStage where
  | entered
  | filing (phase : InstallPhase)
  | replaced
  | based
  | named
  deriving DecidableEq, Repr

/-- How far `commit_replica_promotion` has come. -/
inductive PromotionStage where
  | entered
  | checked
  | detached
  | unnamed
  | unready
  | promoted
  deriving DecidableEq, Repr

/-- How far the last part of `compact_owned` has come. -/
inductive FinalizationStage where
  | entered
  | loaded (replid : Nat)
  | marked
  deriving DecidableEq, Repr

/-- The task that owns the write gate. -/
inductive Holder where
  | reception (replid : Nat) (stage : ReceptionStage)
  | effect (sequence : Nat) (batch : CommittedBatch) (stage : EffectStage)
  | install (baseline : Baseline) (stage : InstallStage)
  | promotion (stage : PromotionStage)
  | finalization (watermark : Nat) (stage : FinalizationStage)

/-- The holders that are calls of the replica task. -/
def Holder.OfReplicaTask : Holder → Prop
  | .reception _ _ | .effect _ _ _ | .install _ _ => True
  | .promotion _ | .finalization _ _ => False

/-- The connection of the replica task, `absent` on a node that was started as a master. -/
inductive Link where
  | absent
  | down
  | receiving (replid : Nat)
  | following (replid : Nat)
  deriving DecidableEq, Repr

/-- The memory of a node. `failStopped` tells that fail-stop keeps the visibility gate for good. -/
structure Node where
  server : Server
  acceptingWrites : Bool := true
  failStopped : Bool := false
  replicationReady : Bool
  upstreamReplid : Nat
  promoteToMaster : Bool := false
  stopRequested : Bool := false
  isReplica : Bool
  localReplid : Nat
  link : Link
  holder : Option Holder := none

/-- What a step does that an upstream, or a later promotion, has a part in. -/
inductive Event where
  | quiet
  | accepted (batch : CommittedBatch)
  | applied (batch : CommittedBatch)
  | replaced (baseline : Baseline)
  | readied
  | markedReady (identity : ReplicaIdentity)
  | promoted
  | written (batches : List CommittedBatch)

/-- The steps that only a node that follows an upstream may take. -/
def Event.OfUpstream : Event → Prop
  | .accepted _ | .applied _ | .replaced _ | .readied | .markedReady _ => True
  | .quiet | .promoted | .written _ => False

/-- What the upstreams may send: `sends replid sequence batch` and `offers baseline now`. -/
structure Upstreams where
  sends : Nat → Nat → CommittedBatch → Prop
  offers : Baseline → Nat → Prop

namespace Node

/-- `mark_persistence_failed`, by a task that then gives up the gate. -/
def markPersistenceFailed (node : Node) : Node :=
  { node with acceptingWrites := false, replicationReady := false, holder := none }

/-- `CommitRuntime::enter_fail_stop_with_boundary`. -/
def enterFailStop (node : Node) : Node :=
  { node with failStopped := true, acceptingWrites := false, holder := none }

/-- `enter_persistence_fail_stop_with_boundary`. -/
def enterPersistenceFailStop (node : Node) : Node :=
  { node.enterFailStop with replicationReady := false, stopRequested := true }

/-- The node that `main` starts after recovery. -/
def start (server : Server) (identity : Option ReplicaIdentity) (configuredAsReplica : Bool) : Node where
  server
  replicationReady := identity.isSome
  upstreamReplid := (identity.map ReplicaIdentity.replid).getD 0
  isReplica := configuredAsReplica
  localReplid := (identity.map ReplicaIdentity.replid).getD 0
  link := if configuredAsReplica then .down else .absent

end Node

/-- A marker that is being written may hold anything until it is renamed. -/
def ReplicaDirectory.writeMarker (directory : ReplicaDirectory) (bytes : Bytes) : ReplicaDirectory :=
  { directory with replicaStateTemp := some bytes }

def ReplicaDirectory.renameMarker (directory : ReplicaDirectory) (state : DurableReplicaState) :
    ReplicaDirectory :=
  { directory with replicaState := some (durableReplicaState state), replicaStateTemp := none }

abbrev State := ReplicaDirectory × Node

end State

section Steps

/-- `begin_full_sync_reception`, called when the upstream answers with a full synchronization. -/
inductive ReceptionStep : State → State → Prop where
  | enter {directory : ReplicaDirectory} {node : Node} (replid : Nat) (free : node.holder = none)
      (linked : node.link = .down) :
      ReceptionStep (directory, node)
        (directory, { node with holder := some (.reception replid .entered) })
  | refuse {directory : ReplicaDirectory} {node : Node} {replid : Nat}
      (owned : node.holder = some (.reception replid .entered))
      (refused : node.promoteToMaster = true ∨ node.stopRequested = true ∨
        node.acceptingWrites = false) :
      ReceptionStep (directory, node) (directory, { node with holder := none })
  | check {directory : ReplicaDirectory} {node : Node} {replid : Nat}
      (owned : node.holder = some (.reception replid .entered))
      (unpromoted : node.promoteToMaster = false) (wanted : node.stopRequested = false)
      (accepting : node.acceptingWrites = true) :
      ReceptionStep (directory, node)
        (directory, { node with holder := some (.reception replid .checked) })
  | write {directory : ReplicaDirectory} {node : Node} {replid : Nat} (bytes : Bytes)
      (owned : node.holder = some (.reception replid .checked)) :
      ReceptionStep (directory, node) (directory.writeMarker bytes, node)
  | rename {directory : ReplicaDirectory} {node : Node} {replid : Nat}
      (owned : node.holder = some (.reception replid .checked)) :
      ReceptionStep (directory, node) (directory.renameMarker .installing,
        { node with holder := some (.reception replid .marked) })
  /-- The marker could not be written, or its renaming not be made durable. -/
  | fail {directory : ReplicaDirectory} {node : Node} {replid : Nat}
      (owned : node.holder = some (.reception replid .checked) ∨
        node.holder = some (.reception replid .marked)) :
      ReceptionStep (directory, node) (directory, node.markPersistenceFailed)
  | unready {directory : ReplicaDirectory} {node : Node} {replid : Nat}
      (owned : node.holder = some (.reception replid .marked)) :
      ReceptionStep (directory, node) (directory, { node with
        replicationReady := false
        holder := some (.reception replid .unready) })
  | finish {directory : ReplicaDirectory} {node : Node} {replid : Nat}
      (owned : node.holder = some (.reception replid .unready)) :
      ReceptionStep (directory, node) (directory, { node with
        upstreamReplid := 0
        localReplid := 0
        link := .receiving replid
        holder := none })

/-- `persist_and_apply_replica_effect` with its finalizer, which keeps the commit boundary until the
effect is applied. A rejected append leaves the directory as it was. -/
inductive EffectStep [Platform] (upstreams : Upstreams) : State → Event → State → Prop where
  | enter {directory : ReplicaDirectory} {node : Node} {replid sequence : Nat} {batch : CommittedBatch}
      (free : node.holder = none) (visible : node.failStopped = false)
      (linked : node.link = .following replid) (sent : upstreams.sends replid sequence batch) :
      EffectStep upstreams (directory, node) .quiet
        (directory, { node with holder := some (.effect sequence batch .entered) })
  | refuse {directory : ReplicaDirectory} {node : Node} {sequence : Nat} {batch : CommittedBatch}
      (owned : node.holder = some (.effect sequence batch .entered))
      (refused : node.acceptingWrites = false ∨ node.replicationReady = false ∨
        sequence ≠ node.server.sequence + 1 ∨ 2 ^ 64 ≤ node.server.sequence + 1) :
      EffectStep upstreams (directory, node) .quiet
        (directory, { node with link := .down, holder := none })
  | check {directory : ReplicaDirectory} {node : Node} {sequence : Nat} {batch : CommittedBatch}
      (owned : node.holder = some (.effect sequence batch .entered))
      (accepting : node.acceptingWrites = true) (ready : node.replicationReady = true)
      (next : sequence = node.server.sequence + 1) (room : node.server.sequence + 1 < 2 ^ 64) :
      EffectStep upstreams (directory, node) .quiet
        (directory, { node with holder := some (.effect sequence batch .checked) })
  | accept {directory : ReplicaDirectory} {node : Node} {sequence : Nat} {batch : EncodedBatch}
      (owned : node.holder = some (.effect sequence batch.batch .checked))
      (opened : node.server.active = true) :
      EffectStep upstreams (directory, node) (.accepted batch.batch)
        ({ directory with
            toDirectory := appendBytes directory.toDirectory (framedRecord sequence batch.payload) },
          { node with
            server := { node.server with sequence }
            holder := some (.effect sequence batch.batch .accepted) })
  | reject {directory : ReplicaDirectory} {node : Node} {sequence : Nat} {batch : CommittedBatch}
      (owned : node.holder = some (.effect sequence batch .checked)) :
      EffectStep upstreams (directory, node) .quiet
        (directory, { node.markPersistenceFailed with link := .down })
  /-- The append has an indeterminate outcome: any part of the record may be on disk. -/
  | lose {directory : ReplicaDirectory} {node : Node} {sequence : Nat} {batch : EncodedBatch}
      {written rest : Bytes} (owned : node.holder = some (.effect sequence batch.batch .checked))
      (opened : node.server.active = true)
      (cut : framedRecord sequence batch.payload = written ++ rest) :
      EffectStep upstreams (directory, node) .quiet
        ({ directory with toDirectory := appendBytes directory.toDirectory written },
          { node.enterPersistenceFailStop with link := .down })
  | apply {directory : ReplicaDirectory} {node : Node} {sequence : Nat} {batch : CommittedBatch}
      (owned : node.holder = some (.effect sequence batch .accepted)) :
      EffectStep upstreams (directory, node) (.applied batch)
        (directory, { node with
          server := { node.server with store := applyCommittedBatch node.server.store batch }
          holder := none })
  /-- The guard of an interrupted finalizer enters fail-stop. -/
  | interrupt {directory : ReplicaDirectory} {node : Node} {sequence : Nat} {batch : CommittedBatch}
      {stage : EffectStage} (owned : node.holder = some (.effect sequence batch stage))
      (armed : stage ≠ .entered) :
      EffectStep upstreams (directory, node) .quiet
        (directory, { node.enterPersistenceFailStop with link := .down })

/-- `install_full_sync` on the staging store of a full synchronization. It owns the compaction gate and
the rotation gate as well, so that no compaction is under way. -/
inductive InstallCallStep [Platform] (upstreams : Upstreams) : State → Event → State → Prop where
  | enter {directory : ReplicaDirectory} {node : Node} {baseline : Baseline} (free : node.holder = none)
      (visible : node.failStopped = false) (idle : node.server.compaction = none)
      (linked : node.link = .receiving baseline.identity.replid)
      (identified : baseline.identity.replid ≠ 0)
      (offered : upstreams.offers baseline node.server.store.engine.clock.now) :
      InstallCallStep upstreams (directory, node) .quiet
        (directory, { node with holder := some (.install baseline .entered) })
  | refuse {directory : ReplicaDirectory} {node : Node} {baseline : Baseline}
      (owned : node.holder = some (.install baseline .entered))
      (refused : node.promoteToMaster = true ∨ node.stopRequested = true ∨
        node.acceptingWrites = false) :
      InstallCallStep upstreams (directory, node) .quiet
        (directory, { node with link := .down, holder := none })
  | check {directory : ReplicaDirectory} {node : Node} {baseline : Baseline}
      (owned : node.holder = some (.install baseline .entered))
      (unpromoted : node.promoteToMaster = false) (wanted : node.stopRequested = false)
      (accepting : node.acceptingWrites = true) :
      InstallCallStep upstreams (directory, node) .quiet (directory, { node with
        replicationReady := false
        holder := some (.install baseline (.filing .begun)) })
  | file {directory other : ReplicaDirectory} {node : Node} {baseline : Baseline}
      {phase next : InstallPhase} (owned : node.holder = some (.install baseline (.filing phase)))
      (early : next ≠ .ready) (files : InstallStep baseline (phase, directory) (next, other)) :
      InstallCallStep upstreams (directory, node) .quiet
        (other, { node with holder := some (.install baseline (.filing next)) })
  | mark {directory other : ReplicaDirectory} {node : Node} {baseline : Baseline} {phase : InstallPhase}
      (owned : node.holder = some (.install baseline (.filing phase)))
      (files : InstallStep baseline (phase, directory) (.ready, other)) :
      InstallCallStep upstreams (directory, node) (.markedReady baseline.identity)
        (other, { node with holder := some (.install baseline (.filing .ready)) })
  /-- A flush, a marker or a truncation that has failed and is known to have failed. -/
  | fail {directory : ReplicaDirectory} {node : Node} {baseline : Baseline} {phase : InstallPhase}
      (owned : node.holder = some (.install baseline (.filing phase)))
      (early : phase = .begun ∨ phase = .invalidated ∨ phase = .truncated) :
      InstallCallStep upstreams (directory, node) .quiet
        (directory, { node with link := .down, holder := none })
  /-- Any failure after the truncation, and every indeterminate one. -/
  | lose {directory : ReplicaDirectory} {node : Node} {baseline : Baseline} {phase : InstallPhase}
      (owned : node.holder = some (.install baseline (.filing phase))) :
      InstallCallStep upstreams (directory, node) .quiet
        (directory, { node.enterPersistenceFailStop with link := .down })
  | replace {directory : ReplicaDirectory} {node : Node} {baseline : Baseline}
      (owned : node.holder = some (.install baseline (.filing .ready))) :
      InstallCallStep upstreams (directory, node) (.replaced baseline) (directory, { node with
        server := { node.server with store := node.server.store.replaceAll baseline.entries }
        holder := some (.install baseline .replaced) })
  | base {directory : ReplicaDirectory} {node : Node} {baseline : Baseline}
      (owned : node.holder = some (.install baseline .replaced)) :
      InstallCallStep upstreams (directory, node) .quiet (directory, { node with
        server := { node.server with
          sequence := baseline.identity.baselineSequence
          snapshotWatermark := baseline.identity.baselineSequence }
        holder := some (.install baseline .based) })
  | name {directory : ReplicaDirectory} {node : Node} {baseline : Baseline}
      (owned : node.holder = some (.install baseline .based)) :
      InstallCallStep upstreams (directory, node) .quiet (directory, { node with
        upstreamReplid := baseline.identity.replid
        holder := some (.install baseline .named) })
  | ready {directory : ReplicaDirectory} {node : Node} {baseline : Baseline}
      (owned : node.holder = some (.install baseline .named)) :
      InstallCallStep upstreams (directory, node) .readied (directory, { node with
        replicationReady := true
        localReplid := baseline.identity.replid
        link := .following baseline.identity.replid
        holder := none })

/-- `prepare_replica_promotion`, which asks the replica task to stop, and `commit_replica_promotion`,
which the automatic failover calls alone. -/
inductive PromotionStep : State → Event → State → Prop where
  | prepare {directory : ReplicaDirectory} {node : Node} (free : node.holder = none)
      (ready : node.replicationReady = true) :
      PromotionStep (directory, node) .quiet (directory, { node with stopRequested := true })
  | enter {directory : ReplicaDirectory} {node : Node} (free : node.holder = none)
      (visible : node.failStopped = false) :
      PromotionStep (directory, node) .quiet
        (directory, { node with holder := some (.promotion .entered) })
  | refuse {directory : ReplicaDirectory} {node : Node}
      (owned : node.holder = some (.promotion .entered)) (unready : node.replicationReady = false) :
      PromotionStep (directory, node) .quiet (directory, { node with holder := none })
  | check {directory : ReplicaDirectory} {node : Node}
      (owned : node.holder = some (.promotion .entered)) (ready : node.replicationReady = true) :
      PromotionStep (directory, node) .quiet
        (directory, { node with holder := some (.promotion .checked) })
  | write {directory : ReplicaDirectory} {node : Node} (bytes : Bytes)
      (owned : node.holder = some (.promotion .checked)) :
      PromotionStep (directory, node) .quiet (directory.writeMarker bytes, node)
  | rename {directory : ReplicaDirectory} {node : Node}
      (owned : node.holder = some (.promotion .checked)) :
      PromotionStep (directory, node) .quiet (directory.renameMarker .detached,
        { node with holder := some (.promotion .detached) })
  /-- The flush or the marker has failed. -/
  | fail {directory : ReplicaDirectory} {node : Node}
      (owned : node.holder = some (.promotion .checked) ∨ node.holder = some (.promotion .detached)) :
      PromotionStep (directory, node) .quiet (directory, { node with holder := none })
  | lose {directory : ReplicaDirectory} {node : Node}
      (owned : node.holder = some (.promotion .checked)) :
      PromotionStep (directory, node) .quiet (directory, node.enterPersistenceFailStop)
  | unname {directory : ReplicaDirectory} {node : Node}
      (owned : node.holder = some (.promotion .detached)) :
      PromotionStep (directory, node) .quiet (directory, { node with
        upstreamReplid := 0
        holder := some (.promotion .unnamed) })
  | unready {directory : ReplicaDirectory} {node : Node}
      (owned : node.holder = some (.promotion .unnamed)) :
      PromotionStep (directory, node) .quiet (directory, { node with
        replicationReady := false
        holder := some (.promotion .unready) })
  | promote {directory : ReplicaDirectory} {node : Node}
      (owned : node.holder = some (.promotion .unready)) :
      PromotionStep (directory, node) .quiet (directory, { node with
        promoteToMaster := true
        holder := some (.promotion .promoted) })
  | finish {directory : ReplicaDirectory} {node : Node}
      (owned : node.holder = some (.promotion .promoted)) :
      PromotionStep (directory, node) .promoted (directory, { node with
        isReplica := false
        holder := none })

/-- The end of `compact_owned`, once the snapshot is installed. -/
inductive FinalizationStep : State → Event → State → Prop where
  | enter {directory : ReplicaDirectory} {node : Node} {watermark : Nat} (free : node.holder = none)
      (visible : node.failStopped = false)
      (installed : node.server.compaction = some (.installed watermark)) :
      FinalizationStep (directory, node) .quiet
        (directory, { node with holder := some (.finalization watermark .entered) })
  | load {directory : ReplicaDirectory} {node : Node} {watermark : Nat}
      (owned : node.holder = some (.finalization watermark .entered))
      (followed : node.upstreamReplid ≠ 0) :
      FinalizationStep (directory, node) .quiet (directory, { node with
        holder := some (.finalization watermark (.loaded node.upstreamReplid)) })
  | write {directory : ReplicaDirectory} {node : Node} {watermark replid : Nat} (bytes : Bytes)
      (owned : node.holder = some (.finalization watermark (.loaded replid))) :
      FinalizationStep (directory, node) .quiet (directory.writeMarker bytes, node)
  | rename {directory : ReplicaDirectory} {node : Node} {watermark replid : Nat}
      (owned : node.holder = some (.finalization watermark (.loaded replid))) :
      FinalizationStep (directory, node) (.markedReady ⟨replid, watermark⟩)
        (directory.renameMarker (.ready ⟨replid, watermark⟩),
          { node with holder := some (.finalization watermark .marked) })
  /-- The checkpoint or the marker has failed. -/
  | fail {directory : ReplicaDirectory} {node : Node} {watermark : Nat} {stage : FinalizationStage}
      (owned : node.holder = some (.finalization watermark stage)) :
      FinalizationStep (directory, node) .quiet (directory, { node with
        server := { node.server with compaction := none }
        holder := none })
  /-- The checkpoint has an indeterminate outcome. -/
  | lose {directory : ReplicaDirectory} {node : Node} {watermark : Nat}
      (owned : node.holder = some (.finalization watermark .entered)) :
      FinalizationStep (directory, node) .quiet (directory, { node.enterFailStop with
        server := { node.server with compaction := none } })
  | finish {directory : ReplicaDirectory} {node : Node} {watermark : Nat}
      (owned : (node.holder = some (.finalization watermark .entered) ∧ node.upstreamReplid = 0) ∨
        node.holder = some (.finalization watermark .marked)) :
      FinalizationStep (directory, node) .quiet (directory, { node with
        server := { node.server with snapshotWatermark := watermark, compaction := none }
        holder := none })

/-- The steps of a rollover or a compaction that own the commit boundary: the active binlog is moved
and opened, and a snapshot captured. -/
def Exclusive (server after : Server) : Prop :=
  after.active ≠ server.active ∨ (server.compaction = none ∧ after.compaction ≠ none)

/-- The step that ends a compaction. It is the finalization's. -/
def Finalizes (server after : Server) : Prop :=
  ∃ watermark, server.compaction = some (.installed watermark) ∧ after.compaction = none

/-- `write_snapshot_file` puts the old snapshot back when it cannot rename the new one. -/
def restoreSnapshot (directory : Directory) : Directory :=
  match directory.snapshot with
  | some _ => directory
  | none => { directory with snapshot := directory.snapshotBackup, snapshotBackup := none }

/-- Reads, rollovers, compactions up to their finalization, and catalog maintenance. -/
inductive MaintenanceStep [Platform] : State → State → Prop where
  | exclusive {directory : ReplicaDirectory} {other : Directory} {node : Node} {server : Server}
      (free : node.holder = none) (visible : node.failStopped = false)
      (runs : Runs (directory.toDirectory, node.server) (other, server))
      (ongoing : ¬Finalizes node.server server) :
      MaintenanceStep (directory, node)
        ({ directory with toDirectory := other }, { node with server })
  | shared {directory : ReplicaDirectory} {other : Directory} {node : Node} {server : Server}
      (beside : ∀ baseline stage, node.holder ≠ some (.install baseline stage))
      (runs : Runs (directory.toDirectory, node.server) (other, server))
      (unguarded : ¬Exclusive node.server server) (ongoing : ¬Finalizes node.server server) :
      MaintenanceStep (directory, node)
        ({ directory with toDirectory := other }, { node with server })
  /-- Reads need no gate at all. -/
  | observe {directory : ReplicaDirectory} {node : Node} {store : ShardedStore}
      (ages : node.server.store.engine.Ages store.engine) :
      MaintenanceStep (directory, node)
        (directory, { node with server := { node.server with store } })
  /-- The snapshot could not be written or installed. -/
  | fail {directory : ReplicaDirectory} {node : Node} {compaction : Compaction}
      (writing : node.server.compaction = some compaction)
      (begun : ∀ watermark snapshot, compaction ≠ .captured watermark snapshot)
      (unfinished : ∀ watermark, compaction ≠ .installed watermark) :
      MaintenanceStep (directory, node)
        (directory, { node with server := { node.server with compaction := none } })
  | restore {directory : ReplicaDirectory} {node : Node} {watermark : Nat}
      (displaced : node.server.compaction = some (.displaced watermark)) :
      MaintenanceStep (directory, node)
        ({ directory with toDirectory := restoreSnapshot directory.toDirectory },
          { node with server := { node.server with compaction := none } })

/-- The bytes of a group of records, numbered from `sequence + 1` on. -/
def recordsBytes [Platform] : Nat → List EncodedBatch → Bytes
  | _, [] => []
  | sequence, batch :: group => framedRecord (sequence + 1) batch.payload ++ recordsBytes (sequence + 1) group

/-- The writes of a master. -/
inductive MasterStep [Platform] : State → Event → State → Prop where
  | commit {directory : ReplicaDirectory} {node : Node} (group : List EncodedBatch)
      (free : node.holder = none) (visible : node.failStopped = false) (master : node.isReplica = false)
      (accepting : node.acceptingWrites = true) (opened : node.server.active = true)
      (room : node.server.sequence + group.length < 2 ^ 64) :
      MasterStep (directory, node) (.written (group.map EncodedBatch.batch))
        ({ directory with
            toDirectory := appendBytes directory.toDirectory (recordsBytes node.server.sequence group) },
          { node with server := { node.server with
              store := group.foldl (fun store encoded => applyCommittedBatch store encoded.batch)
                node.server.store
              sequence := node.server.sequence + group.length } })
  | reject {directory : ReplicaDirectory} {node : Node} (free : node.holder = none)
      (visible : node.failStopped = false) (master : node.isReplica = false) :
      MasterStep (directory, node) .quiet (directory, node.markPersistenceFailed)
  /-- The outcome is indeterminate: part of the group may be on disk, and it stays in the store. -/
  | lose {directory : ReplicaDirectory} {node : Node} (group : List EncodedBatch) {written rest : Bytes}
      (free : node.holder = none) (visible : node.failStopped = false) (master : node.isReplica = false)
      (cut : recordsBytes node.server.sequence group = written ++ rest) :
      MasterStep (directory, node) .quiet
        ({ directory with toDirectory := appendBytes directory.toDirectory written },
          { node.enterPersistenceFailStop with server := { node.server with
              store := group.foldl (fun store encoded => applyCommittedBatch store encoded.batch)
                node.server.store } })

/-- What happens without a gate: connections come and go, the periodic synchronization and the shutdown
clear flags, and a task that has given up its gate enters fail-stop. -/
inductive AmbientStep : State → State → Prop where
  | disconnect {directory : ReplicaDirectory} {node : Node} (present : node.link ≠ .absent)
      (between : ∀ holder ∈ node.holder, ¬holder.OfReplicaTask) :
      AmbientStep (directory, node) (directory, { node with link := .down })
  /-- The upstream continues from the last sequence of the replica. -/
  | resume {directory : ReplicaDirectory} {node : Node} (linked : node.link = .down)
      (known : node.localReplid ≠ 0) (between : ∀ holder ∈ node.holder, ¬holder.OfReplicaTask) :
      AmbientStep (directory, node) (directory, { node with link := .following node.localReplid })
  | refuseWrites {directory : ReplicaDirectory} {node : Node} :
      AmbientStep (directory, node) (directory, { node with acceptingWrites := false })
  | unready {directory : ReplicaDirectory} {node : Node} :
      AmbientStep (directory, node) (directory, { node with replicationReady := false })
  | requestStop {directory : ReplicaDirectory} {node : Node} :
      AmbientStep (directory, node) (directory, { node with stopRequested := true })
  | failStop {directory : ReplicaDirectory} {node : Node} (free : node.holder = none)
      (visible : node.failStopped = false) :
      AmbientStep (directory, node) (directory, node.enterFailStop)

inductive NodeStep [Platform] (upstreams : Upstreams) : State → Event → State → Prop where
  | reception {state after : State} (step : ReceptionStep state after) :
      NodeStep upstreams state .quiet after
  | effect {state after : State} {event : Event} (step : EffectStep upstreams state event after) :
      NodeStep upstreams state event after
  | install {state after : State} {event : Event} (step : InstallCallStep upstreams state event after) :
      NodeStep upstreams state event after
  | promotion {state after : State} {event : Event} (step : PromotionStep state event after) :
      NodeStep upstreams state event after
  | finalization {state after : State} {event : Event} (step : FinalizationStep state event after) :
      NodeStep upstreams state event after
  | maintenance {state after : State} (step : MaintenanceStep state after) :
      NodeStep upstreams state .quiet after
  | master {state after : State} {event : Event} (step : MasterStep state event after) :
      NodeStep upstreams state event after
  | ambient {state after : State} (step : AmbientStep state after) : NodeStep upstreams state .quiet after

/-- A run of a node, with the events of its steps. -/
inductive NodeRun [Platform] (upstreams : Upstreams) : State → List Event → State → Prop where
  | refl (state : State) : NodeRun upstreams state [] state
  | step {start state after : State} {events : List Event} {event : Event}
      (run : NodeRun upstreams start events state) (next : NodeStep upstreams state event after) :
      NodeRun upstreams start (events ++ [event]) after

end Steps

end OnyxDB.Replication
