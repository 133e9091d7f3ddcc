import OnyxDB.Replication.Lineage
import OnyxDB.Replication.Promotion

/-! The identity a directory claims is never a lie. A READY marker stands in a directory only while
the directory carries a prefix of the upstream's batches and nothing else: it is taken away before
anything else can get in, and it is put back when a baseline or a snapshot of the same upstream is in
place. -/

namespace OnyxDB.Replication
open OnyxDB.Library OnyxDB.Engine OnyxDB.Engine.Value OnyxDB.Store OnyxDB.Persistence
  OnyxDB.Persistence.Codec OnyxDB.Persistence.Commit OnyxDB.Persistence.Model
  OnyxDB.Persistence.Record OnyxDB.Persistence.Recovery OnyxDB.Persistence.Snapshot
  OnyxDB.Persistence.Writing OnyxDB.Persistence.Lifecycle OnyxDB.Persistence.FurtherWrites
  OnyxDB.Persistence.RepeatedRecovery

section Invariant

/-- The marker file holds a state. -/
structure Names (file : Option Bytes) (state : Option DurableReplicaState) : Prop where
  contents : file = state.map durableReplicaState
  valid : ∀ named ∈ state, named.Valid

/-- What holds of every running node. -/
structure Sane (directory : ReplicaDirectory) (node : Node) : Prop where
  steady : node.server.store.engine.clock.Nondecreasing
  settled : Settled directory.toDirectory
  names : directory.malformedSegments = []
  kind : node.isReplica = false → node.promoteToMaster = true ∨ node.link = .absent
  fresh : ∀ replid, node.link = .receiving replid → node.localReplid = 0
  task : ∀ holder ∈ node.holder, holder.OfReplicaTask → node.link ≠ .absent

variable [Platform]

/-- An effect that has been accepted and not been applied. -/
def Lagging (directory : Directory) (server : Server) (batches : List LoggedBatch)
    (batch : CommittedBatch) : Prop :=
  ∃ watermark applied logged, batches[applied]? = some logged ∧ logged.batch = batch ∧
    server.sequence = applied + 1 ∧ Kept directory server batches watermark server.sequence [] ∧
    server.snapshotWatermark ≤ watermark ∧
    ∀ time, server.store.engine.clock.now ≤ time →
      server.store.view time = visible time (content batches applied)

/-- The files and the store of a node that carries the batches of an upstream, by what the owner of the
gate is about. -/
def Carries (lineages : Lineages) (replid : Nat) (directory : Directory) (node : Node) : Prop :=
  match node.holder with
  | none | some (.reception _ _) =>
      (node.failStopped = true ∧ ∃ watermark last tail,
        Kept directory node.server (lineages.batches replid) watermark last tail) ∨
      (node.failStopped = false ∧ ∃ watermark,
        Shown directory node.server (lineages.batches replid) watermark)
  | some (.effect sequence batch .entered) => node.failStopped = false ∧
      lineages.Sends replid sequence batch ∧
      ∃ watermark, Shown directory node.server (lineages.batches replid) watermark
  | some (.effect sequence batch .checked) => node.failStopped = false ∧
      lineages.Sends replid sequence batch ∧ sequence = node.server.sequence + 1 ∧
      ∃ watermark, Shown directory node.server (lineages.batches replid) watermark
  | some (.effect _ batch .accepted) => node.failStopped = false ∧
      Lagging directory node.server (lineages.batches replid) batch
  | some (.install _ _) => False
  | some (.promotion stage) => node.failStopped = false ∧
      (stage = .entered ∨ stage = .checked ∨ stage = .detached) ∧
      ∃ watermark, Shown directory node.server (lineages.batches replid) watermark
  | some (.finalization boundary stage) => node.failStopped = false ∧
      (∀ loaded, stage = .loaded loaded → loaded = replid) ∧
      node.server.compaction = some (.installed boundary) ∧
      ∃ watermark, Shown directory node.server (lineages.batches replid) watermark

/-- A holder that has taken the marker away. -/
def Withdrawn (node : Node) (state : Option DurableReplicaState) : Prop :=
  match node.holder with
  | some (.reception _ .marked) | some (.promotion .detached) => ∀ identity, state ≠ some (.ready identity)
  | some (.reception _ .unready) => (∀ identity, state ≠ some (.ready identity)) ∧
      node.replicationReady = false
  | _ => True

/-- A node that carries the batches of an upstream and follows no other. -/
structure Following (lineages : Lineages) (replid : Nat) (directory : ReplicaDirectory) (node : Node)
    (state : Option DurableReplicaState) : Prop where
  identified : replid ≠ 0 ∧ replid < 2 ^ 64
  marker : ∀ identity, state = some (.ready identity) → identity.replid = replid
  upstream : node.upstreamReplid = replid ∨ node.upstreamReplid = 0
  named : node.replicationReady = true → node.upstreamReplid = replid
  known : node.localReplid = 0 ∨ node.localReplid = replid
  linked : node.link = .down ∨ node.link = .following replid
  replica : node.isReplica = true
  withdrawn : Withdrawn node state
  carries : Carries lineages replid directory.toDirectory node

/-- The files of an installation before the new identity is in place. -/
def Filed (baseline : Baseline) (directory : ReplicaDirectory) : InstallPhase → Prop
  | .begun | .invalidated => True
  | .truncated => directory.binlog.getD [] = []
  | .cleared => Cleared directory.toDirectory
  | .written | .displaced => Cleared directory.toDirectory ∧ ∃ file, directory.snapshotTemp = some file ∧
      snapshotFile baseline.entries baseline.identity.baselineSequence = .ok file
  | .installed => Replaced baseline directory.toDirectory
  | .ready => False

/-- What the owner of the gate may be about on a node that claims no upstream. -/
def Idles (lineages : Lineages) (directory : ReplicaDirectory) (node : Node) : Prop :=
  match node.holder with
  | none | some (.reception _ _) => True
  | some (.effect _ _ stage) => stage = .entered
  | some (.install baseline stage) => node.server.compaction = none ∧
      node.link = .receiving baseline.identity.replid ∧ node.failStopped = false ∧
      lineages.Offers baseline node.server.store.engine.clock.now ∧
      (stage = .entered ∨ ∃ phase, stage = .filing phase ∧ node.promoteToMaster = false ∧
        Filed baseline directory phase)
  | some (.promotion stage) => stage ≠ .checked ∧ stage ≠ .detached ∧
      (stage = .promoted → node.promoteToMaster = true)
  | some (.finalization _ stage) => stage = .entered

/-- A node that claims no upstream. Its store and its directory may hold anything. -/
structure Unclaimed (lineages : Lineages) (directory : ReplicaDirectory) (node : Node)
    (state : Option DurableReplicaState) : Prop where
  marker : ∀ identity, state ≠ some (.ready identity)
  unnamed : node.upstreamReplid = 0
  unready : node.replicationReady = true → node.holder = some (.promotion .unnamed)
  idles : Idles lineages directory node

/-- The memory of a node between the new identity and the end of the installation. -/
def Arriving (lineages : Lineages) (baseline : Baseline) (node : Node) : InstallStage → Prop
  | .filing phase => phase = .ready ∧ node.upstreamReplid = 0
  | .replaced => node.upstreamReplid = 0 ∧
      ∀ time, node.server.store.engine.clock.now ≤ time → node.server.store.view time = visible time
        (content (lineages.batches baseline.identity.replid) baseline.identity.baselineSequence)
  | .based => node.upstreamReplid = 0 ∧
      node.server.sequence = baseline.identity.baselineSequence ∧
      node.server.snapshotWatermark = baseline.identity.baselineSequence ∧
      ∀ time, node.server.store.engine.clock.now ≤ time → node.server.store.view time = visible time
        (content (lineages.batches baseline.identity.replid) baseline.identity.baselineSequence)
  | .named => node.upstreamReplid = baseline.identity.replid ∧
      node.server.sequence = baseline.identity.baselineSequence ∧
      node.server.snapshotWatermark = baseline.identity.baselineSequence ∧
      ∀ time, node.server.store.engine.clock.now ≤ time → node.server.store.view time = visible time
        (content (lineages.batches baseline.identity.replid) baseline.identity.baselineSequence)
  | .entered => False

/-- A node whose directory has taken over a baseline. -/
structure Installed (lineages : Lineages) (baseline : Baseline) (stage : InstallStage)
    (directory : ReplicaDirectory) (node : Node) (state : Option DurableReplicaState) : Prop where
  holder : node.holder = some (.install baseline stage)
  marker : state = some (.ready baseline.identity)
  offers : lineages.Offers baseline node.server.store.engine.clock.now
  disk : Disk directory.toDirectory (lineages.batches baseline.identity.replid)
    baseline.identity.baselineSequence baseline.identity.baselineSequence []
    node.server.store.engine.clock.now
  cleared : directory.segments.entries = []
  idle : node.server.compaction = none
  running : node.failStopped = false
  unready : node.replicationReady = false
  linked : node.link = .receiving baseline.identity.replid
  unpromoted : node.promoteToMaster = false
  arriving : Arriving lineages baseline node stage

/-- What a running node and its directory claim, and why it is true. -/
def Stands (lineages : Lineages) (directory : ReplicaDirectory) (node : Node) : Prop :=
  ∃ state, Names directory.replicaState state ∧
    (Unclaimed lineages directory node state ∨
      (∃ replid, Following lineages replid directory node state) ∨
      ∃ baseline stage, Installed lineages baseline stage directory node state)

/-- A directory whose marker, if it names an upstream, is true. -/
def Truthful (lineages : Lineages) (directory : ReplicaDirectory) (now : Nat) : Prop :=
  ∃ state, Names directory.replicaState state ∧ ∀ identity, state = some (.ready identity) →
    ∃ watermark last tail,
      Disk directory.toDirectory (lineages.batches identity.replid) watermark last tail now

/-- The state of a system between two of its steps. -/
def Upheld (lineages : Lineages) (system : ReplicaSystem) : Prop :=
  match system.process with
  | none => system.clock.Nondecreasing ∧ Truthful lineages system.directory system.clock.now
  | some node => Sane system.directory node ∧ Stands lineages system.directory node

end Invariant

section Beside

/-- The files that a process never touches by itself. -/
theorem runs_files [Platform] {directory other : Directory} {server after : Server}
    (runs : Runs (directory, server) (other, after)) :
    other.malformedSegments = directory.malformedSegments ∧ (Settled directory → Settled other) := by
  cases runs with
  | displace current =>
      obtain ⟨names, _, _, backup, temporary, _⟩ := displaceSnapshot_files directory
      exact ⟨names, fun settled => ⟨backup.trans settled.1, temporary.trans settled.2⟩⟩
  | _ => exact ⟨rfl, id⟩

theorem restoreSnapshot_files (directory : Directory) :
    (restoreSnapshot directory).malformedSegments = directory.malformedSegments ∧
      (restoreSnapshot directory).segments = directory.segments ∧
      (restoreSnapshot directory).binlog = directory.binlog ∧
      (Settled directory → Settled (restoreSnapshot directory)) ∧
      (restoreSnapshot directory).snapshot.or (restoreSnapshot directory).snapshotBackup =
        directory.snapshot.or directory.snapshotBackup := by
  unfold restoreSnapshot
  cases found : directory.snapshot with
  | none =>
      refine ⟨rfl, rfl, rfl, id, ?_⟩
      cases directory.snapshotBackup <;> rfl
  | some file =>
      refine ⟨rfl, rfl, rfl, id, ?_⟩
      rw [found]

variable [Platform]

/-- What may happen to the files and the server while another task owns the gate. -/
structure Tends (directory : Directory) (server : Server) (other : Directory) (after : Server) : Prop where
  kept : ∀ {batches : List LoggedBatch} {watermark last : Nat} {tail : Bytes},
    Kept directory server batches watermark last tail →
      ∃ higher, Kept other after batches higher last tail ∧
        (server.snapshotWatermark ≤ watermark → after.snapshotWatermark ≤ higher)
  written : Writes server.store after.store []
  sequence : after.sequence = server.sequence
  idle : server.compaction = none → after.compaction = none
  installed : ∀ watermark, server.compaction = some (.installed watermark) →
    after.compaction = some (.installed watermark)
  names : other.malformedSegments = directory.malformedSegments
  settled : Settled directory → Settled other

theorem tends_of_runs {directory other : Directory} {server after : Server}
    (runs : Runs (directory, server) (other, after)) (unguarded : ¬Exclusive server after)
    (ongoing : ¬Finalizes server after) : Tends directory server other after := by
  have stays : after.active = server.active := by
    by_contra moved
    exact unguarded (Or.inl moved)
  have uncaptured : server.compaction = none → after.compaction = none := by
    intro idle
    by_contra begun
    exact unguarded (Or.inr ⟨idle, begun⟩)
  obtain ⟨written, sequence⟩ := runs_writes_nothing runs
  obtain ⟨names, settled⟩ := runs_files runs
  refine ⟨fun kept => kept.runs runs stays uncaptured, written, sequence, uncaptured, ?_, names, settled⟩
  intro watermark installed
  cases runs with
  | finish current => exact absurd ⟨_, current, rfl⟩ ongoing
  | capture idle flat =>
      rw [installed] at idle
      cases idle
  | materialize current =>
      rw [installed] at current
      cases current
  | finishTemporary current encoded =>
      rw [installed] at current
      cases current
  | abandon current refused =>
      rw [installed] at current
      cases current
  | displace current =>
      rw [installed] at current
      cases current
  | install current =>
      rw [installed] at current
      cases current
  | _ => exact installed

theorem tends_observe {directory : Directory} {server : Server} {store : ShardedStore}
    (ages : server.store.engine.Ages store.engine) :
    Tends directory server directory { server with store } := by
  refine tends_of_runs (.observe ages) ?_ ?_
  · rintro (moved | ⟨idle, begun⟩)
    · exact moved rfl
    · exact begun idle
  · rintro ⟨watermark, installed, ended⟩
    rw [installed] at ended
    cases ended

/-- A compaction that is given up before its snapshot is installed. -/
theorem tends_abandon {directory other : Directory} {server : Server} {compaction : Compaction}
    (writing : server.compaction = some compaction)
    (unfinished : ∀ watermark, compaction ≠ .installed watermark)
    (names : other.malformedSegments = directory.malformedSegments)
    (segments : other.segments = directory.segments) (binlog : other.binlog = directory.binlog)
    (settled : Settled directory → Settled other)
    (snapshot : other.snapshot.or other.snapshotBackup =
      directory.snapshot.or directory.snapshotBackup) :
    Tends directory server other { server with compaction := none } := by
  refine ⟨?_, Writes.refl _, rfl, fun _ => rfl, ?_, names, settled⟩
  · intro batches watermark last tail kept
    refine ⟨watermark, kept.withDirectory rfl (kept.disk.same_files (settled kept.disk.settled) names
      segments (by rw [binlog]) snapshot) ?_ trivial, id⟩
    rw [segments]
    exact kept.covered
  · intro watermark installed
    rw [writing] at installed
    cases installed
    exact absurd rfl (unfinished watermark)

theorem Tends.shown {directory other : Directory} {server after : Server}
    (tends : Tends directory server other after) {batches : List LoggedBatch} {watermark : Nat}
    (before : Shown directory server batches watermark) :
    ∃ higher, Shown other after batches higher := by
  obtain ⟨higher, kept, behind⟩ := tends.kept before.toKept
  rw [← tends.sequence] at kept
  refine ⟨higher, kept, behind before.behind, ?_⟩
  intro time later
  have order := tends.written.leads.now_le before.steady
  rw [tends.written.view time (before.steady.upto later), Expiring.replay_nil, tends.sequence,
    before.view time (order.trans later), visible_visible le_rfl]

theorem Tends.lagging {directory other : Directory} {server after : Server}
    (tends : Tends directory server other after) {batches : List LoggedBatch} {batch : CommittedBatch}
    (before : Lagging directory server batches batch) : Lagging other after batches batch := by
  obtain ⟨watermark, applied, logged, found, same, number, kept, behind, view⟩ := before
  obtain ⟨higher, still, further⟩ := tends.kept kept
  rw [← tends.sequence] at still
  refine ⟨higher, applied, logged, found, same, tends.sequence.trans number, still, further behind, ?_⟩
  intro time later
  have order := tends.written.leads.now_le kept.steady
  rw [tends.written.view time (kept.steady.upto later), Expiring.replay_nil, view time (order.trans later),
    visible_visible le_rfl]

theorem Carries.tends {lineages : Lineages} {replid : Nat} {directory other : Directory}
    {node after : Node} (carries : Carries lineages replid directory node)
    (tends : Tends directory node.server other after.server) (holder : after.holder = node.holder)
    (stopped : after.failStopped = node.failStopped) : Carries lineages replid other after := by
  have still {batches : List LoggedBatch}
      (before : ∃ watermark, Shown directory node.server batches watermark) :
      ∃ watermark, Shown other after.server batches watermark := by
    obtain ⟨watermark, before⟩ := before
    exact tends.shown before
  unfold Carries at carries ⊢
  rw [holder, stopped]
  have free (before : (node.failStopped = true ∧ ∃ watermark last tail,
        Kept directory node.server (lineages.batches replid) watermark last tail) ∨
      (node.failStopped = false ∧ ∃ watermark,
        Shown directory node.server (lineages.batches replid) watermark)) :
      (node.failStopped = true ∧ ∃ watermark last tail,
        Kept other after.server (lineages.batches replid) watermark last tail) ∨
      (node.failStopped = false ∧ ∃ watermark,
        Shown other after.server (lineages.batches replid) watermark) := by
    rcases before with ⟨halted, watermark, last, tail, kept⟩ | ⟨running, shown⟩
    · obtain ⟨higher, kept, _⟩ := tends.kept kept
      exact Or.inl ⟨halted, higher, last, tail, kept⟩
    · exact Or.inr ⟨running, still shown⟩
  match node.holder, carries with
  | none, carries => exact free carries
  | some (.reception _ _), carries => exact free carries
  | some (.effect _ _ .entered), ⟨running, sent, shown⟩ => exact ⟨running, sent, still shown⟩
  | some (.effect _ _ .checked), ⟨running, sent, next, shown⟩ =>
      exact ⟨running, sent, by rw [tends.sequence]; exact next, still shown⟩
  | some (.effect _ _ .accepted), ⟨running, lagging⟩ => exact ⟨running, tends.lagging lagging⟩
  | some (.promotion _), ⟨running, stage, shown⟩ => exact ⟨running, stage, still shown⟩
  | some (.finalization boundary _), ⟨running, loaded, installed, shown⟩ =>
      exact ⟨running, loaded, tends.installed boundary installed, still shown⟩

end Beside

section Sanity
variable {directory other : ReplicaDirectory} {node after : Node} {event : Event}

theorem task_none {link : Link} :
    ∀ holder ∈ (none : Option Holder), holder.OfReplicaTask → link ≠ .absent := by
  intro holder member
  cases member

theorem task_some {holder : Holder} {link : Link} (present : holder.OfReplicaTask → link ≠ .absent) :
    ∀ other ∈ some holder, other.OfReplicaTask → link ≠ .absent := by
  intro other member
  cases member
  exact present

/-- A call of the replica task that ends or goes on has a link. -/
theorem Sane.present (sane : Sane directory node) {holder : Holder} (owned : node.holder = some holder)
    (ours : holder.OfReplicaTask) : node.link ≠ .absent :=
  sane.task holder owned ours

/-- A node that has a link is a replica until it is promoted. -/
theorem Sane.kind_of_present (sane : Sane directory node) (present : node.link ≠ .absent)
    (master : node.isReplica = false) : node.promoteToMaster = true :=
  (sane.kind master).resolve_right present

theorem Sane.reception (sane : Sane directory node)
    (step : ReceptionStep (directory, node) (other, after)) : Sane other after := by
  have ⟨steady, settled, names, kind, fresh, _⟩ := sane
  cases step with
  | enter replid free linked =>
      refine ⟨steady, settled, names, kind, fresh, task_some ?_⟩
      intro _
      rw [linked]
      exact Link.noConfusion
  | refuse owned refused => exact ⟨steady, settled, names, kind, fresh, task_none⟩
  | check owned unpromoted wanted accepting =>
      exact ⟨steady, settled, names, kind, fresh, task_some (fun _ => sane.present owned trivial)⟩
  | write bytes owned => exact ⟨steady, settled, names, kind, fresh, sane.task⟩
  | rename owned =>
      exact ⟨steady, settled, names, kind, fresh, task_some (fun _ => sane.present owned trivial)⟩
  | fail owned => exact ⟨steady, settled, names, kind, fresh, task_none⟩
  | unready owned =>
      exact ⟨steady, settled, names, kind, fresh, task_some (fun _ => sane.present owned trivial)⟩
  | finish owned =>
      refine ⟨steady, settled, names, ?_, fun _ _ => rfl, task_none⟩
      intro master
      exact Or.inl (sane.kind_of_present (sane.present owned trivial) master)

theorem Sane.promotion (sane : Sane directory node)
    (promoted : node.holder = some (.promotion .promoted) → node.promoteToMaster = true)
    (step : PromotionStep (directory, node) event (other, after)) : Sane other after := by
  have ⟨steady, settled, names, kind, fresh, _⟩ := sane
  cases step with
  | prepare free ready => exact ⟨steady, settled, names, kind, fresh, sane.task⟩
  | enter free visible => exact ⟨steady, settled, names, kind, fresh, task_some False.elim⟩
  | refuse owned unready => exact ⟨steady, settled, names, kind, fresh, task_none⟩
  | check owned ready => exact ⟨steady, settled, names, kind, fresh, task_some False.elim⟩
  | write bytes owned => exact ⟨steady, settled, names, kind, fresh, sane.task⟩
  | rename owned => exact ⟨steady, settled, names, kind, fresh, task_some False.elim⟩
  | fail owned => exact ⟨steady, settled, names, kind, fresh, task_none⟩
  | lose owned => exact ⟨steady, settled, names, kind, fresh, task_none⟩
  | unname owned => exact ⟨steady, settled, names, kind, fresh, task_some False.elim⟩
  | unready owned => exact ⟨steady, settled, names, kind, fresh, task_some False.elim⟩
  | promote owned => exact ⟨steady, settled, names, fun _ => Or.inl rfl, fresh, task_some False.elim⟩
  | finish owned => exact ⟨steady, settled, names, fun _ => Or.inl (promoted owned), fresh, task_none⟩

theorem Sane.finalization (sane : Sane directory node)
    (step : FinalizationStep (directory, node) event (other, after)) : Sane other after := by
  have ⟨steady, settled, names, kind, fresh, _⟩ := sane
  cases step with
  | enter free visible installed => exact ⟨steady, settled, names, kind, fresh, task_some False.elim⟩
  | load owned followed => exact ⟨steady, settled, names, kind, fresh, task_some False.elim⟩
  | write bytes owned => exact ⟨steady, settled, names, kind, fresh, sane.task⟩
  | rename owned => exact ⟨steady, settled, names, kind, fresh, task_some False.elim⟩
  | fail owned => exact ⟨steady, settled, names, kind, fresh, task_none⟩
  | lose owned => exact ⟨steady, settled, names, kind, fresh, task_none⟩
  | finish owned => exact ⟨steady, settled, names, kind, fresh, task_none⟩

theorem Sane.ambient (sane : Sane directory node)
    (step : AmbientStep (directory, node) (other, after)) : Sane other after := by
  have ⟨steady, settled, names, kind, fresh, _⟩ := sane
  have apart {link : Link} (between : ∀ holder ∈ node.holder, ¬holder.OfReplicaTask) :
      ∀ holder ∈ node.holder, holder.OfReplicaTask → link ≠ .absent :=
    fun holder member ours => absurd ours (between holder member)
  cases step with
  | disconnect present between =>
      exact ⟨steady, settled, names, fun master => Or.inl (sane.kind_of_present present master),
        by simp, apart between⟩
  | resume linked known between =>
      have present : node.link ≠ .absent := by
        rw [linked]
        exact Link.noConfusion
      exact ⟨steady, settled, names, fun master => Or.inl (sane.kind_of_present present master),
        by simp, apart between⟩
  | refuseWrites => exact ⟨steady, settled, names, kind, fresh, sane.task⟩
  | unready => exact ⟨steady, settled, names, kind, fresh, sane.task⟩
  | requestStop => exact ⟨steady, settled, names, kind, fresh, sane.task⟩
  | failStop free visible => exact ⟨steady, settled, names, kind, fresh, task_none⟩

variable [Platform] {upstreams : Upstreams}

theorem Sane.effect (sane : Sane directory node)
    (step : EffectStep upstreams (directory, node) event (other, after)) : Sane other after := by
  have ⟨steady, settled, names, kind, fresh, _⟩ := sane
  have cut {holder : Holder} (owned : node.holder = some holder) (ours : holder.OfReplicaTask)
      (master : node.isReplica = false) : node.promoteToMaster = true ∨ Link.down = .absent :=
    Or.inl (sane.kind_of_present (sane.present owned ours) master)
  cases step with
  | enter free visible linked sent =>
      refine ⟨steady, settled, names, kind, fresh, task_some ?_⟩
      intro _
      rw [linked]
      exact Link.noConfusion
  | refuse owned refused => exact ⟨steady, settled, names, cut owned trivial, by simp, task_none⟩
  | check owned accepting ready next room =>
      exact ⟨steady, settled, names, kind, fresh, task_some (fun _ => sane.present owned trivial)⟩
  | accept owned opened =>
      exact ⟨steady, settled, names, kind, fresh, task_some (fun _ => sane.present owned trivial)⟩
  | reject owned => exact ⟨steady, settled, names, cut owned trivial, by simp, task_none⟩
  | lose owned opened split => exact ⟨steady, settled, names, cut owned trivial, by simp, task_none⟩
  | @apply _ _ _ batch owned =>
      have leads := (applyCommittedBatch_writes node.server.store batch).leads
      exact ⟨leads.nondecreasing steady, settled, names, kind, fresh, task_none⟩
  | interrupt owned armed => exact ⟨steady, settled, names, cut owned trivial, by simp, task_none⟩

/-- No step of an installation touches the files that a process never touches. -/
theorem installStep_files {baseline : Baseline} {phase next : InstallPhase}
    (files : InstallStep baseline (phase, directory) (next, other)) :
    other.malformedSegments = directory.malformedSegments ∧
      (Settled directory.toDirectory → Settled other.toDirectory) := by
  cases files with
  | displace =>
      obtain ⟨names, _, _, backup, temporary, _⟩ := displaceSnapshot_files directory.toDirectory
      exact ⟨names, fun settled => ⟨backup.trans settled.1, temporary.trans settled.2⟩⟩
  | _ => exact ⟨rfl, id⟩

theorem Sane.install (sane : Sane directory node)
    (step : InstallCallStep upstreams (directory, node) event (other, after)) : Sane other after := by
  have ⟨steady, settled, names, kind, fresh, _⟩ := sane
  have cut {baseline : Baseline} {stage : InstallStage} {link : Link}
      (owned : node.holder = some (.install baseline stage))
      (master : node.isReplica = false) : node.promoteToMaster = true ∨ link = .absent :=
    Or.inl (sane.kind_of_present (sane.present owned trivial) master)
  cases step with
  | enter free visible idle linked identified offered =>
      refine ⟨steady, settled, names, kind, fresh, task_some ?_⟩
      intro _
      rw [linked]
      exact Link.noConfusion
  | refuse owned refused => exact ⟨steady, settled, names, cut owned, by simp, task_none⟩
  | check owned unpromoted wanted accepting =>
      exact ⟨steady, settled, names, kind, fresh, task_some (fun _ => sane.present owned trivial)⟩
  | file owned early files =>
      obtain ⟨same, still⟩ := installStep_files files
      exact ⟨steady, still settled, same.trans names, kind, fresh,
        task_some (fun _ => sane.present owned trivial)⟩
  | mark owned files =>
      obtain ⟨same, still⟩ := installStep_files files
      exact ⟨steady, still settled, same.trans names, kind, fresh,
        task_some (fun _ => sane.present owned trivial)⟩
  | fail owned early => exact ⟨steady, settled, names, cut owned, by simp, task_none⟩
  | lose owned => exact ⟨steady, settled, names, cut owned, by simp, task_none⟩
  | @replace _ _ baseline owned =>
      have leads := replaceAll_leads node.server.store baseline.entries
      exact ⟨leads.nondecreasing steady, settled, names, kind, fresh,
        task_some (fun _ => sane.present owned trivial)⟩
  | base owned =>
      exact ⟨steady, settled, names, kind, fresh, task_some (fun _ => sane.present owned trivial)⟩
  | name owned =>
      exact ⟨steady, settled, names, kind, fresh, task_some (fun _ => sane.present owned trivial)⟩
  | ready owned => exact ⟨steady, settled, names, cut owned, by simp, task_none⟩

theorem Sane.tends (sane : Sane directory node) {files : Directory} {server : Server}
    (tends : Tends directory.toDirectory node.server files server) :
    Sane { directory with toDirectory := files } { node with server } :=
  ⟨tends.written.leads.nondecreasing sane.steady, tends.settled sane.settled,
    tends.names.trans sane.names, sane.kind, sane.fresh, sane.task⟩

theorem Sane.master (sane : Sane directory node)
    (step : MasterStep (directory, node) event (other, after)) : Sane other after := by
  have ⟨steady, settled, names, kind, fresh, _⟩ := sane
  have applied (group : List EncodedBatch) : (group.foldl
      (fun store encoded => applyCommittedBatch store encoded.batch)
      node.server.store).engine.clock.Nondecreasing :=
    (encodedGroup_writes node.server.store group).leads.nondecreasing steady
  cases step with
  | commit group free visible master accepting opened room =>
      exact ⟨applied group, settled, names, kind, fresh, sane.task⟩
  | reject free visible master => exact ⟨steady, settled, names, kind, fresh, task_none⟩
  | lose group free visible master cut => exact ⟨applied group, settled, names, kind, fresh, task_none⟩

end Sanity

section Claimless
variable [Platform] {lineages : Lineages} {directory other : ReplicaDirectory} {node after : Node}
  {event : Event} {state : Option DurableReplicaState}

theorem Unclaimed.not_ready (unclaimed : Unclaimed lineages directory node state)
    (elsewhere : node.holder ≠ some (.promotion .unnamed)) : node.replicationReady = false := by
  by_contra ready
  exact elsewhere (unclaimed.unready (by simpa using ready))

theorem stands_unclaimed (names : Names directory.replicaState state)
    (marker : ∀ identity, state ≠ some (.ready identity)) (unnamed : node.upstreamReplid = 0)
    (unready : node.replicationReady = false) (idles : Idles lineages directory node) :
    Stands lineages directory node := by
  refine ⟨state, names, Or.inl ⟨marker, unnamed, ?_, idles⟩⟩
  intro ready
  rw [unready] at ready
  cases ready

omit [Platform] in
theorem names_renamed (directory : ReplicaDirectory) {named : DurableReplicaState} (valid : named.Valid) :
    Names (directory.renameMarker named).replicaState (some named) := by
  refine ⟨rfl, ?_⟩
  intro found member
  cases member
  exact valid

theorem Unclaimed.reception (unclaimed : Unclaimed lineages directory node state)
    (names : Names directory.replicaState state)
    (step : ReceptionStep (directory, node) (other, after)) : Stands lineages other after := by
  have ⟨marker, unnamed, _, _⟩ := unclaimed
  cases step with
  | enter replid free linked =>
      exact stands_unclaimed names marker unnamed (unclaimed.not_ready (by simp [free])) trivial
  | refuse owned refused =>
      exact stands_unclaimed names marker unnamed (unclaimed.not_ready (by simp [owned])) trivial
  | check owned unpromoted wanted accepting =>
      exact stands_unclaimed names marker unnamed (unclaimed.not_ready (by simp [owned])) trivial
  | write bytes owned =>
      refine @stands_unclaimed _ _ (directory.writeMarker bytes) _ state names marker unnamed
        (unclaimed.not_ready (by simp [owned])) ?_
      unfold Idles
      rw [owned]
      trivial
  | rename owned =>
      exact stands_unclaimed (names_renamed directory trivial) (by simp) unnamed
        (unclaimed.not_ready (by simp [owned])) trivial
  | fail owned => exact stands_unclaimed names marker unnamed rfl trivial
  | unready owned => exact stands_unclaimed names marker unnamed rfl trivial
  | finish owned =>
      exact stands_unclaimed names marker rfl (unclaimed.not_ready (by simp [owned])) trivial

theorem Unclaimed.effect (unclaimed : Unclaimed lineages directory node state)
    (names : Names directory.replicaState state) {upstreams : Upstreams}
    (step : EffectStep upstreams (directory, node) event (other, after)) :
    Stands lineages other after := by
  have ⟨marker, unnamed, _, idles⟩ := unclaimed
  have early {sequence : Nat} {batch : CommittedBatch} {stage : EffectStage}
      (owned : node.holder = some (.effect sequence batch stage)) : stage = .entered := by
    unfold Idles at idles
    rw [owned] at idles
    exact idles
  cases step with
  | enter free visible linked sent =>
      exact stands_unclaimed names marker unnamed (unclaimed.not_ready (by simp [free])) rfl
  | refuse owned refused =>
      exact stands_unclaimed names marker unnamed (unclaimed.not_ready (by simp [owned])) trivial
  | check owned accepting ready next room =>
      rw [unclaimed.not_ready (by simp [owned])] at ready
      cases ready
  | accept owned opened => cases early owned
  | reject owned => cases early owned
  | lose owned opened cut => cases early owned
  | apply owned => cases early owned
  | interrupt owned armed => exact absurd (early owned) armed

theorem Unclaimed.promotion (unclaimed : Unclaimed lineages directory node state)
    (names : Names directory.replicaState state)
    (step : PromotionStep (directory, node) event (other, after)) : Stands lineages other after := by
  have ⟨marker, unnamed, _, idles⟩ := unclaimed
  have stages {stage : PromotionStage} (owned : node.holder = some (.promotion stage)) :
      stage ≠ .checked ∧ stage ≠ .detached := by
    unfold Idles at idles
    rw [owned] at idles
    exact ⟨idles.1, idles.2.1⟩
  cases step with
  | prepare free ready =>
      rw [unclaimed.not_ready (by simp [free])] at ready
      cases ready
  | enter free visible =>
      exact stands_unclaimed names marker unnamed (unclaimed.not_ready (by simp [free])) ⟨by simp, by simp, by simp⟩
  | refuse owned unready => exact stands_unclaimed names marker unnamed unready trivial
  | check owned ready =>
      rw [unclaimed.not_ready (by simp [owned])] at ready
      cases ready
  | write bytes owned => exact absurd rfl (stages owned).1
  | rename owned => exact absurd rfl (stages owned).1
  | fail owned =>
      rcases owned with owned | owned
      · exact absurd rfl (stages owned).1
      · exact absurd rfl (stages owned).2
  | lose owned => exact absurd rfl (stages owned).1
  | unname owned => exact absurd rfl (stages owned).2
  | unready owned => exact stands_unclaimed names marker unnamed rfl ⟨by simp, by simp, by simp⟩
  | promote owned =>
      exact stands_unclaimed names marker unnamed (unclaimed.not_ready (by simp [owned]))
        ⟨by simp, by simp, fun _ => rfl⟩
  | finish owned =>
      exact stands_unclaimed names marker unnamed (unclaimed.not_ready (by simp [owned])) trivial

theorem Unclaimed.finalization (unclaimed : Unclaimed lineages directory node state)
    (names : Names directory.replicaState state)
    (step : FinalizationStep (directory, node) event (other, after)) : Stands lineages other after := by
  have ⟨marker, unnamed, _, idles⟩ := unclaimed
  have early {watermark : Nat} {stage : FinalizationStage}
      (owned : node.holder = some (.finalization watermark stage)) : stage = .entered := by
    unfold Idles at idles
    rw [owned] at idles
    exact idles
  cases step with
  | enter free visible installed =>
      exact stands_unclaimed names marker unnamed (unclaimed.not_ready (by simp [free])) rfl
  | load owned followed => exact absurd unnamed followed
  | write bytes owned => cases early owned
  | rename owned => cases early owned
  | fail owned =>
      exact stands_unclaimed names marker unnamed (unclaimed.not_ready (by simp [owned])) trivial
  | lose owned =>
      exact stands_unclaimed names marker unnamed (unclaimed.not_ready (by simp [owned])) trivial
  | finish owned =>
      refine stands_unclaimed names marker unnamed (unclaimed.not_ready ?_) trivial
      rcases owned with ⟨owned, _⟩ | owned
      · simp [owned]
      · simp [owned]

theorem Unclaimed.master (unclaimed : Unclaimed lineages directory node state)
    (names : Names directory.replicaState state)
    (step : MasterStep (directory, node) event (other, after)) : Stands lineages other after := by
  have ⟨marker, unnamed, _, idles⟩ := unclaimed
  cases step with
  | commit group free visible master accepting opened room =>
      refine @stands_unclaimed _ _ { directory with toDirectory := _ } _ state names marker unnamed
        (unclaimed.not_ready (by simp [free])) ?_
      unfold Idles
      rw [free]
      trivial
  | reject free visible master => exact stands_unclaimed names marker unnamed rfl trivial
  | lose group free visible master cut =>
      exact @stands_unclaimed _ _ { directory with toDirectory := _ } _ state names marker unnamed rfl trivial

/-- What the owner of the gate is about does not depend on what happens beside it. -/
theorem Idles.beside (idles : Idles lineages directory node) (holder : after.holder = node.holder)
    (apart : ∀ baseline stage, node.holder ≠ some (.install baseline stage))
    (promoted : after.promoteToMaster = node.promoteToMaster) : Idles lineages other after := by
  unfold Idles at idles ⊢
  rw [holder, promoted]
  match node.holder, idles, apart with
  | none, _, _ => trivial
  | some (.reception _ _), _, _ => trivial
  | some (.effect _ _ _), idles, _ => exact idles
  | some (.install baseline stage), _, apart => exact absurd rfl (apart baseline stage)
  | some (.promotion _), idles, _ => exact idles
  | some (.finalization _ _), idles, _ => exact idles

theorem Unclaimed.beside (unclaimed : Unclaimed lineages directory node state)
    (names : Names directory.replicaState state) (marked : other.replicaState = directory.replicaState)
    (named : after.upstreamReplid = node.upstreamReplid)
    (ready : after.replicationReady = true → node.replicationReady = true)
    (holder : after.holder = node.holder) (idles : Idles lineages other after) :
    Stands lineages other after := by
  refine ⟨state, marked ▸ names, Or.inl ⟨unclaimed.marker, named.trans unclaimed.unnamed, ?_, idles⟩⟩
  intro set
  rw [holder]
  exact unclaimed.unready (ready set)

theorem Unclaimed.ambient (unclaimed : Unclaimed lineages directory node state)
    (names : Names directory.replicaState state)
    (step : AmbientStep (directory, node) (other, after)) : Stands lineages other after := by
  have idles := unclaimed.idles
  have apart (between : ∀ holder ∈ node.holder, ¬holder.OfReplicaTask) :
      ∀ baseline stage, node.holder ≠ some (.install baseline stage) :=
    fun baseline stage owned => between _ owned trivial
  cases step with
  | disconnect present between =>
      exact unclaimed.beside names rfl rfl id rfl (idles.beside rfl (apart between) rfl)
  | resume linked known between =>
      exact unclaimed.beside names rfl rfl id rfl (idles.beside rfl (apart between) rfl)
  | refuseWrites => exact unclaimed.beside names rfl rfl id rfl idles
  | unready =>
      refine unclaimed.beside names rfl rfl ?_ rfl idles
      intro set
      cases set
  | requestStop => exact unclaimed.beside names rfl rfl id rfl idles
  | failStop free visible =>
      exact stands_unclaimed names unclaimed.marker unclaimed.unnamed
        (unclaimed.not_ready (by simp [free])) trivial

theorem Unclaimed.maintenance (unclaimed : Unclaimed lineages directory node state)
    (names : Names directory.replicaState state) (steady : node.server.store.engine.clock.Nondecreasing)
    (step : MaintenanceStep (directory, node) (other, after)) : Stands lineages other after := by
  have idles := unclaimed.idles
  have compacting {compaction : Compaction} (writing : node.server.compaction = some compaction) :
      ∀ baseline stage, node.holder ≠ some (.install baseline stage) := by
    intro baseline stage owned
    unfold Idles at idles
    rw [owned] at idles
    rw [idles.1] at writing
    cases writing
  cases step with
  | exclusive free visible runs ongoing =>
      exact unclaimed.beside names rfl rfl id rfl (idles.beside rfl (by simp [free]) rfl)
  | shared beside runs unguarded ongoing =>
      exact unclaimed.beside names rfl rfl id rfl (idles.beside rfl beside rfl)
  | observe ages =>
      refine unclaimed.beside names rfl rfl id rfl ?_
      unfold Idles at idles ⊢
      match node.holder, idles with
      | none, _ => trivial
      | some (.reception _ _), _ => trivial
      | some (.effect _ _ _), idles => exact idles
      | some (.install baseline stage), ⟨idle, linked, running, offers, filed⟩ =>
          exact ⟨idle, linked, running, offers.later (ages.leads.now_le steady), filed⟩
      | some (.promotion _), idles => exact idles
      | some (.finalization _ _), idles => exact idles
  | fail writing begun unfinished =>
      exact unclaimed.beside names rfl rfl id rfl (idles.beside rfl (compacting writing) rfl)
  | restore displaced =>
      exact unclaimed.beside names rfl rfl id rfl (idles.beside rfl (compacting displaced) rfl)

/-- One step of an installation before the new identity. -/
theorem Filed.step {baseline : Baseline} {phase next : InstallPhase}
    (filed : Filed baseline directory phase) (sane : Sane directory node)
    (files : InstallStep baseline (phase, directory) (next, other)) (early : next ≠ .ready) :
    Filed baseline other next ∧ ∀ state, Names directory.replicaState state →
      (∀ identity, state ≠ some (.ready identity)) →
      ∃ named, Names other.replicaState named ∧ ∀ identity, named ≠ some (.ready identity) := by
  have unchanged (same : other.replicaState = directory.replicaState) :
      ∀ state, Names directory.replicaState state → (∀ identity, state ≠ some (.ready identity)) →
        ∃ named, Names other.replicaState named ∧ ∀ identity, named ≠ some (.ready identity) :=
    fun state names marker => ⟨state, same ▸ names, marker⟩
  cases files with
  | writeInstalling bytes => exact ⟨trivial, unchanged rfl⟩
  | renameInstalling =>
      exact ⟨trivial, fun _ _ _ => ⟨some .installing, names_renamed directory trivial, by simp⟩⟩
  | truncateActive => exact ⟨rfl, unchanged rfl⟩
  | removeSegment oldest => exact ⟨filed, unchanged rfl⟩
  | finishRemoval none_left => exact ⟨⟨sane.names, none_left, filed⟩, unchanged rfl⟩
  | writeTemporary bytes => exact ⟨⟨filed.names, filed.segments, filed.active⟩, unchanged rfl⟩
  | finishTemporary encoded =>
      exact ⟨⟨⟨filed.names, filed.segments, filed.active⟩, _, rfl, encoded⟩, unchanged rfl⟩
  | displace =>
      obtain ⟨⟨names, segments, active⟩, file, found, written⟩ := filed
      obtain ⟨keptNames, keptSegments, keptActive, _, _, keptSnapshot⟩ :=
        displaceSnapshot_files directory.toDirectory
      refine ⟨⟨⟨keptNames.trans names, ?_, ?_⟩, file, keptSnapshot.trans found, written⟩, unchanged rfl⟩
      · exact (congrArg Catalog.entries keptSegments).trans segments
      · exact (congrArg (fun binlog => Option.getD binlog []) keptActive).trans active
  | install =>
      obtain ⟨⟨names, segments, active⟩, file, found, written⟩ := filed
      exact ⟨⟨⟨names, segments, active⟩, sane.settled, file, found, written⟩, unchanged rfl⟩
  | writeIdentity bytes => exact ⟨filed, unchanged rfl⟩
  | renameIdentity => exact absurd rfl early

theorem Unclaimed.install (unclaimed : Unclaimed lineages directory node state)
    (names : Names directory.replicaState state) (sane : Sane directory node)
    (step : InstallCallStep lineages.upstreams (directory, node) event (other, after)) :
    Stands lineages other after := by
  have ⟨marker, unnamed, _, idles⟩ := unclaimed
  have underWay {baseline : Baseline} {stage : InstallStage}
      (owned : node.holder = some (.install baseline stage)) :
      node.server.compaction = none ∧ node.link = .receiving baseline.identity.replid ∧
        node.failStopped = false ∧ lineages.Offers baseline node.server.store.engine.clock.now ∧
        (stage = .entered ∨ ∃ phase, stage = .filing phase ∧ node.promoteToMaster = false ∧
          Filed baseline directory phase) := by
    unfold Idles at idles
    rw [owned] at idles
    exact idles
  have filing {baseline : Baseline} {phase : InstallPhase}
      (owned : node.holder = some (.install baseline (.filing phase))) :
      node.promoteToMaster = false ∧ Filed baseline directory phase := by
    obtain ⟨_, _, _, _, entered | ⟨_, same, unpromoted, filed⟩⟩ := underWay owned
    · cases entered
    · cases same
      exact ⟨unpromoted, filed⟩
  have never {baseline : Baseline} {stage : InstallStage}
      (owned : node.holder = some (.install baseline stage)) (late : stage ≠ .entered)
      (later : ∀ phase, stage ≠ .filing phase) : False := by
    obtain ⟨_, _, _, _, entered | ⟨phase, same, _⟩⟩ := underWay owned
    · exact late entered
    · exact later phase same
  cases step with
  | enter free visible idle linked identified offered =>
      exact stands_unclaimed names marker unnamed (unclaimed.not_ready (by simp [free]))
        ⟨idle, linked, visible, offered, Or.inl rfl⟩
  | refuse owned refused =>
      exact stands_unclaimed names marker unnamed (unclaimed.not_ready (by simp [owned])) trivial
  | check owned unpromoted wanted accepting =>
      obtain ⟨idle, linked, running, offers, _⟩ := underWay owned
      exact stands_unclaimed names marker unnamed rfl
        ⟨idle, linked, running, offers, Or.inr ⟨.begun, rfl, unpromoted, trivial⟩⟩
  | file owned early files =>
      obtain ⟨idle, linked, running, offers, _⟩ := underWay owned
      obtain ⟨unpromoted, filed⟩ := filing owned
      obtain ⟨next, carried⟩ := filed.step sane files early
      obtain ⟨named, written, unready⟩ := carried state names marker
      exact stands_unclaimed written unready unnamed (unclaimed.not_ready (by simp [owned]))
        ⟨idle, linked, running, offers, Or.inr ⟨_, rfl, unpromoted, next⟩⟩
  | @mark _ _ _ baseline _ owned files =>
      obtain ⟨idle, linked, running, offers, _⟩ := underWay owned
      obtain ⟨unpromoted, filed⟩ := filing owned
      cases files with
      | renameIdentity =>
          exact ⟨some (.ready baseline.identity), names_renamed directory offers.sound.valid,
            Or.inr (Or.inr ⟨baseline, .filing .ready, rfl, rfl, offers, Replaced.disk filed offers,
              filed.cleared.segments, idle, running, unclaimed.not_ready (by simp [owned]), linked,
              unpromoted, rfl, unnamed⟩)⟩
  | fail owned early =>
      exact stands_unclaimed names marker unnamed (unclaimed.not_ready (by simp [owned])) trivial
  | lose owned => exact stands_unclaimed names marker unnamed rfl trivial
  | replace owned => exact False.elim (filing owned).2
  | base owned => exact False.elim (never owned (by simp) (by simp))
  | name owned => exact False.elim (never owned (by simp) (by simp))
  | ready owned => exact False.elim (never owned (by simp) (by simp))

end Claimless

section Claiming
variable [Platform] {lineages : Lineages} {directory other : ReplicaDirectory} {node after : Node}
  {event : Event} {state : Option DurableReplicaState} {replid : Nat}

theorem Following.stands (names : Names directory.replicaState state)
    (following : Following lineages replid directory node state) : Stands lineages directory node :=
  ⟨state, names, Or.inr (Or.inl ⟨replid, following⟩)⟩

/-- A change that leaves the upstream alone. -/
theorem Following.keep (following : Following lineages replid directory node state)
    {named : Option DurableReplicaState} (names : Names other.replicaState named)
    (marker : ∀ identity, named = some (.ready identity) → identity.replid = replid)
    (upstream : after.upstreamReplid = node.upstreamReplid)
    (ready : after.replicationReady = true → node.replicationReady = true)
    (known : after.localReplid = node.localReplid)
    (linked : after.link = node.link ∨ after.link = .down ∨ after.link = .following replid)
    (replica : after.isReplica = node.isReplica) (withdrawn : Withdrawn after named)
    (carries : Carries lineages replid other.toDirectory after) : Stands lineages other after := by
  refine Following.stands names ⟨following.identified, marker, ?_, ?_, ?_, ?_, ?_, withdrawn, carries⟩
  · rw [upstream]
    exact following.upstream
  · intro set
    rw [upstream]
    exact following.named (ready set)
  · rw [known]
    exact following.known
  · rcases linked with same | down
    · rw [same]
      exact following.linked
    · exact down
  · rw [replica]
    exact following.replica

/-- The files and the store while the gate is free or with a reception. -/
theorem Following.free (following : Following lineages replid directory node state)
    (free : node.holder = none) :
    (node.failStopped = true ∧ ∃ watermark last tail,
      Kept directory.toDirectory node.server (lineages.batches replid) watermark last tail) ∨
    (node.failStopped = false ∧ ∃ watermark,
      Shown directory.toDirectory node.server (lineages.batches replid) watermark) := by
  have carries := following.carries
  unfold Carries at carries
  rw [free] at carries
  exact carries

theorem Following.running (following : Following lineages replid directory node state)
    (free : node.holder = none) (visible : node.failStopped = false) :
    ∃ watermark, Shown directory.toDirectory node.server (lineages.batches replid) watermark := by
  rcases following.free free with ⟨halted, _⟩ | ⟨_, shown⟩
  · rw [visible] at halted
    cases halted
  · exact shown

theorem Following.reception (following : Following lineages replid directory node state)
    (names : Names directory.replicaState state)
    (step : ReceptionStep (directory, node) (other, after)) : Stands lineages other after := by
  have marker := following.marker
  have carries := following.carries
  have withdrawn := following.withdrawn
  unfold Carries at carries
  unfold Withdrawn at withdrawn
  cases step with
  | enter replid free linked =>
      rw [free] at carries
      exact following.keep names marker rfl id rfl (Or.inl rfl) rfl trivial carries
  | refuse owned refused =>
      rw [owned] at carries
      exact following.keep names marker rfl id rfl (Or.inl rfl) rfl trivial carries
  | check owned unpromoted wanted accepting =>
      rw [owned] at carries
      exact following.keep names marker rfl id rfl (Or.inl rfl) rfl trivial carries
  | write bytes owned =>
      exact @Following.keep _ _ _ (directory.writeMarker bytes) _ _ _ _ following state names marker rfl id
        rfl (Or.inl rfl) rfl following.withdrawn following.carries
  | rename owned =>
      rw [owned] at carries
      exact following.keep (names_renamed directory trivial) (by simp) rfl id rfl (Or.inl rfl) rfl
        (by simp [Withdrawn]) carries
  | fail owned =>
      have still : (node.failStopped = true ∧ ∃ watermark last tail,
          Kept directory.toDirectory node.server (lineages.batches replid) watermark last tail) ∨
        (node.failStopped = false ∧ ∃ watermark,
          Shown directory.toDirectory node.server (lineages.batches replid) watermark) := by
        rcases owned with owned | owned
        · rw [owned] at carries
          exact carries
        · rw [owned] at carries
          exact carries
      exact following.keep names marker rfl (by simp [Node.markPersistenceFailed]) rfl (Or.inl rfl) rfl
        trivial still
  | unready owned =>
      rw [owned] at carries withdrawn
      exact following.keep names marker rfl (by simp) rfl (Or.inl rfl) rfl ⟨withdrawn, rfl⟩ carries
  | finish owned =>
      rw [owned] at withdrawn
      exact stands_unclaimed names withdrawn.1 rfl withdrawn.2 trivial

/-- The encoder gives a batch one payload. -/
theorem payload_unique {first second : EncodedBatch} (same : first.batch = second.batch) :
    first.payload = second.payload := by
  have encoded := first.encoded
  rw [same, second.encoded] at encoded
  exact (Except.ok.inj encoded).symm

theorem Following.effect (following : Following lineages replid directory node state)
    (names : Names directory.replicaState state)
    (step : EffectStep lineages.upstreams (directory, node) event (other, after)) :
    Stands lineages other after := by
  have marker := following.marker
  have carries := following.carries
  unfold Carries at carries
  cases step with
  | @enter _ _ replid' sequence batch free visible linked sent =>
      have same : replid' = replid := by
        rcases following.linked with down | joined
        · rw [linked] at down
          cases down
        · rw [linked] at joined
          cases joined
          rfl
      subst same
      exact following.keep names marker rfl id rfl (Or.inl rfl) rfl trivial
        ⟨visible, sent, following.running free visible⟩
  | refuse owned refused =>
      rw [owned] at carries
      exact following.keep names marker rfl id rfl (Or.inr (Or.inl rfl)) rfl trivial
        (Or.inr ⟨carries.1, carries.2.2⟩)
  | check owned accepting ready next room =>
      rw [owned] at carries
      exact following.keep names marker rfl id rfl (Or.inl rfl) rfl trivial
        ⟨carries.1, carries.2.1, next, carries.2.2⟩
  | @accept _ _ sequence batch owned opened =>
      rw [owned] at carries
      obtain ⟨running, ⟨logged, found, same⟩, rfl, watermark, shown⟩ := carries
      rw [Nat.add_sub_cancel] at found
      rw [payload_unique same.symm]
      obtain ⟨reached, tail, _, complete, disk⟩ := shown.disk.appendNext found (List.append_nil _).symm
      obtain ⟨rfl, rfl⟩ := complete rfl
      exact @Following.keep _ _ _ { directory with toDirectory := _ } _ _ _ _ following state names marker
        rfl id rfl (Or.inl rfl) rfl trivial ⟨running, watermark, node.server.sequence, logged, found, same,
          rfl, ⟨disk, shown.steady, shown.covered,
            shown.phase.carry le_rfl (Nat.le_succ _) (fun _ _ => rfl)⟩, shown.behind, shown.view⟩
  | reject owned =>
      rw [owned] at carries
      exact following.keep names marker rfl (by simp [Node.markPersistenceFailed]) rfl
        (Or.inr (Or.inl rfl)) rfl trivial (Or.inr ⟨carries.1, carries.2.2.2⟩)
  | @lose _ _ sequence batch written rest owned opened cut =>
      rw [owned] at carries
      obtain ⟨_, ⟨logged, found, same⟩, rfl, watermark, shown⟩ := carries
      rw [Nat.add_sub_cancel] at found
      rw [payload_unique same.symm] at cut
      obtain ⟨reached, tail, more, _, disk⟩ := shown.disk.appendNext found cut
      exact @Following.keep _ _ _ { directory with toDirectory := _ } _ _ _ _ following state names marker
        rfl (by simp [Node.enterPersistenceFailStop, Node.enterFailStop]) rfl (Or.inr (Or.inl rfl)) rfl trivial
        (Or.inl ⟨rfl, watermark, reached, tail, disk, shown.steady, shown.covered,
          shown.phase.carry le_rfl more (fun _ _ => rfl)⟩)
  | @apply _ _ sequence batch owned =>
      rw [owned] at carries
      obtain ⟨running, watermark, applied, logged, found, rfl, number, kept, behind, view⟩ := carries
      have writes := applyCommittedBatch_writes node.server.store logged.batch
      have order := writes.leads.now_le kept.steady
      refine following.keep names marker rfl id rfl (Or.inl rfl) rfl trivial
        (Or.inr ⟨running, watermark, kept.withStore writes.leads
          (kept.phase.carry order le_rfl (fun _ _ => rfl)), behind, ?_⟩)
      intro time later
      show (applyCommittedBatch node.server.store logged.batch).view time = _
      rw [writes.view time (kept.steady.upto later), view time (order.trans later),
        visible_replay_visible le_rfl, number, content_succ found]
  | @interrupt _ _ sequence batch stage owned armed =>
      refine following.keep names marker rfl
        (by simp [Node.enterPersistenceFailStop, Node.enterFailStop]) rfl (Or.inr (Or.inl rfl)) rfl trivial
        (Or.inl ⟨rfl, ?_⟩)
      rw [owned] at carries
      cases stage with
      | entered => exact absurd rfl armed
      | checked =>
          obtain ⟨_, _, _, watermark, shown⟩ := carries
          exact ⟨watermark, _, _, shown.toKept⟩
      | accepted =>
          obtain ⟨_, watermark, _, _, _, _, _, kept, _⟩ := carries
          exact ⟨watermark, _, _, kept⟩

theorem Following.promotion (following : Following lineages replid directory node state)
    (names : Names directory.replicaState state)
    (step : PromotionStep (directory, node) event (other, after)) : Stands lineages other after := by
  have marker := following.marker
  have carries := following.carries
  have withdrawn := following.withdrawn
  unfold Carries at carries
  unfold Withdrawn at withdrawn
  cases step with
  | prepare free ready =>
      exact following.keep names marker rfl id rfl (Or.inl rfl) rfl following.withdrawn following.carries
  | enter free visible =>
      exact following.keep names marker rfl id rfl (Or.inl rfl) rfl trivial
        ⟨visible, Or.inl rfl, following.running free visible⟩
  | refuse owned unready =>
      rw [owned] at carries
      exact following.keep names marker rfl id rfl (Or.inl rfl) rfl trivial
        (Or.inr ⟨carries.1, carries.2.2⟩)
  | check owned ready =>
      rw [owned] at carries
      exact following.keep names marker rfl id rfl (Or.inl rfl) rfl trivial
        ⟨carries.1, Or.inr (Or.inl rfl), carries.2.2⟩
  | write bytes owned =>
      exact @Following.keep _ _ _ (directory.writeMarker bytes) _ _ _ _ following state names marker rfl id
        rfl (Or.inl rfl) rfl following.withdrawn following.carries
  | rename owned =>
      rw [owned] at carries
      exact following.keep (names_renamed directory trivial) (by simp) rfl id rfl (Or.inl rfl) rfl
        (by simp [Withdrawn]) ⟨carries.1, Or.inr (Or.inr rfl), carries.2.2⟩
  | fail owned =>
      refine following.keep names marker rfl id rfl (Or.inl rfl) rfl trivial (Or.inr ?_)
      rcases owned with owned | owned
      · rw [owned] at carries
        exact ⟨carries.1, carries.2.2⟩
      · rw [owned] at carries
        exact ⟨carries.1, carries.2.2⟩
  | lose owned =>
      rw [owned] at carries
      obtain ⟨_, _, watermark, shown⟩ := carries
      exact following.keep names marker rfl (by simp [Node.enterPersistenceFailStop, Node.enterFailStop])
        rfl (Or.inl rfl) rfl trivial (Or.inl ⟨rfl, watermark, _, _, shown.toKept⟩)
  | unname owned =>
      rw [owned] at withdrawn
      exact ⟨state, names, Or.inl ⟨withdrawn, rfl, fun _ => rfl, by simp, by simp, by simp⟩⟩
  | unready owned =>
      rw [owned] at carries
      simp at carries
  | promote owned =>
      rw [owned] at carries
      simp at carries
  | finish owned =>
      rw [owned] at carries
      simp at carries

theorem Following.finalization (following : Following lineages replid directory node state)
    (names : Names directory.replicaState state)
    (step : FinalizationStep (directory, node) event (other, after)) : Stands lineages other after := by
  have marker := following.marker
  have carries := following.carries
  unfold Carries at carries
  cases step with
  | enter free visible installed =>
      exact following.keep names marker rfl id rfl (Or.inl rfl) rfl trivial
        ⟨visible, by simp, installed, following.running free visible⟩
  | load owned followed =>
      rw [owned] at carries
      refine following.keep names marker rfl id rfl (Or.inl rfl) rfl trivial
        ⟨carries.1, ?_, carries.2.2⟩
      intro loaded same
      cases same
      exact following.upstream.resolve_right followed
  | write bytes owned =>
      exact @Following.keep _ _ _ (directory.writeMarker bytes) _ _ _ _ following state names marker rfl id
        rfl (Or.inl rfl) rfl following.withdrawn following.carries
  | @rename _ _ boundary loaded owned =>
      rw [owned] at carries
      obtain ⟨running, same, installed, watermark, shown⟩ := carries
      have upstream := same loaded rfl
      have below : boundary < 2 ^ 64 := by
        have phase := shown.phase
        rw [installed] at phase
        exact lt_of_le_of_lt (phase.trans (shown.disk.usable.covered.trans shown.disk.handed))
          shown.disk.bounded
      have valid : DurableReplicaState.Valid (.ready ⟨loaded, boundary⟩) := by
        rw [upstream]
        exact ⟨following.identified.1, following.identified.2, below⟩
      refine following.keep (names_renamed directory valid) ?_ rfl id rfl (Or.inl rfl) rfl trivial
        ⟨running, by simp, installed, watermark, shown⟩
      intro identity same
      cases same
      exact upstream
  | fail owned =>
      rw [owned] at carries
      obtain ⟨running, _, _, watermark, shown⟩ := carries
      exact following.keep names marker rfl id rfl (Or.inl rfl) rfl trivial
        (Or.inr ⟨running, watermark, shown.toKept.withStore (Clock.Leads.refl _) trivial, shown.behind,
          shown.view⟩)
  | lose owned =>
      rw [owned] at carries
      obtain ⟨_, _, _, watermark, shown⟩ := carries
      exact following.keep names marker rfl id rfl (Or.inl rfl) rfl trivial
        (Or.inl ⟨rfl, watermark, _, _, shown.toKept.withStore (Clock.Leads.refl _) trivial⟩)
  | @finish _ _ boundary owned =>
      have ended : node.failStopped = false ∧ node.server.compaction = some (.installed boundary) ∧
          ∃ watermark, Shown directory.toDirectory node.server (lineages.batches replid) watermark := by
        rcases owned with ⟨owned, _⟩ | owned
        · rw [owned] at carries
          exact ⟨carries.1, carries.2.2⟩
        · rw [owned] at carries
          exact ⟨carries.1, carries.2.2⟩
      obtain ⟨running, installed, watermark, shown⟩ := ended
      obtain ⟨⟨higher, done⟩, _⟩ := shown.runs (.finish installed)
      exact following.keep names marker rfl id rfl (Or.inl rfl) rfl trivial
        (Or.inr ⟨running, higher, done⟩)

theorem Following.ambient (following : Following lineages replid directory node state)
    (names : Names directory.replicaState state)
    (step : AmbientStep (directory, node) (other, after)) : Stands lineages other after := by
  have marker := following.marker
  have carries := following.carries
  have withdrawn := following.withdrawn
  cases step with
  | disconnect present between =>
      exact following.keep names marker rfl id rfl (Or.inr (Or.inl rfl)) rfl withdrawn carries
  | resume linked known between =>
      refine following.keep names marker rfl id rfl (Or.inr (Or.inr ?_)) rfl withdrawn carries
      show Link.following node.localReplid = .following replid
      rw [following.known.resolve_left known]
  | refuseWrites => exact following.keep names marker rfl id rfl (Or.inl rfl) rfl withdrawn carries
  | unready =>
      refine following.keep names marker rfl (by simp) rfl (Or.inl rfl) rfl ?_ carries
      unfold Withdrawn at withdrawn ⊢
      match node.holder, withdrawn with
      | some (.reception _ .marked), withdrawn => exact withdrawn
      | some (.promotion .detached), withdrawn => exact withdrawn
      | some (.reception _ .unready), withdrawn => exact ⟨withdrawn.1, rfl⟩
      | none, _ => trivial
      | some (.reception _ .entered), _ => trivial
      | some (.reception _ .checked), _ => trivial
      | some (.effect _ _ _), _ => trivial
      | some (.install _ _), _ => trivial
      | some (.promotion .entered), _ => trivial
      | some (.promotion .checked), _ => trivial
      | some (.promotion .unnamed), _ => trivial
      | some (.promotion .unready), _ => trivial
      | some (.promotion .promoted), _ => trivial
      | some (.finalization _ _), _ => trivial
  | requestStop => exact following.keep names marker rfl id rfl (Or.inl rfl) rfl withdrawn carries
  | failStop free visible =>
      obtain ⟨watermark, shown⟩ := following.running free visible
      exact following.keep names marker rfl id rfl (Or.inl rfl) rfl trivial
        (Or.inl ⟨rfl, watermark, _, _, shown.toKept⟩)

theorem Following.tends (following : Following lineages replid directory node state)
    (names : Names directory.replicaState state) {files : Directory} {server : Server}
    (tends : Tends directory.toDirectory node.server files server) :
    Stands lineages { directory with toDirectory := files } { node with server } :=
  @Following.keep _ _ _ { directory with toDirectory := files } _ { node with server } _ _ following state
    names following.marker rfl id rfl (Or.inl rfl) rfl following.withdrawn
    (following.carries.tends tends rfl rfl)

theorem Following.maintenance (following : Following lineages replid directory node state)
    (names : Names directory.replicaState state)
    (step : MaintenanceStep (directory, node) (other, after)) : Stands lineages other after := by
  cases step with
  | @exclusive _ files _ server free visible runs ongoing =>
      obtain ⟨watermark, shown⟩ := following.running free visible
      obtain ⟨still, _⟩ := shown.runs runs
      refine @Following.keep _ _ _ { directory with toDirectory := files } _ { node with server } _ _
        following state names following.marker rfl id rfl (Or.inl rfl) rfl following.withdrawn ?_
      unfold Carries
      rw [free]
      exact Or.inr ⟨visible, still⟩
  | shared beside runs unguarded ongoing =>
      exact following.tends names (tends_of_runs runs unguarded ongoing)
  | observe ages => exact following.tends names (tends_observe ages)
  | fail writing begun unfinished =>
      exact following.tends names (tends_abandon writing unfinished rfl rfl rfl id rfl)
  | restore displaced =>
      obtain ⟨same, segments, binlog, settled, snapshot⟩ := restoreSnapshot_files directory.toDirectory
      exact following.tends names (tends_abandon displaced (by simp) same segments binlog settled snapshot)

/-- A node that follows an upstream has no baseline to install. -/
theorem Following.no_install (following : Following lineages replid directory node state)
    {upstreams : Upstreams} : ¬InstallCallStep upstreams (directory, node) event (other, after) := by
  intro step
  have carries := following.carries
  unfold Carries at carries
  have never {baseline : Baseline} {stage : InstallStage}
      (owned : node.holder = some (.install baseline stage)) : False := by
    rw [owned] at carries
    exact carries
  cases step with
  | enter free visible idle linked identified offered =>
      rcases following.linked with down | joined
      · rw [linked] at down
        cases down
      · rw [linked] at joined
        cases joined
  | refuse owned refused => exact never owned
  | check owned unpromoted wanted accepting => exact never owned
  | file owned early files => exact never owned
  | mark owned files => exact never owned
  | fail owned early => exact never owned
  | lose owned => exact never owned
  | replace owned => exact never owned
  | base owned => exact never owned
  | name owned => exact never owned
  | ready owned => exact never owned

theorem Following.no_master (following : Following lineages replid directory node state) :
    ¬MasterStep (directory, node) event (other, after) := by
  have replica := following.replica
  intro step
  cases step <;> simp_all

theorem Installed.stands {baseline : Baseline} {stage : InstallStage}
    (names : Names directory.replicaState state)
    (installed : Installed lineages baseline stage directory node state) :
    Stands lineages directory node :=
  ⟨state, names, Or.inr (Or.inr ⟨baseline, stage, installed⟩)⟩

theorem Installed.ambient {baseline : Baseline} {stage : InstallStage}
    (installed : Installed lineages baseline stage directory node state)
    (names : Names directory.replicaState state)
    (step : AmbientStep (directory, node) (other, after)) : Stands lineages other after := by
  have ⟨holder, marker, offers, disk, cleared, idle, running, unready, linked, unpromoted, _⟩ := installed
  cases step with
  | disconnect present between => exact absurd trivial (between _ holder)
  | resume linked known between => exact absurd trivial (between _ holder)
  | refuseWrites =>
      exact Installed.stands names ⟨holder, marker, offers, disk, cleared, idle, running, unready, linked,
        unpromoted, installed.arriving⟩
  | unready =>
      exact Installed.stands names ⟨holder, marker, offers, disk, cleared, idle, running, rfl, linked,
        unpromoted, installed.arriving⟩
  | requestStop =>
      exact Installed.stands names ⟨holder, marker, offers, disk, cleared, idle, running, unready, linked,
        unpromoted, installed.arriving⟩
  | failStop free visible =>
      rw [free] at holder
      cases holder

theorem Installed.maintenance {baseline : Baseline} {stage : InstallStage}
    (installed : Installed lineages baseline stage directory node state)
    (names : Names directory.replicaState state) (steady : node.server.store.engine.clock.Nondecreasing)
    (step : MaintenanceStep (directory, node) (other, after)) : Stands lineages other after := by
  have ⟨holder, marker, offers, disk, cleared, idle, running, unready, linked, unpromoted, _⟩ := installed
  cases step with
  | exclusive free visible runs ongoing =>
      rw [free] at holder
      cases holder
  | shared beside runs unguarded ongoing => exact absurd holder (beside baseline stage)
  | @observe _ _ store ages =>
      have order := ages.leads.now_le steady
      have view {content : Bytes → Option PersistentEntry}
          (before : ∀ time, node.server.store.engine.clock.now ≤ time →
            node.server.store.view time = visible time content) :
          ∀ time, store.engine.clock.now ≤ time → store.view time = visible time content := by
        intro time later
        rw [← before time (order.trans later)]
        exact ages.same_view (steady.upto later)
      refine Installed.stands names ⟨holder, marker, offers.later order, disk.later order, cleared, idle,
        running, unready, linked, unpromoted, ?_⟩
      have arriving := installed.arriving
      cases stage with
      | entered => exact arriving
      | filing phase => exact arriving
      | replaced => exact ⟨arriving.1, view arriving.2⟩
      | based => exact ⟨arriving.1, arriving.2.1, arriving.2.2.1, view arriving.2.2.2⟩
      | named => exact ⟨arriving.1, arriving.2.1, arriving.2.2.1, view arriving.2.2.2⟩
  | fail writing begun unfinished =>
      rw [idle] at writing
      cases writing
  | restore displaced =>
      rw [idle] at displaced
      cases displaced

theorem Installed.install {baseline : Baseline} {stage : InstallStage}
    (installed : Installed lineages baseline stage directory node state)
    (names : Names directory.replicaState state) (sane : Sane directory node)
    (step : InstallCallStep lineages.upstreams (directory, node) event (other, after)) :
    Stands lineages other after := by
  have ⟨holder, marker, offers, disk, cleared, idle, running, unready, linked, unpromoted, arriving⟩ :=
    installed
  have replica : node.isReplica = true := by
    by_contra master
    have promoted := sane.kind_of_present (sane.present holder trivial) (by simpa using master)
    rw [unpromoted] at promoted
    cases promoted
  have identified : baseline.identity.replid ≠ 0 ∧ baseline.identity.replid < 2 ^ 64 :=
    ⟨offers.sound.valid.1, offers.sound.valid.2.1⟩
  have named : ∀ identity, state = some (.ready identity) →
      identity.replid = baseline.identity.replid := by
    intro identity same
    rw [marker] at same
    cases same
    rfl
  cases step with
  | enter free visible idle linked identified offered =>
      rw [free] at holder
      cases holder
  | refuse owned refused =>
      rw [owned] at holder
      cases holder
      exact False.elim arriving
  | check owned unpromoted wanted accepting =>
      rw [owned] at holder
      cases holder
      exact False.elim arriving
  | file owned early files =>
      rw [owned] at holder
      cases holder
      obtain ⟨rfl, _⟩ := arriving
      cases files
  | mark owned files =>
      rw [owned] at holder
      cases holder
      obtain ⟨rfl, _⟩ := arriving
      cases files
  | fail owned early =>
      rw [owned] at holder
      cases holder
      obtain ⟨rfl, _⟩ := arriving
      simp at early
  | lose owned =>
      rw [owned] at holder
      cases holder
      refine Following.stands names ⟨identified, named, Or.inr arriving.2, ?_, ?_, Or.inl rfl, replica,
        trivial, Or.inl ⟨rfl, _, _, _, disk, sane.steady, ?_, ?_⟩⟩
      · simp [Node.enterPersistenceFailStop, Node.enterFailStop]
      · exact Or.inl (sane.fresh _ linked)
      · intro segment member
        rw [cleared] at member
        cases member
      · show Phase _ _ _ _ _ node.server.compaction
        rw [idle]
        trivial
  | replace owned =>
      rw [owned] at holder
      cases holder
      have leads := replaceAll_leads node.server.store baseline.entries
      have order := leads.now_le sane.steady
      refine Installed.stands names ⟨rfl, marker, offers.later order, disk.later order, cleared, idle, running,
        unready, linked, unpromoted, arriving.2, ?_⟩
      intro time later
      have reached := offers.passed.trans (order.trans later)
      show (node.server.store.replaceAll baseline.entries).view time = _
      rw [← offers.view time reached]
      exact replaceAll_rawEntries_view node.server.store baseline.staging (offers.steady.upto reached)
  | base owned =>
      rw [owned] at holder
      cases holder
      exact Installed.stands names ⟨rfl, marker, offers, disk, cleared, idle, running, unready, linked,
        unpromoted, arriving.1, rfl, rfl, arriving.2⟩
  | name owned =>
      rw [owned] at holder
      cases holder
      exact Installed.stands names ⟨rfl, marker, offers, disk, cleared, idle, running, unready, linked,
        unpromoted, rfl, arriving.2⟩
  | ready owned =>
      rw [owned] at holder
      cases holder
      obtain ⟨upstream, sequence, watermark, view⟩ := arriving
      refine Following.stands names ⟨identified, named, Or.inl upstream, fun _ => upstream, Or.inr rfl,
        Or.inr rfl, replica, trivial, Or.inr ⟨running, baseline.identity.baselineSequence,
          ⟨?_, sane.steady, ?_, ?_⟩, watermark.le, ?_⟩⟩
      · rw [sequence]
        exact disk
      · intro segment member
        rw [cleared] at member
        cases member
      · show Phase _ _ _ _ _ node.server.compaction
        rw [idle]
        trivial
      · rw [sequence]
        exact view

/-- While a baseline is being installed no other task owns the gate. -/
theorem Installed.elsewhere {baseline : Baseline} {stage : InstallStage}
    (installed : Installed lineages baseline stage directory node state) {upstreams : Upstreams} :
    ¬ReceptionStep (directory, node) (other, after) ∧
      ¬EffectStep upstreams (directory, node) event (other, after) ∧
      ¬PromotionStep (directory, node) event (other, after) ∧
      ¬FinalizationStep (directory, node) event (other, after) ∧
      ¬MasterStep (directory, node) event (other, after) := by
  have holder := installed.holder
  refine ⟨?_, ?_, ?_, ?_, ?_⟩
  · intro step
    cases step <;> simp_all
  · intro step
    cases step <;> simp_all
  · intro step
    cases step with
    | prepare free ready => simp_all
    | _ => simp_all
  · intro step
    cases step <;> simp_all
  · intro step
    cases step <;> simp_all

end Claiming

section Runs
variable [Platform] {lineages : Lineages} {directory other : ReplicaDirectory} {node after : Node}
  {event : Event}

theorem Sane.maintenance (sane : Sane directory node)
    (step : MaintenanceStep (directory, node) (other, after)) : Sane other after := by
  have ⟨steady, settled, names, kind, fresh, task⟩ := sane
  have carried {files : Directory} {server : Server}
      (runs : Runs (directory.toDirectory, node.server) (files, server)) :
      Sane { directory with toDirectory := files } { node with server } := by
    obtain ⟨same, still⟩ := runs_files runs
    exact ⟨(runs_writes_nothing runs).1.leads.nondecreasing steady, still settled, same.trans names, kind,
      fresh, task⟩
  cases step with
  | exclusive free visible runs ongoing => exact carried runs
  | shared beside runs unguarded ongoing => exact carried runs
  | observe ages => exact sane.tends (tends_observe ages)
  | fail writing begun unfinished => exact ⟨steady, settled, names, kind, fresh, task⟩
  | restore displaced =>
      obtain ⟨same, _, _, still, _⟩ := restoreSnapshot_files directory.toDirectory
      exact ⟨steady, still settled, same.trans names, kind, fresh, task⟩

theorem Stands.promoted (stands : Stands lineages directory node)
    (owned : node.holder = some (.promotion .promoted)) : node.promoteToMaster = true := by
  obtain ⟨state, _, unclaimed | ⟨replid, following⟩ | ⟨baseline, stage, installed⟩⟩ := stands
  · have idles := unclaimed.idles
    unfold Idles at idles
    rw [owned] at idles
    exact idles.2.2 rfl
  · have carries := following.carries
    unfold Carries at carries
    rw [owned] at carries
    simp at carries
  · have holder := installed.holder
    rw [owned] at holder
    cases holder

/-- Every step of a node keeps its claims true. -/
theorem Stands.step (stands : Stands lineages directory node) (sane : Sane directory node)
    (step : NodeStep lineages.upstreams (directory, node) event (other, after)) :
    Sane other after ∧ Stands lineages other after := by
  have promoted := stands.promoted
  obtain ⟨state, names, unclaimed | ⟨replid, following⟩ | ⟨baseline, stage, installed⟩⟩ := stands
  · cases step with
    | reception step => exact ⟨sane.reception step, unclaimed.reception names step⟩
    | effect step => exact ⟨sane.effect step, unclaimed.effect names step⟩
    | install step => exact ⟨sane.install step, unclaimed.install names sane step⟩
    | promotion step => exact ⟨sane.promotion promoted step, unclaimed.promotion names step⟩
    | finalization step => exact ⟨sane.finalization step, unclaimed.finalization names step⟩
    | maintenance step => exact ⟨sane.maintenance step, unclaimed.maintenance names sane.steady step⟩
    | master step => exact ⟨sane.master step, unclaimed.master names step⟩
    | ambient step => exact ⟨sane.ambient step, unclaimed.ambient names step⟩
  · cases step with
    | reception step => exact ⟨sane.reception step, following.reception names step⟩
    | effect step => exact ⟨sane.effect step, following.effect names step⟩
    | install step => exact absurd step following.no_install
    | promotion step => exact ⟨sane.promotion promoted step, following.promotion names step⟩
    | finalization step => exact ⟨sane.finalization step, following.finalization names step⟩
    | maintenance step => exact ⟨sane.maintenance step, following.maintenance names step⟩
    | master step => exact absurd step following.no_master
    | ambient step => exact ⟨sane.ambient step, following.ambient names step⟩
  · obtain ⟨noReception, noEffect, noPromotion, noFinalization, noMaster⟩ :=
      @Installed.elsewhere _ lineages directory other node after event state baseline stage installed
        lineages.upstreams
    cases step with
    | reception step => exact absurd step noReception
    | effect step => exact absurd step noEffect
    | install step => exact ⟨sane.install step, installed.install names sane step⟩
    | promotion step => exact absurd step noPromotion
    | finalization step => exact absurd step noFinalization
    | maintenance step => exact ⟨sane.maintenance step, installed.maintenance names sane.steady step⟩
    | master step => exact absurd step noMaster
    | ambient step => exact ⟨sane.ambient step, installed.ambient names step⟩

theorem Carries.disk {replid : Nat} {files : Directory} (carries : Carries lineages replid files node) :
    ∃ watermark last tail, Disk files (lineages.batches replid) watermark last tail
      node.server.store.engine.clock.now := by
  have of_shown (shown : ∃ watermark, Shown files node.server (lineages.batches replid) watermark) :
      ∃ watermark last tail, Disk files (lineages.batches replid) watermark last tail
        node.server.store.engine.clock.now := by
    obtain ⟨watermark, shown⟩ := shown
    exact ⟨watermark, _, _, shown.disk⟩
  have of_free (free : (node.failStopped = true ∧ ∃ watermark last tail,
        Kept files node.server (lineages.batches replid) watermark last tail) ∨
      (node.failStopped = false ∧ ∃ watermark,
        Shown files node.server (lineages.batches replid) watermark)) :
      ∃ watermark last tail, Disk files (lineages.batches replid) watermark last tail
        node.server.store.engine.clock.now := by
    rcases free with ⟨_, watermark, last, tail, kept⟩ | ⟨_, shown⟩
    · exact ⟨watermark, last, tail, kept.disk⟩
    · exact of_shown shown
  unfold Carries at carries
  match node.holder, carries with
  | none, carries => exact of_free carries
  | some (.reception _ _), carries => exact of_free carries
  | some (.effect _ _ .entered), ⟨_, _, shown⟩ => exact of_shown shown
  | some (.effect _ _ .checked), ⟨_, _, _, shown⟩ => exact of_shown shown
  | some (.effect _ _ .accepted), ⟨_, watermark, _, _, _, _, _, kept, _⟩ =>
      exact ⟨watermark, _, _, kept.disk⟩
  | some (.promotion _), ⟨_, _, shown⟩ => exact of_shown shown
  | some (.finalization _ _), ⟨_, _, _, shown⟩ => exact of_shown shown

/-- Whenever the process dies, what the marker says is true of the directory. -/
theorem Stands.truthful (stands : Stands lineages directory node) :
    Truthful lineages directory node.server.store.engine.clock.now := by
  obtain ⟨state, names, unclaimed | ⟨replid, following⟩ | ⟨baseline, stage, installed⟩⟩ := stands
  · exact ⟨state, names, fun identity ready => absurd ready (unclaimed.marker identity)⟩
  · refine ⟨state, names, ?_⟩
    intro identity ready
    rw [following.marker identity ready]
    exact following.carries.disk
  · refine ⟨state, names, ?_⟩
    intro identity ready
    rw [installed.marker] at ready
    cases ready
    exact ⟨_, _, _, installed.disk⟩

omit [Platform] in
/-- What startup makes of a marker. -/
theorem startup_cases {file marker : Option Bytes} {state : Option DurableReplicaState}
    (names : Names file state) {watermark : Nat} {configuredAsReplica : Bool}
    {identity : Option ReplicaIdentity}
    (startup : prepareReplicationStartup file watermark configuredAsReplica = .ok (identity, marker)) :
    (identity = none ∧ ∃ named, Names marker named ∧ ∀ ready, named ≠ some (.ready ready)) ∨
      ∃ ready, state = some (.ready ready) ∧ marker = file ∧ configuredAsReplica = true ∧
        (identity = none ∨ identity = some ready) := by
  obtain ⟨rfl, valid⟩ := names
  unfold prepareReplicationStartup at startup
  cases state with
  | none =>
      cases configuredAsReplica <;> cases startup <;>
        exact Or.inl ⟨rfl, none, ⟨rfl, valid⟩, by simp⟩
  | some named =>
      rw [Option.map_some, loadDurableReplicaState_marker (valid named rfl)] at startup
      cases named with
      | detached =>
          cases configuredAsReplica <;> cases startup <;>
            exact Or.inl ⟨rfl, some .detached, ⟨rfl, valid⟩, by simp⟩
      | installing =>
          cases configuredAsReplica <;> cases startup
          exact Or.inl ⟨rfl, some .installing, ⟨rfl, valid⟩, by simp⟩
      | ready ready =>
          simp only [DurableReplicaState.observed] at startup
          split at startup
          · cases configuredAsReplica <;> cases startup
            exact Or.inr ⟨ready, rfl, rfl, rfl, Or.inl rfl⟩
          · cases configuredAsReplica <;> cases startup
            · refine Or.inl ⟨rfl, some .detached, ⟨rfl, ?_⟩, by simp⟩
              intro found member
              cases member
              trivial
            · exact Or.inr ⟨ready, rfl, rfl, rfl, Or.inr rfl⟩

theorem Sane.start {store : ShardedStore} {files : Directory} {result : Recovered}
    (accepted : loadDataFromPaths store files = .ok result)
    (steady : store.engine.clock.Nondecreasing) (directory : ReplicaDirectory) (server : Server)
    (same : server.store = result.store) (identity : Option ReplicaIdentity)
    (configuredAsReplica : Bool) :
    Sane { directory with toDirectory := result.directory }
      (.start server identity configuredAsReplica) := by
  obtain ⟨staging, leaves⟩ := leaves_of_accepted accepted
  have leads := leaves.snapshot.leads.trans (recovered_leads accepted leaves.snapshot)
  refine ⟨?_, leaves.settled, leaves.sound.names, ?_, ?_, task_none⟩
  · show server.store.engine.clock.Nondecreasing
    rw [same]
    exact leads.nondecreasing steady
  · intro master
    cases configuredAsReplica with
    | true => cases master
    | false => exact Or.inr rfl
  · intro replid receiving
    cases configuredAsReplica <;> cases receiving

/-- A directory that recovers is no less true for it. -/
theorem Truthful.recovered {clock : Clock} (gzip : GzipRoundTrips)
    (truthful : Truthful lineages directory clock.now) (steady : clock.Nondecreasing)
    {store : ShardedStore} (same : store.engine.clock = clock) {result : Recovered}
    (accepted : loadDataFromPaths store directory.toDirectory = .ok result) :
    ∃ state, Names directory.replicaState state ∧ ∀ identity, state = some (.ready identity) →
      ∃ watermark last tail,
        Disk directory.toDirectory (lineages.batches identity.replid) watermark last tail clock.now ∧
        result.state.lastSequence = last ∧ result.state.snapshotWatermark = watermark ∧
        clock.Leads result.store.engine.clock ∧
        (∀ time, result.store.engine.clock.now ≤ time → result.store.view time =
          visible time (content (lineages.batches identity.replid) last)) ∧
        Disk result.directory (lineages.batches identity.replid) watermark last [] clock.now := by
  obtain ⟨state, names, claims⟩ := truthful
  refine ⟨state, names, ?_⟩
  intro identity ready
  obtain ⟨watermark, last, tail, disk⟩ := claims identity ready
  obtain ⟨found, loaded, number, mark, leads, view, repaired⟩ :=
    disk.recovers gzip store (same ▸ steady) (same ▸ le_rfl)
  rw [loaded] at accepted
  cases accepted
  exact ⟨watermark, last, tail, disk, number, mark, same ▸ leads, view, repaired⟩

/-- A node starts with claims that are true. -/
theorem stands_start {clock : Clock} (gzip : GzipRoundTrips)
    (truthful : Truthful lineages directory clock.now) (steady : clock.Nondecreasing)
    {store : ShardedStore} (same : store.engine.clock = clock) {result : Recovered}
    (accepted : loadDataFromPaths store directory.toDirectory = .ok result)
    {configuredAsReplica : Bool} {identity : Option ReplicaIdentity} {marker : Option Bytes}
    (startup : prepareReplicationStartup directory.replicaState result.state.snapshotWatermark
      configuredAsReplica = .ok (identity, marker)) :
    Stands lineages { directory with toDirectory := result.directory, replicaState := marker }
      (.start ⟨result.store, result.state.lastSequence, result.state.snapshotWatermark, false, none⟩
        identity configuredAsReplica) := by
  obtain ⟨state, names, claims⟩ := truthful.recovered gzip steady same accepted
  rcases startup_cases names startup with ⟨rfl, named, written, unready⟩ |
    ⟨ready, rfl, rfl, rfl, resumed⟩
  · exact stands_unclaimed written unready rfl rfl trivial
  · obtain ⟨watermark, last, _, _, number, mark, leads, view, repaired⟩ := claims ready rfl
    have order := leads.now_le steady
    have valid := names.valid _ rfl
    refine @Following.stands _ _ { directory with toDirectory := result.directory } _ _ ready.replid names
      ⟨⟨valid.1, valid.2.1⟩, ?_, ?_, ?_, ?_, Or.inl rfl, rfl, trivial, Or.inr ⟨rfl, watermark,
        ⟨?_, leads.nondecreasing steady, ?_, trivial⟩, mark.le, ?_⟩⟩
    · intro other equal
      cases equal
      rfl
    · rcases resumed with rfl | rfl
      · exact Or.inr rfl
      · exact Or.inl rfl
    · intro set
      rcases resumed with rfl | rfl
      · cases set
      · rfl
    · rcases resumed with rfl | rfl
      · exact Or.inl rfl
      · exact Or.inr rfl
    · show Disk _ _ _ result.state.lastSequence _ _
      rw [number]
      exact repaired.later order
    · intro segment member below
      exact below.trans mark.le
    · show ∀ time, _ → _ = visible time (content _ result.state.lastSequence)
      rw [number]
      exact view

/-- Every step of the system keeps the claims of its directory true. -/
theorem Upheld.step {system next : ReplicaSystem} (gzip : GzipRoundTrips) (upheld : Upheld lineages system)
    (step : SystemStep lineages system next) : Upheld lineages next := by
  unfold Upheld at upheld
  cases step with
  | run up step =>
      rw [up] at upheld
      exact upheld.2.step upheld.1 step
  | crash up =>
      rw [up] at upheld
      exact ⟨upheld.1.steady, upheld.2.truthful⟩
  | wait down later =>
      rw [down] at upheld
      obtain ⟨steady, state, names, claims⟩ := upheld
      unfold Upheld
      simp only [down]
      refine ⟨later.nondecreasing steady, state, names, ?_⟩
      intro identity ready
      obtain ⟨watermark, last, tail, disk⟩ := claims identity ready
      exact ⟨watermark, last, tail, disk.later (later.now_le steady)⟩
  | crashInRecovery down same accepted split covered =>
      rw [down] at upheld
      obtain ⟨steady, truthful⟩ := upheld
      obtain ⟨state, names, claims⟩ := truthful.recovered gzip steady same accepted
      unfold Upheld
      simp only [down]
      refine ⟨steady, state, names, ?_⟩
      intro identity ready
      obtain ⟨watermark, last, tail, disk, _, mark, _⟩ := claims identity ready
      rw [mark] at covered
      exact ⟨watermark, last, [], disk.truncate.remove split covered⟩
  | crashInStartup temporary down same accepted =>
      rw [down] at upheld
      obtain ⟨steady, truthful⟩ := upheld
      obtain ⟨state, names, claims⟩ := truthful.recovered gzip steady same accepted
      unfold Upheld
      simp only [down]
      refine ⟨steady, state, names, ?_⟩
      intro identity ready
      obtain ⟨watermark, last, _, _, _, _, _, _, repaired⟩ := claims identity ready
      exact ⟨watermark, last, [], repaired⟩
  | @start store result configuredAsReplica identity marker down same accepted startup =>
      rw [down] at upheld
      obtain ⟨steady, truthful⟩ := upheld
      refine ⟨?_, stands_start gzip truthful steady same accepted startup⟩
      have sane := Sane.start accepted (same ▸ steady) system.directory
        ⟨result.store, result.state.lastSequence, result.state.snapshotWatermark, false, none⟩ rfl
        identity configuredAsReplica
      exact ⟨sane.steady, sane.settled, sane.names, sane.kind, sane.fresh, sane.task⟩

theorem upheld_of_reachable {clock : Clock} (gzip : GzipRoundTrips) (steady : clock.Nondecreasing)
    {system : ReplicaSystem} (reachable : Reachable lineages clock system) : Upheld lineages system := by
  induction reachable with
  | start directory unmarked => exact ⟨steady, none, ⟨unmarked, by simp⟩, by simp⟩
  | step before next upheld => exact upheld.step gzip next

/-- Whatever a node has been through, an identity that startup returns is true: the recovered store is
the state of that upstream after its batch of the recovered sequence. -/
theorem startup_identity_true (lineages : Lineages) (clock : Clock) (system : ReplicaSystem)
    (store : ShardedStore) (result : Recovered) (configuredAsReplica : Bool)
    (identity : ReplicaIdentity) (marker : Option Bytes) (gzip : GzipRoundTrips)
    (steady : clock.Nondecreasing) (reachable : Reachable lineages clock system)
    (down : system.process = none) (same : store.engine.clock = system.clock)
    (accepted : loadDataFromPaths store system.directory.toDirectory = .ok result)
    (startup : prepareReplicationStartup system.directory.replicaState result.state.snapshotWatermark
      configuredAsReplica = .ok (some identity, marker)) :
    result.state.lastSequence ≤ (lineages.batches identity.replid).length ∧
      ∀ time, result.store.engine.clock.now ≤ time → result.store.view time =
        visible time (content (lineages.batches identity.replid) result.state.lastSequence) := by
  have upheld := upheld_of_reachable gzip steady reachable
  rw [Upheld, down] at upheld
  obtain ⟨state, names, claims⟩ := upheld.2.recovered gzip upheld.1 same accepted
  rcases startup_cases names startup with ⟨absent, _⟩ | ⟨ready, rfl, _, _, resumed⟩
  · cases absent
  · have named : identity = ready := by
      rcases resumed with absent | present
      · cases absent
      · exact Option.some.inj present
    subst named
    obtain ⟨_, last, _, disk, number, _, _, view, _⟩ := claims identity rfl
    rw [number]
    exact ⟨disk.handed, view⟩

/-- Every upstream has deleted the key `k` once. -/
def deletions : Lineages := ⟨fun _ => [loggedDeletion], fun _ => by simp⟩

/-- The state of an upstream after its deletion. -/
def emptyBaseline : Baseline := ⟨⟨7, 1⟩, .new (.constant 0)⟩

theorem emptyBaseline_entries : emptyBaseline.entries = [] := by
  apply List.eq_nil_iff_forall_not_mem.mpr
  intro entry member
  refine @Holding.rawEntries _ (fun _ _ => False) _ ?_ entry member
  intro key held present
  cases present

theorem emptyBaseline_offered (gzip : GzipRoundTrips) (now : Nat) : deletions.Offers emptyBaseline now := by
  have fixed : (Clock.constant 0).Fixed 0 := fun _ => rfl
  have passed : emptyBaseline.staging.rawEntries.2.engine.clock.now = 0 :=
    ((rawEntries_leads emptyBaseline.staging).fixed fixed).now
  have content : content [loggedDeletion] 1 = fun _ => none :=
    Function.update_eq_self ([107] : Bytes) (fun _ => none)
  refine ⟨⟨⟨by decide, by decide, by decide⟩, gzip, ?_⟩, le_rfl, fixed.nondecreasing, ?_, ?_⟩
  · rw [emptyBaseline_entries]
    simp
  · rw [passed]
    exact Nat.zero_le now
  · intro time _
    show (ShardedStore.new _).view time = visible time (Lifecycle.content [loggedDeletion] 1)
    rw [content]
    rfl

/-- A replica dies between the marker and the new content of its store. -/
theorem baseline_reachable (gzip : GzipRoundTrips) :
    ∃ system, Reachable deletions (.constant 0) system ∧ system.process = none ∧
      Replaced emptyBaseline system.directory.toDirectory ∧
      system.directory.replicaState = some (durableReplicaState (.ready ⟨7, 1⟩)) := by
  have empty : Sound {} 0 [] := usable_empty.toSound
  have snapshot : Snapshotted (Clock.constant 0) {} 0 (.new (.constant 0)) :=
    ⟨.missing, rfl, by simp, rfl, rfl⟩
  have written : snapshotFile emptyBaseline.entries 1 = snapshotFile [] 1 := by
    rw [emptyBaseline_entries]
  have begun : Reachable deletions (.constant 0) ⟨{}, .constant 0, none⟩ := .start {} rfl
  have started := begun.step (.start rfl rfl (empty.loads ⟨rfl, rfl⟩ (.new (.constant 0)) snapshot)
    (rfl : prepareReplicationStartup none 0 true = .ok (none, none)))
  have received := ((((started.step (.run rfl (.reception (.enter 7 rfl rfl)))).step
    (.run rfl (.reception (.check rfl rfl rfl rfl)))).step
    (.run rfl (.reception (.rename rfl)))).step
    (.run rfl (.reception (.unready rfl)))).step
    (.run rfl (.reception (.finish rfl)))
  have entered := received.step (.run rfl (.install (@InstallCallStep.enter _ _ _ _ emptyBaseline rfl rfl
    rfl rfl (by decide) (emptyBaseline_offered gzip _))))
  have filed := ((((((entered.step (.run rfl (.install (.check rfl rfl rfl rfl)))).step
    (.run rfl (.install (.file rfl (by decide) .renameInstalling)))).step
    (.run rfl (.install (.file rfl (by decide) .truncateActive)))).step
    (.run rfl (.install (.file rfl (by decide) (.finishRemoval rfl))))).step
    (.run rfl (.install (.file rfl (by decide) (.finishTemporary written))))).step
    (.run rfl (.install (.file rfl (by decide) .displace)))).step
    (.run rfl (.install (.file rfl (by decide) .install)))
  have crashed := (filed.step (.run rfl (.install (.mark rfl .renameIdentity)))).step (.crash rfl)
  exact ⟨_, crashed, rfl, ⟨⟨rfl, rfl, rfl⟩, ⟨rfl, rfl⟩, _, rfl, written⟩, rfl⟩

end Runs

/-- A replica that dies with the marker in place starts with the baseline. -/
theorem replica_restarts_with_baseline :
    letI := Reference.platform (fun _ => .error "unsupported")
    ∃ system result marker, Reachable deletions (.constant 0) system ∧ system.process = none ∧
      loadDataFromPaths (.new system.clock) system.directory.toDirectory = .ok result ∧
      prepareReplicationStartup system.directory.replicaState result.state.snapshotWatermark true =
        .ok (some ⟨7, 1⟩, marker) ∧
      result.state.lastSequence = 1 ∧
      ∀ time, result.store.engine.clock.now ≤ time →
        result.store.view time = visible time (content [loggedDeletion] 1) := by
  let _ := Reference.platform (fun _ => .error "unsupported")
  have gzip : GzipRoundTrips := Reference.gunzip_gzip
  obtain ⟨system, reachable, down, replaced, marked⟩ := baseline_reachable gzip
  have restarts := replaced.restartsAt (emptyBaseline_offered gzip 0).sound marked
  obtain ⟨result, accepted, identity, marker, startup, _, ready⟩ := restarts (.new system.clock)
  obtain ⟨rfl, number, _⟩ := ready rfl
  have answer := startup_identity_true deletions (.constant 0) system _ _ true _ marker gzip
    (Clock.Fixed.nondecreasing (fun _ => rfl)) reachable down rfl accepted startup
  rw [number] at answer
  exact ⟨system, result, marker, reachable, down, accepted, startup, number, answer.2⟩

end OnyxDB.Replication
