import OnyxDB.Library.Trace
import OnyxDB.Replication.Follower
import OnyxDB.Replication.Promotion

/-! A master, a replica, and the connection between them. The two run beside each other: groups are committed while a
handler writes and the replica reads, connections break at any point, and the master may be another process when the
replica comes back. -/

namespace OnyxDB.Replication.Stream
open OnyxDB.Library OnyxDB.Engine OnyxDB.Engine.Value OnyxDB.Store OnyxDB.Persistence.Model
  OnyxDB.Persistence.Commit OnyxDB.Coordinator

section Model
variable [Platform]

/-- A replication connection: its handler, unless that has closed, what has been written and not yet read, and where
the replica is. -/
structure Link where
  session : Option Session
  wire : List Frame
  reception : Reception

/-- A master process under its replication ID, and a replica. -/
structure Cluster where
  replid : Nat
  master : Server
  replica : Replica
  link : Option Link

/-- What the handler of a connection does. Whatever it cannot encode makes it close. -/
inductive HandlerStep (replid : Nat) : Server → Link → Server → Link → Prop where
  | subscribe {server : Server} {link : Link} {session : Session} (present : link.session = some session)
      (asked : session.stage = .requested) :
      HandlerStep replid server link server { link with session := some (session.subscribe server) }
  | captureBacklog {server : Server} {link : Link} {session : Session} (present : link.session = some session)
      (subscribed : session.stage = .subscribed) :
      HandlerStep replid server link server { link with session := some (session.captureBacklog replid server) }
  | captureSnapshot {server : Server} {link : Link} {session : Session} (present : link.session = some session)
      (dumping : session.stage = .dumping) :
      HandlerStep replid server link (session.captureSnapshot replid server).2
        { link with session := some (session.captureSnapshot replid server).1 }
  | write {server : Server} {link : Link} {session : Session} {frame : Frame} {frames : List Frame}
      (present : link.session = some session) (owing : session.stage = .sending (frame :: frames))
      (encodes : frame.Encodes) :
      HandlerStep replid server link server { link with
        session := some { session with stage := .sending frames }
        wire := link.wire ++ [frame] }
  | serve {server : Server} {link : Link} {session after : Session} {frames : List Frame}
      (present : link.session = some session) (live : session.stage = .sending [])
      (served : session.serve server = some (after, frames)) (encodes : ∀ frame ∈ frames, frame.Encodes) :
      HandlerStep replid server link server { link with session := some after, wire := link.wire ++ frames }
  | beat {server : Server} {link : Link} {session : Session} (present : link.session = some session)
      (live : session.stage = .sending []) (enabled : session.request.heartbeat = true) :
      HandlerStep replid server link server
        { link with wire := link.wire ++ [.heartbeat session.lastSentOffset] }
  /-- The receiver lags, an effect cannot be encoded or written, or the acknowledgements fail to come. -/
  | close {server : Server} {link : Link} : HandlerStep replid server link server { link with session := none }

/-- What becomes of a connection whose next frame has been read. -/
def Link.goOn (link : Link) (rest : List Frame) : Except PersistenceError Reception → Option Link
  | .ok reception => some { link with wire := rest, reception }
  | .error _ => none

variable [Process]

/-- The steps of one moment. The replica receives a frame when it has what it waits for, be it a gate or the commit
boundary of its own process. A process that takes the place of the master draws an ID that the replica has not heard
of; the connection to the old one is gone by then. -/
inductive ClusterStep (time : Nat) : Cluster → Cluster → Prop where
  | master {cluster : Cluster} {after : Server} (step : ServerStep cluster.master after) :
      ClusterStep time cluster { cluster with master := after }
  | observe {cluster : Cluster} {store : ShardedStore} (step : QuietStep cluster.replica.server.store store) :
      ClusterStep time cluster { cluster with
        replica := { cluster.replica with server := { cluster.replica.server with store } } }
  | connect {cluster : Cluster} (idle : cluster.link = none) :
      ClusterStep time cluster { cluster with
        link := some {
          session := some (.new ⟨cluster.replica.localReplid, cluster.replica.localOffset, true⟩)
          wire := []
          reception := .handshake cluster.replica.localReplid cluster.replica.localOffset } }
  | handle {cluster : Cluster} {link after : Link} {master : Server} (linked : cluster.link = some link)
      (step : HandlerStep cluster.replid cluster.master link master after) :
      ClusterStep time cluster { cluster with master, link := some after }
  | receive {cluster : Cluster} {link : Link} {frame : Frame} {rest : List Frame} {words : List String}
      (linked : cluster.link = some link) (arrived : link.wire = frame :: rest) (worded : frame.words = .ok words)
      (readable : frame.Readable) (storage : Storage) (append : AppendBatches) :
      ClusterStep time cluster { cluster with
        link := link.goOn rest (cluster.replica.receive storage append frame words link.reception).1
        replica := (cluster.replica.receive storage append frame words link.reception).2 }
  /-- A record that is not decoded: the replica gives the connection up before it has done anything. -/
  | misread {cluster : Cluster} {link : Link} {frame : Frame} {rest : List Frame} (linked : cluster.link = some link)
      (arrived : link.wire = frame :: rest) (garbled : ¬ frame.Readable) :
      ClusterStep time cluster { cluster with link := none }
  | disconnect {cluster : Cluster} : ClusterStep time cluster { cluster with link := none }
  | requestStop {cluster : Cluster} :
      ClusterStep time cluster { cluster with replica := { cluster.replica with stopRequested := true } }
  | succeed {cluster : Cluster} {replid : Nat} {master : Server} (gone : cluster.link = none)
      (fresh : Fresh time master) (bounded : master.runtime.replOffset < 2 ^ 64)
      (drawn : replid ≠ 0 ∧ replid < 2 ^ 64 ∧ replid ≠ cluster.replica.localReplid) :
      ClusterStep time cluster { cluster with replid, master }

/-- A staging store reads the wall clock like any other. -/
def Reception.withClock (clock : Clock) : Reception → Reception
  | .entries replid sequence remaining seenKeys staging =>
      .entries replid sequence remaining seenKeys (ShardedStore.withClock staging clock)
  | reception => reception

def Server.withClock (server : Server) (clock : Clock) : Server :=
  { server with store := ShardedStore.withClock server.store clock }

def Cluster.withClock (cluster : Cluster) (clock : Clock) : Cluster where
  replid := cluster.replid
  master := Server.withClock cluster.master clock
  replica := { cluster.replica with server := Server.withClock cluster.replica.server clock }
  link := cluster.link.map (fun link => { link with reception := link.reception.withClock clock })

/-- Everything that a master and a replica that does not know it come to. -/
inductive Reached (start : Nat) : Nat → Cluster → Prop where
  | start {cluster : Cluster} (idle : cluster.link = none) (fresh : Fresh start cluster.master)
      (bounded : cluster.master.runtime.replOffset < 2 ^ 64)
      (drawn : cluster.replid ≠ 0 ∧ cluster.replid < 2 ^ 64 ∧ cluster.replid ≠ cluster.replica.localReplid)
      (fixed : cluster.replica.server.store.engine.clock.Fixed start) : Reached start start cluster
  | step {time : Nat} {cluster after : Cluster} (reached : Reached start time cluster)
      (next : ClusterStep time cluster after) : Reached start time after
  | elapse {time later : Nat} {cluster : Cluster} (reached : Reached start time cluster) {clock : Clock}
      (fixed : clock.Fixed later) (order : time ≤ later) : Reached start later (cluster.withClock clock)

end Model

section Pasts

/-- What a master has done: the batches it has acknowledged on the content it started with, and a group behind them of
which nobody knows. -/
structure Past where
  content : Bytes → Option PersistentEntry
  first : Nat
  acknowledged : List CommittedBatch
  tentative : List CommittedBatch

namespace Past

/-- The sequence of the last acknowledged batch. -/
def last (past : Past) : Nat := past.first + past.acknowledged.length

/-- The batches up to a sequence. -/
def upTo (past : Past) (sequence : Nat) : List CommittedBatch := past.acknowledged.take (sequence - past.first)

/-- A view is what the master's content was after the batch of the sequence. After the last one, the group of
unknown outcome may be in it. -/
def Shown (past : Past) (time sequence : Nat) (view : Bytes → Option PersistentEntry) : Prop :=
  ∃ extra, (extra = [] ∨ (extra = past.tentative ∧ sequence = past.last)) ∧
    Repeats time past.content ((past.upTo sequence ++ extra).flatMap batchWrites) view

/-- The batch of a sequence. -/
def Sends (past : Past) (sequence : Nat) (batch : CommittedBatch) : Prop :=
  past.first < sequence ∧ past.acknowledged[sequence - past.first - 1]? = some batch

/-- The entries of a snapshot taken at a sequence. -/
structure Dump (past : Past) (time sequence : Nat) (entries : List (Bytes × DataEntry)) : Prop where
  begun : past.first ≤ sequence
  reached : sequence ≤ past.last
  distinct : (entries.map Prod.fst).Nodup
  shown : past.Shown time sequence (visible time (History.listed entries))

/-- The past of a later moment. Behind a group of unknown outcome nothing follows. -/
structure Grows (past later : Past) : Prop where
  content : later.content = past.content
  first : later.first = past.first
  acknowledged : ∃ more, later.acknowledged = past.acknowledged ++ more
  ended : past.tentative ≠ [] → later = past

variable {past later : Past} {time sequence : Nat}

theorem Sends.reached {batch : CommittedBatch} (sends : past.Sends sequence batch) : sequence ≤ past.last := by
  obtain ⟨beyond, listed⟩ := sends
  have within := (List.getElem?_eq_some_iff.mp listed).1
  rw [last]
  omega

theorem Grows.refl (past : Past) : past.Grows past := ⟨rfl, rfl, ⟨[], (List.append_nil _).symm⟩, fun _ => rfl⟩

theorem Grows.last_le (grows : past.Grows later) : past.last ≤ later.last := by
  obtain ⟨more, longer⟩ := grows.acknowledged
  rw [last, last, grows.first, longer, List.length_append]
  omega

theorem Grows.upTo (grows : past.Grows later) (reached : sequence ≤ past.last) :
    later.upTo sequence = past.upTo sequence := by
  obtain ⟨more, longer⟩ := grows.acknowledged
  rw [last] at reached
  rw [Past.upTo, Past.upTo, grows.first, longer, List.take_append_of_le_length (by omega)]

theorem Grows.sends (grows : past.Grows later) {batch : CommittedBatch} (sends : past.Sends sequence batch) :
    later.Sends sequence batch := by
  obtain ⟨more, longer⟩ := grows.acknowledged
  obtain ⟨beyond, listed⟩ := sends
  rw [Sends, grows.first, longer]
  exact ⟨beyond, List.getElem?_append_left (List.getElem?_eq_some_iff.mp listed).1 ▸ listed⟩

theorem Shown.grows {view : Bytes → Option PersistentEntry} (shown : past.Shown time sequence view)
    (grows : past.Grows later) (reached : sequence ≤ past.last) : later.Shown time sequence view := by
  obtain ⟨extra, rest, repeats⟩ := shown
  rcases rest with rfl | ⟨rfl, ended⟩
  · refine ⟨[], Or.inl rfl, ?_⟩
    rwa [grows.content, grows.upTo reached]
  · by_cases known : past.tentative = []
    · refine ⟨[], Or.inl rfl, ?_⟩
      rwa [grows.content, grows.upTo reached, ← known]
    · obtain rfl := grows.ended known
      exact ⟨_, Or.inr ⟨rfl, ended⟩, repeats⟩

theorem Shown.elapse {view : Bytes → Option PersistentEntry} (shown : past.Shown time sequence view) {later : Nat}
    (order : time ≤ later) : past.Shown later sequence (visible later view) := by
  obtain ⟨extra, rest, repeats⟩ := shown
  exact ⟨extra, rest, repeats.later order⟩

theorem Dump.grows {entries : List (Bytes × DataEntry)} (dump : past.Dump time sequence entries)
    (grows : past.Grows later) : later.Dump time sequence entries where
  begun := by rw [grows.first]; exact dump.begun
  reached := dump.reached.trans grows.last_le
  distinct := dump.distinct
  shown := dump.shown.grows grows dump.reached

theorem Dump.elapse {entries : List (Bytes × DataEntry)} (dump : past.Dump time sequence entries) {later : Nat}
    (order : time ≤ later) : past.Dump later sequence entries := by
  refine ⟨dump.begun, dump.reached, dump.distinct, ?_⟩
  have shown := dump.shown.elapse order
  rwa [visible_visible order] at shown

/-- The batch of the next sequence, written to what is shown. -/
theorem Shown.next {view : Bytes → Option PersistentEntry} (shown : past.Shown time sequence view)
    (begun : past.first ≤ sequence) {batch : CommittedBatch} (sends : past.Sends (sequence + 1) batch) :
    past.Shown time (sequence + 1) (visible time (Expiring.replay view (batchWrites batch))) := by
  obtain ⟨extra, rest, repeats⟩ := shown
  obtain ⟨_, listed⟩ := sends
  have place : sequence + 1 - past.first - 1 = sequence - past.first := by omega
  rw [place] at listed
  have within := (List.getElem?_eq_some_iff.mp listed).1
  have nothing : extra = [] := by
    rcases rest with rfl | ⟨_, ended⟩
    · rfl
    · rw [last] at ended
      omega
  subst nothing
  have taken : past.upTo (sequence + 1) = past.upTo sequence ++ [batch] := by
    rw [upTo, upTo, show sequence + 1 - past.first = sequence - past.first + 1 by omega, List.take_add_one, listed]
    rfl
  refine ⟨[], Or.inl rfl, ?_⟩
  rw [List.append_nil] at repeats ⊢
  rw [taken, List.flatMap_append, List.flatMap_singleton]
  exact repeats.trans (fun key => .refl _)

end Past

end Pasts

end OnyxDB.Replication.Stream
