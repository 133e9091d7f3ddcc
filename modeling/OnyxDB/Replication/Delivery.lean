import Mathlib.Data.Prod.Lex
import OnyxDB.Library.Inevitable
import OnyxDB.Replication.Consistency

/-! A connection brings its replica up to date: while the master rests, whatever the handler and the replica do first,
the replica comes to show what the master shows, unless a record is beyond its format or cannot be read back, an effect
was dropped, or the replica does not get the commit boundary of its own process. -/

namespace OnyxDB.Replication.Stream
open OnyxDB.Library OnyxDB.Library.Retention OnyxDB.Engine OnyxDB.Engine.Value OnyxDB.Store
  OnyxDB.Persistence.Model OnyxDB.Persistence.Commit OnyxDB.Coordinator

section Model
variable [Platform] [Process]

/-- The handler makes headway, or the replica, whose storage does what it is told, takes the next frame. -/
inductive Delivers : Cluster → Cluster → Prop where
  | handle {cluster : Cluster} {link after : Link} {master : Server} (linked : cluster.link = some link)
      (step : HandlerStep cluster.replid cluster.master link master after) (kept : after.session.isSome = true)
      (headway : after.session ≠ link.session) :
      Delivers cluster { cluster with master, link := some after }
  | receive {cluster : Cluster} {link : Link} {frame : Frame} {rest : List Frame} {words : List String}
      (linked : cluster.link = some link) (arrived : link.wire = frame :: rest) (worded : frame.words = .ok words)
      (readable : frame.Readable) {append : AppendBatches} (accepts : ∀ log group, append log group = .ok ()) :
      Delivers cluster { cluster with
        link := link.goOn rest (cluster.replica.receive .done append frame words link.reception).1
        replica := (cluster.replica.receive .done append frame words link.reception).2 }

/-- What the replica takes only when its own process lets it: the announcement of a snapshot needs the write gate, an
effect the commit boundary, and the installation of a snapshot the compaction and rotation gates as well. -/
def Reception.guarded : Reception → Frame → Bool
  | .handshake _ _, .fullResync _ _ _ => true
  | .entries _ _ 0 _ _, _ => true
  | .missing _, .effect _ _ => true
  | .live _, .effect _ _ => true
  | _, _ => false

/-- The next frame is one that the replica may have to wait with. -/
def Cluster.Awaits (cluster : Cluster) : Prop :=
  ∃ link frame rest, cluster.link = some link ∧ link.wire = frame :: rest ∧ link.reception.guarded frame = true

/-- What keeps a connection from going on: a record beyond the limits of the format, a snapshot beyond the key limit,
effects that the channel has dropped before the handler came to them, a record that cannot be read back, on which the
replica gives up each time it comes to it, or a replica that waits for its gates and its commit boundary while nothing
is done any more. -/
inductive Obstructed (step : Cluster → Cluster → Prop) : Cluster → Prop where
  | owed {cluster : Cluster} {link : Link} {session : Session} {frame : Frame} {frames : List Frame}
      (linked : cluster.link = some link) (present : link.session = some session)
      (owing : session.stage = .sending (frame :: frames)) (beyond : ¬ frame.Encodes) : Obstructed step cluster
  | effect {cluster : Cluster} {link : Link} {session after : Session} {frames : List Frame} {frame : Frame}
      (linked : cluster.link = some link) (present : link.session = some session)
      (served : session.serve cluster.master = some (after, frames)) (owing : frame ∈ frames)
      (beyond : ¬ frame.Encodes) : Obstructed step cluster
  | oversized {cluster : Cluster} {link : Link} {frame : Frame} {rest : List Frame}
      (linked : cluster.link = some link) (arrived : link.wire = frame :: rest) (beyond : ¬ frame.WithinLimit) :
      Obstructed step cluster
  | garbled {cluster : Cluster} {link : Link} {frame : Frame} {rest : List Frame} (linked : cluster.link = some link)
      (arrived : link.wire = frame :: rest) (beyond : ¬ frame.Readable) : Obstructed step cluster
  | withheld {cluster : Cluster} (awaits : cluster.Awaits) (still : ∀ after, ¬ step cluster after) :
      Obstructed step cluster
  | lagged {cluster : Cluster} {link : Link} {session : Session} (linked : cluster.link = some link)
      (present : link.session = some session)
      (behind : session.next + replicaChannelCapacity < cluster.master.runtime.published.length) :
      Obstructed step cluster

/-- The replica has come to where the master is and shows what it shows. -/
structure Synchronized (time : Nat) (cluster : Cluster) : Prop where
  known : cluster.replica.localReplid = cluster.replid
  offset : cluster.replica.localOffset = cluster.master.runtime.replOffset
  alike : cluster.master.runtime.failStopStarted = false →
    ∀ key, Alike (cluster.master.store.view time key) (cluster.replica.server.store.view time key)

/-- How much a handler has before it until it sends. -/
def HandlerStage.rank : HandlerStage → Nat
  | .requested => 3
  | .subscribed => 2
  | .dumping => 1
  | .sending _ => 0

/-- What is to be written counts twice, as it is to be read as well. -/
def Session.backlogged (published : Nat) (session : Session) : Nat :=
  (match session.stage with
    | .sending frames => 2 * frames.length
    | _ => 0) + 2 * (published - session.next)

def Link.outstanding (published : Nat) (link : Link) : Nat ×ₗ Nat :=
  toLex ((link.session.map (fun session => session.stage.rank)).getD 0,
    (link.session.map (Session.backlogged published)).getD 0 + link.wire.length)

def Cluster.outstanding (cluster : Cluster) : Nat ×ₗ Nat :=
  (cluster.link.map (Link.outstanding cluster.master.runtime.published.length)).getD (toLex (0, 0))

/-- A connection whose handler is at work, to a replica that takes what it is sent. -/
structure Underway (time : Nat) (cluster : Cluster) : Prop where
  coupled : ∃ past, Coupled past time cluster
  linked : ∃ link session, cluster.link = some link ∧ link.session = some session
  accepting : cluster.replica.server.runtime.acceptingWrites = true
  wanted : cluster.replica.stopRequested = false

end Model

section Headway
variable [Platform] {replid : Nat} {server after : Server} {link next : Link}

omit [Platform] in
theorem captureBacklog_stage (session : Session) (replid : Nat) (server : Server) :
    (session.captureBacklog replid server).stage = .dumping ∨
      ∃ frames, (session.captureBacklog replid server).stage = .sending frames := by
  simp only [Session.captureBacklog]
  split
  · exact .inr ⟨_, rfl⟩
  · exact .inl rfl

omit [Platform] in
/-- The live loop takes the next effect, and writes one frame for it at most, or there is none. -/
theorem serveWithin_moves {capacity : Nat} {session later : Session} {frames : List Frame}
    (served : session.serveWithin capacity server = some (later, frames)) :
    later.stage = session.stage ∧ (later = session ∨
      session.next < server.runtime.published.length ∧ later.next = session.next + 1 ∧ frames.length ≤ 1) := by
  unfold Session.serveWithin at served
  split at served
  next offset batch next found =>
    obtain ⟨listed, rfl⟩ := receive_entry found
    have within := (List.getElem?_eq_some_iff.mp listed).1
    split at served
    · cases served
      exact ⟨rfl, .inr ⟨within, rfl, Nat.zero_le _⟩⟩
    · cases served
      exact ⟨rfl, .inr ⟨within, rfl, Nat.le_refl _⟩⟩
  next => cases served
  next =>
    cases served
    exact ⟨rfl, .inl rfl⟩

omit [Platform] in
/-- The live loop rests when it has taken everything that was published. -/
theorem serveWithin_rests {capacity : Nat} {session : Session} {frames : List Frame}
    (served : session.serveWithin capacity server = some (session, frames)) :
    server.runtime.published.length ≤ session.next := by
  unfold Session.serveWithin at served
  split at served
  next offset batch next found =>
    obtain ⟨_, rfl⟩ := receive_entry found
    split at served
    · have same := congrArg (fun pair => pair.1.next) (Option.some.inj served)
      exact absurd same (Nat.succ_ne_self _)
    · have same := congrArg (fun pair => pair.1.next) (Option.some.inj served)
      exact absurd same (Nat.succ_ne_self _)
  next => cases served
  next found => exact (receive_nothing found).1

omit [Platform] in
/-- The live loop closes when effects have been dropped before it came to them. -/
theorem serveWithin_none {capacity : Nat} {session : Session} (served : session.serveWithin capacity server = none) :
    session.next + capacity < server.runtime.published.length := by
  unfold Session.serveWithin at served
  split at served
  next =>
    split at served
    · cases served
    · cases served
  next missed next found =>
    apply receive_lagged_iff.mp
    rw [found]
    exact ⟨missed, rfl⟩
  next => cases served

/-- Headway of the handler: it comes to its next stage, or has less to write or to take. -/
theorem HandlerStep.decreases {published : Nat} (step : HandlerStep replid server link after next)
    (same : server.runtime.published.length = published) (kept : next.session.isSome = true)
    (headway : next.session ≠ link.session) : next.outstanding published < link.outstanding published := by
  cases step with
  | subscribe present asked =>
      rw [Link.outstanding, Link.outstanding, present, Prod.Lex.toLex_lt_toLex]
      left
      simp only [Option.map_some, Option.getD_some, asked, HandlerStage.rank, Session.subscribe]
      decide
  | @captureBacklog session present subscribed =>
      rw [Link.outstanding, Link.outstanding, present, Prod.Lex.toLex_lt_toLex]
      left
      simp only [Option.map_some, Option.getD_some, subscribed]
      rcases captureBacklog_stage session replid server with stage | ⟨frames, stage⟩
      · rw [stage]
        decide
      · rw [stage]
        exact (by decide : 0 < 2)
  | captureSnapshot present dumping =>
      rw [Link.outstanding, Link.outstanding, present, Prod.Lex.toLex_lt_toLex]
      left
      simp only [Option.map_some, Option.getD_some, dumping, HandlerStage.rank, Session.captureSnapshot]
      decide
  | write present owing encodes =>
      rw [Link.outstanding, Link.outstanding, present, Prod.Lex.toLex_lt_toLex]
      right
      simp only [Option.map_some, Option.getD_some, Session.backlogged, owing, List.length_cons, List.length_append,
        HandlerStage.rank, true_and, List.length_nil]
      omega
  | @serve session later frames present live served encodes =>
      rw [Link.outstanding, Link.outstanding, present, Prod.Lex.toLex_lt_toLex]
      right
      obtain ⟨stage, rfl | ⟨within, moved, few⟩⟩ := serveWithin_moves served
      · exact absurd present.symm headway
      · simp only [Option.map_some, Option.getD_some, Session.backlogged, stage, live, moved, List.length_append,
          List.length_nil, true_and]
        rw [same] at within
        omega
  | beat present live enabled => exact absurd rfl headway
  | close => cases kept

end Headway

section Taking
variable [Platform] {replica after : Replica} {storage : Storage} {append : AppendBatches} {words : List String}
  {frame : Frame} {reception taken : Reception}

/-- What may stop a replica is as it was. -/
structure Unhindered (replica after : Replica) : Prop where
  accepting : after.server.runtime.acceptingWrites = replica.server.runtime.acceptingWrites
  wanted : after.stopRequested = replica.stopRequested

theorem receiveEffect_unhindered (received : replica.receiveEffect append frame reception = (.ok taken, after)) :
    Unhindered replica after := by
  unfold Replica.receiveEffect at received
  split at received
  next sequence batch =>
    split at received
    next result later applied =>
      cases received
      unfold Replica.persistAndApplyEffect at applied
      simp only at applied
      split at applied
      · cases applied
      · split at applied
        · cases applied
        · split at applied
          · cases applied
          · split at applied
            · cases applied
            · split at applied
              next runtime accepted =>
                cases applied
                exact ⟨(acceptNextBatches_single accepted).2, rfl⟩
              next =>
                split at applied
                · cases applied
                · cases applied
    next => cases received
  next => cases received

omit [Platform] in
theorem receiveHandshake_unhindered {known offset : Nat}
    (received : replica.receiveHandshake storage words known offset = (.ok taken, after)) :
    Unhindered replica after := by
  unfold Replica.receiveHandshake at received
  split at received
  · cases received
  · split at received
    next => cases received
    next =>
      split at received
      next => cases received
      next begun =>
        cases received
        unfold Replica.beginFullSyncReception at begun
        split at begun
        · cases begun
        · split at begun
          · cases begun
          · split at begun
            · cases begun
              exact ⟨rfl, rfl⟩
            · cases begun
            · cases begun
    next =>
      split at received
      · cases received
      · cases received
        exact ⟨rfl, rfl⟩

theorem receiveCompletion_unhindered {replid sequence : Nat} {staging : ShardedStore}
    (received : replica.receiveCompletion storage words replid sequence staging = (.ok taken, after)) :
    Unhindered replica after := by
  unfold Replica.receiveCompletion at received
  split at received
  · cases received
  · split at received
    · cases received
    · split at received
      next => cases received
      next installed =>
        cases received
        unfold Replica.installFullSync at installed
        split at installed
        · cases installed
        · split at installed
          · cases installed
          · split at installed
            · cases installed
            · split at installed
              · cases installed
                exact ⟨rfl, rfl⟩
              · cases installed
              · cases installed

theorem receive_unhindered (received : replica.receive storage append frame words reception = (.ok taken, after)) :
    Unhindered replica after := by
  unfold Replica.receive at received
  split at received
  next => exact receiveHandshake_unhindered received
  next => exact receiveCompletion_unhindered received
  next =>
    split at received
    · split at received
      · cases received
      · cases received
        exact ⟨rfl, rfl⟩
    · cases received
  next =>
    split at received
    · split at received
      · cases received
      · split at received
        · cases received
        · cases received
          exact ⟨rfl, rfl⟩
    · exact receiveEffect_unhindered received
  next =>
    split at received
    · cases received
    · cases received
      exact ⟨rfl, rfl⟩
    · exact receiveEffect_unhindered received

end Taking

section Arrival
variable [Platform] [Process] {time : Nat} {cluster after : Cluster}

omit [Process] in
theorem HandlerStep.runtime {replid : Nat} {server later : Server} {link next : Link}
    (step : HandlerStep replid server link later next) : later.runtime = server.runtime := by
  cases step <;> rfl

theorem Delivers.step (delivers : Delivers cluster after) : ClusterStep time cluster after := by
  cases delivers with
  | handle linked step => exact .handle linked step
  | receive linked arrived worded readable => exact .receive linked arrived worded readable .done _

/-- The replica takes every frame within the key limit. -/
theorem Coupled.takes {past : Past} (coupled : Coupled past time cluster) {link : Link} {frame : Frame}
    {rest : List Frame} {words : List String} (linked : cluster.link = some link) (arrived : link.wire = frame :: rest)
    (worded : frame.words = .ok words) (within : frame.WithinLimit) {storage : Storage} {append : AppendBatches}
    (willing : Willing cluster.replica storage append) :
    ∃ reception later,
      cluster.replica.receive storage append frame words link.reception = (.ok reception, later) := by
  obtain ⟨awaited, stands, feeds⟩ := coupled.linked link linked
  rw [arrived] at feeds
  obtain ⟨next, reads, _⟩ := feeds.arrives
  have handled : Handled cluster.replid past time next (Willing cluster.replica storage append ∧ frame.WithinLimit)
      (cluster.replica.receive storage append frame words link.reception) :=
    receive_handled coupled.drawn coupled.last_lt coupled.follows stands reads worded
  obtain ⟨reception, taken⟩ := handled.continues ⟨willing, within⟩
  exact ⟨reception, _, Prod.ext taken rfl⟩

theorem Underway.keeps {step : Cluster → Cluster → Prop} (underway : Underway time cluster)
    (clear : ¬ Obstructed step cluster) (delivers : Delivers cluster after) :
    Underway time after ∧ after.outstanding < cluster.outstanding := by
  obtain ⟨past, coupled⟩ := underway.coupled
  have onward : ∃ past, Coupled past time after := (coupled.step delivers.step).imp fun _ kept => kept.1
  cases delivers with
  | @handle link next master linked step kept headway =>
      obtain ⟨session, present⟩ := Option.isSome_iff_exists.mp kept
      refine ⟨⟨onward, ⟨next, session, rfl, present⟩, underway.accepting, underway.wanted⟩, ?_⟩
      rw [Cluster.outstanding, Cluster.outstanding, linked, step.runtime]
      exact step.decreases rfl kept headway
  | @receive link frame rest words linked arrived worded readable append accepts =>
      obtain ⟨link', session, linked', present⟩ := underway.linked
      obtain rfl : link = link' := Option.some.inj (linked.symm.trans linked')
      have within : frame.WithinLimit := by
        by_contra beyond
        exact clear (.oversized linked arrived beyond)
      have willing : Willing cluster.replica .done append := ⟨underway.accepting, underway.wanted, rfl, accepts⟩
      obtain ⟨reception, later, taken⟩ := coupled.takes linked arrived worded within willing
      have unhindered := receive_unhindered taken
      rw [taken] at onward ⊢
      refine ⟨⟨onward, ⟨_, session, rfl, present⟩, unhindered.accepting.trans underway.accepting,
        unhindered.wanted.trans underway.wanted⟩, ?_⟩
      simp only [Cluster.outstanding, linked, Link.goOn, Option.map_some, Option.getD_some, Link.outstanding, arrived,
        Prod.Lex.toLex_lt_toLex, List.length_cons]
      right
      exact ⟨trivial, by omega⟩

omit [Process] in
/-- A handler that cannot make headway has sent everything. -/
theorem handler_finished {step : Cluster → Cluster → Prop} (clear : ¬ Obstructed step cluster)
    (still : ∀ after, ¬ Delivers cluster after) {link : Link} {session : Session} (linked : cluster.link = some link)
    (present : link.session = some session) :
    session.stage = .sending [] ∧ cluster.master.runtime.published.length ≤ session.next := by
  have moves : ∀ {master : Server} {next : Link} {later : Session},
      HandlerStep cluster.replid cluster.master link master next → next.session = some later → later = session := by
    intro master next later step kept
    by_contra other
    refine still _ (.handle linked step (by rw [kept]; rfl) ?_)
    rw [kept, present]
    exact fun same => other (Option.some.inj same)
  cases stage : session.stage with
  | requested =>
      have same := congrArg Session.stage (moves (.subscribe present stage) rfl)
      rw [stage] at same
      cases same
  | subscribed =>
      have same := congrArg Session.stage (moves (.captureBacklog present stage) rfl)
      rw [stage] at same
      rcases captureBacklog_stage session cluster.replid cluster.master with other | ⟨frames, other⟩
      · rw [other] at same
        cases same
      · rw [other] at same
        cases same
  | dumping =>
      have same := congrArg Session.stage (moves (.captureSnapshot present stage) rfl)
      rw [stage] at same
      cases same
  | sending frames =>
      cases frames with
      | cons frame frames =>
          have encodes : frame.Encodes := by
            by_contra beyond
            exact clear (.owed linked present stage beyond)
          have same := congrArg Session.stage (moves (.write present stage encodes) rfl)
          rw [stage] at same
          exact absurd (HandlerStage.sending.inj same) List.ne_cons_self
      | nil =>
          refine ⟨rfl, ?_⟩
          cases served : session.serve cluster.master with
          | none => exact absurd (.lagged linked present (serveWithin_none served)) clear
          | some result =>
              have encodes : ∀ frame ∈ result.2, frame.Encodes := by
                intro frame owing
                by_contra beyond
                exact clear (.effect linked present served owing beyond)
              have same : result.1 = session := moves (.serve present stage served encodes) rfl
              have rests : session.serve cluster.master = some (session, result.2) := by rw [served, ← same]
              exact serveWithin_rests rests

theorem Underway.arrived {step : Cluster → Cluster → Prop} (underway : Underway time cluster)
    (clear : ¬ Obstructed step cluster) (still : ∀ after, ¬ Delivers cluster after) {link : Link}
    (linked : cluster.link = some link) : link.wire = [] := by
  cases arrived : link.wire with
  | nil => rfl
  | cons frame rest =>
      obtain ⟨past, coupled⟩ := underway.coupled
      obtain ⟨words, worded⟩ := coupled.worded link linked frame (by rw [arrived]; exact List.mem_cons_self)
      have readable : frame.Readable := by
        by_contra beyond
        exact clear (.garbled linked arrived beyond)
      have accepts : ∀ log group, acceptEverything log group = .ok () := fun _ _ => rfl
      exact absurd (.receive linked arrived worded readable accepts) (still _)

/-- Where nothing can move any more, the two have come together. -/
theorem Underway.ends {step : Cluster → Cluster → Prop} (underway : Underway time cluster)
    (clear : ¬ Obstructed step cluster) (still : ∀ after, ¬ Delivers cluster after) : Synchronized time cluster := by
  obtain ⟨link, session, linked, present⟩ := underway.linked
  obtain ⟨stage, rests⟩ := handler_finished clear still linked present
  obtain ⟨past, coupled⟩ := underway.coupled
  obtain ⟨awaited, stands, feeds⟩ := coupled.linked link linked
  rw [underway.arrived clear still linked, present] at feeds
  obtain ⟨flows, behind, sent⟩ := feeds_sending feeds stage
  obtain rfl := Trace.nil_iff.mp flows
  obtain ⟨_, known, offset⟩ := stands
  have published : cluster.master.runtime.published.length = past.acknowledged.length := by
    rw [coupled.conveys.published, numbered_length]
  have caught : session.lastSentOffset = past.last := by
    rw [Past.last] at sent ⊢
    omega
  have same : cluster.replica.localOffset = cluster.master.runtime.replOffset :=
    offset.trans (caught.trans coupled.offset.symm)
  exact ⟨known, same, coupled.alike known same⟩

end Arrival

end OnyxDB.Replication.Stream
