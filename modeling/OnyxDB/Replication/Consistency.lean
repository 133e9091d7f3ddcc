import OnyxDB.Replication.Reception

/-! A replica that has synchronized with a master shows the content the master had after the batch of its sequence.
What is on its way to the replica leads it, frame by frame, to where the handler has come. -/

namespace OnyxDB.Replication.Stream
open OnyxDB.Library OnyxDB.Engine OnyxDB.Engine.Value OnyxDB.Store OnyxDB.Persistence.Model
  OnyxDB.Persistence.Commit OnyxDB.Coordinator

section Invariant

/-- What has been written to a connection and what its handler is about to write lead the replica to where the handler
has come. -/
inductive Feeds (replid : Nat) (past : Past) (time : Nat) : Option Session → Awaited → List Frame → Prop where
  | closed {awaited next : Awaited} {wire : List Frame} (flows : Trace (Reads replid past time) awaited wire next) :
      Feeds replid past time none awaited wire
  | opening {session : Session} (early : session.stage = .requested ∨
        (session.stage = .subscribed ∨ session.stage = .dumping) ∧ past.first + session.next ≤ past.last) :
      Feeds replid past time (some session) (.handshake session.request.replid session.request.offset) []
  | sending {session : Session} {frames wire : List Frame} {awaited : Awaited}
      (stage : session.stage = .sending frames)
      (flows : Trace (Reads replid past time) awaited (wire ++ frames) (.live session.lastSentOffset))
      (behind : past.first + session.next ≤ session.lastSentOffset) (sent : session.lastSentOffset ≤ past.last) :
      Feeds replid past time (some session) awaited wire

def Linked (replid : Nat) (past : Past) (time : Nat) (replica : Replica) (link : Link) : Prop :=
  ∃ awaited, Stands replid past time replica link.reception awaited ∧
    Feeds replid past time link.session awaited link.wire

variable {replid time : Nat} {past later : Past}

theorem Feeds.persists {session : Option Session} {awaited : Awaited} {wire : List Frame}
    (feeds : Feeds replid past time session awaited wire) (grows : past.Grows later) {now : Nat}
    (order : time ≤ now) : Feeds replid later now session awaited wire := by
  cases feeds with
  | closed flows => exact .closed (flows.mono (fun _ _ _ reads => reads.persists grows order))
  | opening early =>
      refine .opening (early.imp_right (fun waiting => ⟨waiting.1, ?_⟩))
      rw [grows.first]
      exact waiting.2.trans grows.last_le
  | sending stage flows behind sent =>
      refine .sending stage (flows.mono (fun _ _ _ reads => reads.persists grows order)) ?_ (sent.trans grows.last_le)
      rw [grows.first]
      exact behind

/-- What has been written before a handler closes is still read. -/
theorem Feeds.closes {session : Option Session} {awaited : Awaited} {wire : List Frame}
    (feeds : Feeds replid past time session awaited wire) : Feeds replid past time none awaited wire := by
  cases feeds with
  | closed flows => exact .closed flows
  | opening => exact .closed (.nil _)
  | sending _ flows =>
      obtain ⟨_, written, _⟩ := flows.split
      exact .closed written

variable {replica other : Replica}

/-- Where the task is does not depend on what the store shows. -/
theorem Stands.same {reception : Reception} {awaited : Awaited}
    (stands : Stands replid past time replica reception awaited) (known : other.localReplid = replica.localReplid)
    (offset : other.localOffset = replica.localOffset) : Stands replid past time other reception awaited := by
  cases awaited <;> simpa only [Stands, known, offset] using stands

theorem Stands.elapse {reception : Reception} {awaited : Awaited}
    (stands : Stands replid past time replica reception awaited) {clock : Clock} {now : Nat}
    (fixed : clock.Fixed now) (order : time ≤ now) (server : Server) :
    Stands replid past now { replica with server } (reception.withClock clock) awaited := by
  cases awaited with
  | entries sequence rest =>
      obtain ⟨unknown, received, staging, staged, rfl⟩ := stands
      refine ⟨unknown, received, ShardedStore.withClock staging clock, ⟨staged.dump.elapse order, fixed, ?_⟩, rfl⟩
      have view := staged.view
      calc
        (ShardedStore.withClock staging clock).view now = visible now (staging.view time) := (view_later order).symm
        _ = visible now (History.listed received) := by rw [view, visible_visible order]
  | handshake known offset =>
      obtain ⟨rfl, same⟩ := stands
      exact ⟨rfl, same⟩
  | missing offset =>
      obtain ⟨rfl, same⟩ := stands
      exact ⟨rfl, same⟩
  | live offset =>
      obtain ⟨rfl, same⟩ := stands
      exact ⟨rfl, same⟩

theorem Linked.grows {link : Link} (linked : Linked replid past time replica link) (grows : past.Grows later) :
    Linked replid later time replica link := by
  obtain ⟨awaited, stands, feeds⟩ := linked
  exact ⟨awaited, stands.grows grows, feeds.persists grows le_rfl⟩

/-- The frame that arrives is one that may be sent, and the rest leads on from there. -/
theorem Feeds.arrives {session : Option Session} {awaited : Awaited} {frame : Frame} {wire : List Frame}
    (feeds : Feeds replid past time session awaited (frame :: wire)) :
    ∃ next, Reads replid past time awaited frame next ∧ Feeds replid past time session next wire := by
  cases feeds with
  | closed flows =>
      cases flows with
      | cons reads rest => exact ⟨_, reads, .closed rest⟩
  | sending stage flows behind sent =>
      cases flows with
      | cons reads rest => exact ⟨_, reads, .sending stage rest behind sent⟩

end Invariant

section Handling
variable [Platform] {replid time : Nat} {past : Past} {replica : Replica} {server after : Server} {link next : Link}

/-- The snapshot of a full synchronization is what the store shows. -/
theorem captured_dump (conveys : Conveys time past.content past.first past.acknowledged past.tentative server) :
    past.Dump time past.last server.store.rawEntries.1 := by
  have all : past.upTo past.last = past.acknowledged := by
    rw [Past.upTo, Past.last, Nat.add_sub_cancel_left, List.take_length]
  refine ⟨Nat.le_add_right _ _, Nat.le_refl _, server.store.engine.nodup_snapshotAll, past.tentative,
    Or.inr ⟨rfl, rfl⟩, ?_⟩
  have content : visible time (History.listed server.store.rawEntries.1) = server.store.view time :=
    rawEntries_content server.store conveys.reflects.fixed.upto
  rw [all, content]
  exact conveys.reflects.repeats

omit [Platform] in
/-- A handler that has not captured anything owes nothing yet. -/
theorem feeds_early {session : Session} {awaited : Awaited} {wire : List Frame}
    (feeds : Feeds replid past time (some session) awaited wire)
    (early : ∀ frames, session.stage ≠ .sending frames) :
    awaited = .handshake session.request.replid session.request.offset ∧ wire = [] ∧
      (session.stage ≠ .requested → past.first + session.next ≤ past.last) := by
  cases feeds with
  | opening stage =>
      refine ⟨rfl, rfl, ?_⟩
      intro asked
      rcases stage with requested | waiting
      · exact absurd requested asked
      · exact waiting.2
  | sending stage => exact absurd stage (early _)

omit [Platform] in
theorem feeds_sending {session : Session} {awaited : Awaited} {wire frames : List Frame}
    (feeds : Feeds replid past time (some session) awaited wire) (stage : session.stage = .sending frames) :
    Trace (Reads replid past time) awaited (wire ++ frames) (.live session.lastSentOffset) ∧
      past.first + session.next ≤ session.lastSentOffset ∧ session.lastSentOffset ≤ past.last := by
  cases feeds with
  | opening early =>
      rw [stage] at early
      rcases early with impossible | ⟨impossible | impossible, _⟩ <;> cases impossible
  | sending stage' flows behind sent =>
      rw [stage] at stage'
      cases stage'
      exact ⟨flows, behind, sent⟩

omit [Platform] in
/-- What the live loop writes leads a replica from what was sent before to what has been sent then. -/
theorem serve_reads (publishes : Publishes past.first past.acknowledged server.runtime) {session later : Session}
    {frames : List Frame} (behind : past.first + session.next ≤ session.lastSentOffset)
    (sent : session.lastSentOffset ≤ past.last) (served : session.serve server = some (later, frames)) :
    later.stage = session.stage ∧
      Trace (Reads replid past time) (.live session.lastSentOffset) frames (.live later.lastSentOffset) ∧
      past.first + later.next ≤ later.lastSentOffset ∧ later.lastSentOffset ≤ past.last := by
  obtain ⟨_, stage, _, ahead, sends⟩ := serveWithin_eq publishes behind served
  rcases sends with ⟨rfl, same⟩ | ⟨batch, listed, rfl, moved⟩
  · refine ⟨stage, ?_, ahead, same.trans_le sent⟩
    rw [same]
    exact .nil _
  · have within := (List.getElem?_eq_some_iff.mp listed).1
    have next : session.lastSentOffset + 1 - past.first - 1 = session.lastSentOffset - past.first := by omega
    have sends : past.Sends (session.lastSentOffset + 1) batch := ⟨by omega, next ▸ listed⟩
    refine ⟨stage, ?_, ahead, moved.trans_le sends.reached⟩
    rw [moved]
    exact .cons (.followed sends) (.nil _)

variable [Process]

/-- Whatever the handler does, what it has written leads the replica to where it has come. -/
theorem HandlerStep.linked (conveys : Conveys time past.content past.first past.acknowledged past.tentative server)
    (linked : Linked replid past time replica link) (step : HandlerStep replid server link after next) :
    (after = server ∨ ServerStep server after) ∧
      Conveys time past.content past.first past.acknowledged past.tentative after ∧
      Linked replid past time replica next := by
  have publishes := conveys.toPublishes
  have last : server.runtime.replOffset = past.last := publishes.offset
  obtain ⟨awaited, stands, feeds⟩ := linked
  cases step with
  | @subscribe session present asked =>
      rw [present] at feeds
      obtain ⟨rfl, nothing, _⟩ := feeds_early feeds (by simp [asked])
      refine ⟨Or.inl rfl, conveys, _, stands, ?_⟩
      have before : past.first + (session.subscribe server).next ≤ past.last := by
        rw [Session.subscribe, publishes.published, numbered_length, Past.last]
      rw [nothing]
      exact @Feeds.opening replid past time (session.subscribe server) (Or.inr ⟨Or.inl rfl, before⟩)
  | @captureBacklog session present subscribed =>
      rw [present] at feeds
      obtain ⟨rfl, nothing, waiting⟩ := feeds_early feeds (by simp [subscribed])
      have before := waiting (by simp [subscribed])
      refine ⟨Or.inl rfl, conveys, _, stands, ?_⟩
      rw [nothing, captureBacklog_eq publishes]
      split
      next allowed =>
        obtain ⟨_, known, _, kept, reached⟩ := allowed
        rw [known, last]
        refine .sending rfl ?_ before (Nat.le_refl _)
        have begun : past.first ≤ session.request.offset := (Nat.le_add_right _ _).trans kept
        exact .cons (.continues reached) ((reads_owed begun reached).snoc .caughtUp)
      next => exact @Feeds.opening replid past time { session with stage := .dumping } (Or.inr ⟨Or.inr rfl, before⟩)
  | @captureSnapshot session present dumping =>
      rw [present] at feeds
      obtain ⟨rfl, nothing, waiting⟩ := feeds_early feeds (by simp [dumping])
      have before := waiting (by simp [dumping])
      have kept := conveys.store (conveys.reflects.quiet .snapshot)
      refine ⟨Or.inr (.quiet .snapshot), kept, _, stands, ?_⟩
      have entries := @reads_entries replid time past past.last server.store.rawEntries.1 []
      rw [List.append_nil] at entries
      rw [nothing]
      simp only [Session.captureSnapshot, last]
      exact .sending rfl (.cons (.full (captured_dump conveys)) (entries.snoc .complete)) before (Nat.le_refl _)
  | @write session frame frames present owing encodes =>
      rw [present] at feeds
      obtain ⟨flows, behind, sent⟩ := feeds_sending feeds owing
      rw [← List.singleton_append, ← List.append_assoc] at flows
      exact ⟨Or.inl rfl, conveys, awaited, stands, .sending rfl flows behind sent⟩
  | @serve session after frames present live served encodes =>
      rw [present] at feeds
      obtain ⟨flows, behind, sent⟩ := feeds_sending feeds live
      rw [List.append_nil] at flows
      obtain ⟨stage, onward, ahead, reached⟩ := serve_reads publishes behind sent served
      refine ⟨Or.inl rfl, conveys, awaited, stands, .sending (stage.trans live) ?_ ahead reached⟩
      rw [List.append_nil]
      exact flows.append onward
  | @beat session present live enabled =>
      rw [present] at feeds
      obtain ⟨flows, behind, sent⟩ := feeds_sending feeds live
      rw [List.append_nil] at flows
      refine ⟨Or.inl rfl, conveys, awaited, stands, ?_⟩
      rw [present]
      refine .sending live ?_ behind sent
      rw [List.append_nil]
      exact flows.snoc .heartbeat
  | close => exact ⟨Or.inl rfl, conveys, awaited, stands, feeds.closes⟩

omit [Process] in
/-- What is written can be encoded. -/
theorem HandlerStep.worded (step : HandlerStep replid server link after next)
    (worded : ∀ frame ∈ link.wire, frame.Encodes) : ∀ frame ∈ next.wire, frame.Encodes := by
  have beat : ∀ sequence, (Frame.heartbeat sequence).Encodes := fun _ => ⟨_, rfl⟩
  cases step with
  | write present owing encodes =>
      intro frame written
      rcases List.mem_append.mp written with earlier | new
      · exact worded frame earlier
      · rwa [List.mem_singleton.mp new]
  | serve present live served encodes =>
      intro frame written
      exact (List.mem_append.mp written).elim (worded frame) (encodes frame)
  | beat present live enabled =>
      intro frame written
      rcases List.mem_append.mp written with earlier | new
      · exact worded frame earlier
      · rw [List.mem_singleton.mp new]
        exact beat _
  | _ => exact worded

omit [Platform] [Process] in
/-- The replica goes on with its connection exactly when it takes what it has read. -/
theorem Link.goOn_some {rest : List Frame} {result : Except PersistenceError Reception} {onward : Link}
    (goesOn : link.goOn rest result = some onward) :
    ∃ reception, result = .ok reception ∧ onward = { link with wire := rest, reception } := by
  cases result with
  | error error => cases goesOn
  | ok reception =>
      cases goesOn
      exact ⟨reception, rfl, rfl⟩

end Handling

section Runs
variable [Platform] [Process]

/-- The past of a process from its start on. -/
def Past.Of (past : Past) (time : Nat) (server : Server) : Prop :=
  ∃ start origin, Fresh start origin ∧ Course start origin time server ∧
    past.content = origin.store.view start ∧ past.first = origin.runtime.replOffset

theorem Past.Of.step {past : Past} {time : Nat} {server after : Server} (of : past.Of time server)
    (step : after = server ∨ ServerStep server after) : past.Of time after := by
  rcases step with rfl | step
  · exact of
  · obtain ⟨start, origin, fresh, course, content, first⟩ := of
    exact ⟨start, origin, fresh, course.step step, content, first⟩

/-- The master, the replica and what is between them, by the past of the master. -/
structure Coupled (past : Past) (time : Nat) (cluster : Cluster) : Prop where
  drawn : cluster.replid ≠ 0 ∧ cluster.replid < 2 ^ 64
  bounded : past.first < 2 ^ 64
  of : past.Of time cluster.master
  conveys : Conveys time past.content past.first past.acknowledged past.tentative cluster.master
  follows : Follows cluster.replid past time cluster.replica
  linked : ∀ link, cluster.link = some link → Linked cluster.replid past time cluster.replica link
  worded : ∀ link, cluster.link = some link → ∀ frame ∈ link.wire, frame.Encodes

variable {past later : Past} {time : Nat} {cluster after : Cluster}

theorem Coupled.offset (coupled : Coupled past time cluster) : cluster.master.runtime.replOffset = past.last :=
  coupled.conveys.offset

theorem Coupled.last_lt (coupled : Coupled past time cluster) : past.last < 2 ^ 64 := by
  by_cases nothing : past.acknowledged = []
  · rw [Past.last, nothing]
    exact coupled.bounded
  · rw [← coupled.offset]
    exact coupled.conveys.bounded nothing

/-- A step of the master goes on with its past. -/
theorem Coupled.master (coupled : Coupled past time cluster) {server : Server}
    (step : ServerStep cluster.master server) :
    ∃ later, past.Grows later ∧ Coupled later time { cluster with master := server } := by
  obtain ⟨more, other, conveys, still⟩ := coupled.conveys.step step
  have grows : past.Grows { past with acknowledged := past.acknowledged ++ more, tentative := other } := by
    refine ⟨rfl, rfl, ⟨more, rfl⟩, ?_⟩
    intro behind
    cases stopped : cluster.master.runtime.failStopStarted with
    | false => exact absurd (coupled.conveys.settled stopped) behind
    | true =>
        obtain ⟨rfl, rfl, _⟩ := still stopped
        rw [List.append_nil]
  refine ⟨_, grows, coupled.drawn, coupled.bounded, ?_, conveys, coupled.follows.grows grows, ?_, coupled.worded⟩
  · exact coupled.of.step (Or.inr step)
  · exact fun link present => (coupled.linked link present).grows grows

/-- The step is one of the same master process. -/
def Cluster.GoesOn (cluster after : Cluster) : Prop :=
  after.replid = cluster.replid ∧ (after.master = cluster.master ∨ ServerStep cluster.master after.master)

/-- One step, and the past it goes on with. -/
theorem Coupled.step (coupled : Coupled past time cluster) (step : ClusterStep time cluster after) :
    ∃ later, Coupled later time after ∧ (cluster.GoesOn after → past.Grows later) := by
  cases step with
  | master step =>
      obtain ⟨later, grows, kept⟩ := coupled.master step
      exact ⟨later, kept, fun _ => grows⟩
  | observe step =>
      obtain ⟨fixed, same⟩ := step.same coupled.follows.fixed
      refine ⟨past, { coupled with follows := ⟨fixed, fun known => ?_⟩, linked := ?_ }, fun _ => .refl past⟩
      · have agreement := coupled.follows.agrees known
        exact { agreement with shown := same ▸ agreement.shown }
      · intro link present
        obtain ⟨awaited, stands, feeds⟩ := coupled.linked link present
        exact ⟨awaited, stands.same rfl rfl, feeds⟩
  | connect idle =>
      refine ⟨past, { coupled with linked := ?_, worded := ?_ }, fun _ => .refl past⟩
      · intro link present
        cases present
        exact ⟨.handshake _ _, ⟨rfl, rfl, rfl⟩, Feeds.opening (Or.inl rfl)⟩
      · intro link present
        cases present
        exact fun frame nowhere => absurd nowhere List.not_mem_nil
  | handle present step =>
      obtain ⟨onward, conveys, linked⟩ := step.linked coupled.conveys (coupled.linked _ present)
      refine ⟨past, { coupled with of := coupled.of.step onward, conveys, linked := ?_, worded := ?_ },
        fun _ => .refl past⟩
      · intro link same
        cases same
        exact linked
      · intro link same
        cases same
        exact step.worded (coupled.worded _ present)
  | @receive link frame rest words present arrived worded readable storage append =>
      obtain ⟨awaited, stands, feeds⟩ := coupled.linked link present
      rw [arrived] at feeds
      obtain ⟨next, reads, onward⟩ := feeds.arrives
      have handled : Handled cluster.replid past time next
          (Willing cluster.replica storage append ∧ frame.WithinLimit)
          (cluster.replica.receive storage append frame words link.reception) :=
        receive_handled coupled.drawn coupled.last_lt coupled.follows stands reads worded
      have expected := coupled.worded link present
      rw [arrived] at expected
      refine ⟨past, { coupled with follows := handled.follows, linked := ?_, worded := ?_ }, fun _ => .refl past⟩
      · intro after goesOn
        obtain ⟨reception, received, rfl⟩ := Link.goOn_some goesOn
        exact ⟨next, handled.stands reception received, onward⟩
      · intro after goesOn
        obtain ⟨_, _, rfl⟩ := Link.goOn_some goesOn
        exact fun frame later => expected frame (List.mem_cons_of_mem _ later)
  | misread | disconnect => exact ⟨past, { coupled with linked := nofun, worded := nofun }, fun _ => .refl past⟩
  | requestStop =>
      refine ⟨past, { coupled with follows := ⟨coupled.follows.fixed, fun known => ?_⟩, linked := ?_ },
        fun _ => .refl past⟩
      · exact { coupled.follows.agrees known with }
      · intro link present
        obtain ⟨awaited, stands, feeds⟩ := coupled.linked link present
        exact ⟨awaited, stands.same rfl rfl, feeds⟩
  | @succeed replid master gone fresh bounded drawn =>
      have nowhere : ∀ link, cluster.link = some link → False := by
        intro link present
        rw [gone] at present
        cases present
      by_cases goesOn : cluster.GoesOn { cluster with replid, master }
      · obtain ⟨rfl, rfl | step⟩ := goesOn
        · exact ⟨past, coupled, fun _ => .refl past⟩
        · obtain ⟨later, grows, kept⟩ := coupled.master step
          exact ⟨later, kept, fun _ => grows⟩
      · refine ⟨⟨master.store.view time, master.runtime.replOffset, [], []⟩, ⟨⟨drawn.1, drawn.2.1⟩, bounded,
          ⟨time, master, fresh, .start, rfl, rfl⟩, fresh.conveys, ⟨coupled.follows.fixed, ?_⟩, ?_, coupled.worded⟩,
          fun onward => absurd onward goesOn⟩
        · exact fun known => absurd known.symm drawn.2.2
        · exact fun link present => (nowhere link present).elim

/-- Time passes for the two of them. -/
theorem Coupled.elapse (coupled : Coupled past time cluster) {clock : Clock} {later : Nat} (fixed : clock.Fixed later)
    (order : time ≤ later) : Coupled past later (cluster.withClock clock) := by
  obtain ⟨start, origin, fresh, course, content, first⟩ := coupled.of
  have conveys := coupled.conveys
  refine ⟨coupled.drawn, coupled.bounded, ⟨start, origin, fresh, course.elapse fixed order, content, first⟩,
    { conveys with reflects := conveys.reflects.elapse fixed order }, ⟨fixed, fun known => ?_⟩, ?_, ?_⟩
  · have agreement := coupled.follows.agrees known
    have shown := agreement.shown.elapse order
    rw [view_later order] at shown
    exact { agreement with shown }
  · intro link present
    obtain ⟨before, found, rfl⟩ := Option.map_eq_some_iff.mp present
    obtain ⟨awaited, stands, feeds⟩ := coupled.linked before found
    exact ⟨awaited, stands.elapse fixed order _, feeds.persists (.refl past) order⟩
  · intro link present
    obtain ⟨before, found, rfl⟩ := Option.map_eq_some_iff.mp present
    exact coupled.worded before found

/-- Every cluster that is reached has a past. -/
theorem Reached.coupled {start : Nat} (reached : Reached start time cluster) : ∃ past, Coupled past time cluster := by
  induction reached with
  | @start cluster idle fresh bounded drawn fixed =>
      refine ⟨⟨cluster.master.store.view start, cluster.master.runtime.replOffset, [], []⟩, ⟨drawn.1, drawn.2.1⟩,
        bounded, ⟨start, cluster.master, fresh, .start, rfl, rfl⟩, fresh.conveys, ⟨fixed, ?_⟩, ?_, ?_⟩
      · exact fun known => absurd known.symm drawn.2.2
      · intro link present
        rw [idle] at present
        cases present
      · intro link present
        rw [idle] at present
        cases present
  | step _ next before =>
      obtain ⟨past, coupled⟩ := before
      obtain ⟨later, kept, _⟩ := coupled.step next
      exact ⟨later, kept⟩
  | elapse _ fixed order before =>
      obtain ⟨past, coupled⟩ := before
      exact ⟨past, coupled.elapse fixed order⟩

/-- Where all acknowledged batches are shown on both sides, and no group of unknown outcome, the two show the same. -/
theorem Coupled.alike (coupled : Coupled past time cluster) (known : cluster.replica.localReplid = cluster.replid)
    (caught : cluster.replica.localOffset = cluster.master.runtime.replOffset)
    (running : cluster.master.runtime.failStopStarted = false) (key : Bytes) :
    Alike (cluster.master.store.view time key) (cluster.replica.server.store.view time key) := by
  have settled := coupled.conveys.settled running
  have master := coupled.conveys.reflects.repeats key
  obtain ⟨extra, rest, repeats⟩ := (coupled.follows.agrees known).shown
  have nothing : extra = [] := by
    rcases rest with rfl | ⟨rfl, _⟩
    · rfl
    · exact settled
  have all : past.upTo cluster.replica.localOffset = past.acknowledged := by
    rw [caught, coupled.offset, Past.upTo, Past.last, Nat.add_sub_cancel_left, List.take_length]
  rw [nothing, all, List.append_nil] at repeats
  rw [settled, List.append_nil] at master
  exact master.symm.trans (repeats key)

/-- A replica that knows its master has a sequence of it and shows exactly what the content of the master was after the
batch of that sequence, whatever has happened between them: groups of any outcome, broken connections, snapshots and
continuations, reads, a replica that fails, and other masters before this one. A group of unknown outcome is shown at
the last sequence at most. At the sequence of a master that has not stopped, the replica shows what the master
shows. -/
theorem replica_agrees {start : Nat} (reached : Reached start time cluster)
    (known : cluster.replica.localReplid = cluster.replid) :
    ∃ past, past.Of time cluster.master ∧
      Conveys time past.content past.first past.acknowledged past.tentative cluster.master ∧
      Agreement past time cluster.replica ∧
      (cluster.replica.localOffset = cluster.master.runtime.replOffset →
        cluster.master.runtime.failStopStarted = false →
        ∀ key, Alike (cluster.master.store.view time key) (cluster.replica.server.store.view time key)) := by
  obtain ⟨past, coupled⟩ := reached.coupled
  exact ⟨past, coupled.of, coupled.conveys, coupled.follows.agrees known, coupled.alike known⟩

/-- A master that has just been started and a replica that knows no master. -/
def apart : Cluster := ⟨7, Coordinator.emptyServer 0, ⟨Coordinator.emptyServer 0, false, 0, false, 0, 0⟩, none⟩

/-- The two with a new connection between them. -/
def connecting : Cluster := { apart with link := some ⟨some (.new ⟨0, 0, true⟩), [], .handshake 0 0⟩ }

theorem connecting_reached : Reached 0 0 connecting :=
  .step (.start rfl ⟨fun _ => rfl, rfl, rfl, rfl⟩ (by decide) (by decide) (fun _ => rfl)) (.connect rfl)

omit [Process] in
theorem emptyServer_entries : (Coordinator.emptyServer 0).store.rawEntries.1 = [] := by
  refine List.eq_nil_iff_forall_not_mem.mpr ?_
  intro (key, entry) listed
  have held := ((Coordinator.emptyServer 0).store.engine.mem_snapshotAll key entry).mp listed
  have nothing : (Coordinator.emptyServer 0).store.engine.lookup key = none := rfl
  rcases (Coordinator.emptyServer 0).store.engine.snapshotAll_ages.aged key List.not_mem_nil with same | ⟨_, _, purged⟩
  · rw [same, nothing] at held
    cases held
  · rw [purged, nothing] at held
    cases held

/-- The master after it has looked for the entries of its snapshot. -/
def looked : Server := { Coordinator.emptyServer 0 with store := (Coordinator.emptyServer 0).store.rawEntries.2 }

/-- The batch of a master that sets a key. -/
def setBatch : CommittedBatch := ⟨[.put [97] ⟨.blob [49], none⟩]⟩

end Runs

/-- An equality that is decided: texts and numbers, down to the bits. -/
def sameEntry : PersistentEntry → PersistentEntry → Bool
  | ⟨.blob text, expiresAt⟩, ⟨.blob other, expires⟩ => text == other && expiresAt == expires
  | ⟨.json (.number number), expiresAt⟩, ⟨.json (.number other), expires⟩ => number == other && expiresAt == expires
  | _, _ => false

theorem sameEntry_eq {entry other : PersistentEntry} (same : sameEntry entry other = true) : entry = other := by
  unfold sameEntry at same
  split at same
  · obtain ⟨texts, expiries⟩ := Bool.and_eq_true_iff.mp same
    rw [beq_iff_eq.mp texts, beq_iff_eq.mp expiries]
  · obtain ⟨numbers, expiries⟩ := Bool.and_eq_true_iff.mp same
    rw [beq_iff_eq.mp numbers, beq_iff_eq.mp expiries]
  · cases same

/-- The batches write one entry each. -/
def putEntries : List (Nat × CommittedBatch) → List (Nat × Bytes × PersistentEntry) → Bool
  | [], [] => true
  | (sequence, ⟨[.put key entry]⟩) :: batches, (number, name, other) :: puts =>
      sequence == number && key == name && sameEntry entry other && putEntries batches puts
  | _, _ => false

theorem putEntries_eq {batches : List (Nat × CommittedBatch)} {puts : List (Nat × Bytes × PersistentEntry)}
    (listed : putEntries batches puts = true) :
    batches = puts.map (fun put => (put.1, ⟨[.put put.2.1 put.2.2]⟩)) := by
  fun_induction putEntries batches puts with
  | case1 => rfl
  | case2 sequence key entry batches number name other puts rest =>
      simp only [Bool.and_eq_true, beq_iff_eq] at listed
      obtain ⟨⟨⟨rfl, rfl⟩, same⟩, others⟩ := listed
      rw [sameEntry_eq same, rest others, List.map_cons]
  | case3 => cases listed

theorem looked_sets :
    letI := Reference.platform (fun _ => .error "unsupported")
    letI := startedProcess
    (processCommitGroup acceptEverything [.command ["SET", "a", "1"]] looked).2.runtime.published =
      [(1, setBatch)] := by
  let := Reference.platform (fun _ => .error "unsupported")
  let := startedProcess
  exact @putEntries_eq _ [(1, [97], ⟨.blob [49], none⟩)] (by decide +kernel)

theorem setBatch_encodes :
    letI := Reference.platform (fun _ => .error "unsupported")
    (Frame.effect 1 setBatch).Encodes := ⟨_, rfl⟩

theorem setBatch_readable :
    letI := Reference.platform (fun _ => .error "unsupported")
    (Frame.effect 1 setBatch).Readable := by
  let := Reference.platform (fun _ => .error "unsupported")
  refine effect_readable (by decide) ?_ ?_
  · intro effect member
    obtain rfl := List.mem_singleton.mp member
    intro expiry expires
    cases expires
  · intro document member
    exact absurd member List.not_mem_nil

/-- A replica has taken the snapshot of an empty master. -/
theorem joined_reached [Platform] :
    letI := startedProcess
    ∃ replica : Replica,
      Reached 0 0 ⟨7, looked, replica, some ⟨some ⟨⟨0, 0, true⟩, .sending [], 0, 0⟩, [], .live 7⟩⟩ ∧
        replica.localReplid = 7 ∧ replica.localOffset = 0 ∧ replica.server.runtime.acceptingWrites = true ∧
        replica.stopRequested = false := by
  let := startedProcess
  have subscribed := connecting_reached.step (.handle rfl (.subscribe rfl rfl))
  have decided := subscribed.step (.handle rfl (.captureBacklog rfl rfl))
  have captured := decided.step (.handle rfl (.captureSnapshot rfl rfl))
  simp only [Session.captureSnapshot, connecting, apart, emptyServer_entries] at captured
  have announces : (Frame.fullResync 7 0 0).Encodes := ⟨_, rfl⟩
  have counted : (Frame.fullResync 7 0 0).Readable := Nat.two_pow_pos 64
  have ends : (Frame.syncDone 7 0).Encodes := ⟨_, rfl⟩
  have done : (Frame.syncDone 7 0).Readable := trivial
  have announced := captured.step (.handle rfl (.write rfl rfl announces))
  have begun := announced.step (.receive rfl rfl rfl counted .done acceptEverything)
  have completed := begun.step (.handle rfl (.write rfl rfl ends))
  have joined := completed.step (.receive rfl rfl rfl done .done acceptEverything)
  exact ⟨_, joined, rfl, rfl, rfl, rfl⟩

theorem serve_next {session : Session} {master : Server} {capacity sequence : Nat} {batch : CommittedBatch}
    (present : master.runtime.published[session.next]? = some (sequence, batch))
    (kept : master.runtime.published.length ≤ session.next + capacity) (ahead : session.lastSentOffset < sequence) :
    session.serveWithin capacity master =
      some ({ session with next := session.next + 1, lastSentOffset := sequence }, [.effect sequence batch]) := by
  obtain ⟨within, listed⟩ := List.getElem?_eq_some_iff.mp present
  simp only [Session.serveWithin, Retention.receive_next within kept, listed, if_neg (Nat.not_le.mpr ahead)]

/-- A master makes one more batch while the connection is live, and the effect is on its way. -/
theorem next_served [Platform] {master after : Server} {replica : Replica} {sequence : Nat} {batch : CommittedBatch}
    (reached : letI := startedProcess
      Reached 0 0 ⟨7, master, replica, some ⟨some ⟨⟨0, 0, true⟩, .sending [], sequence, sequence⟩, [], .live 7⟩⟩)
    (makes : letI := startedProcess
      ServerStep master after) (published : after.runtime.published[sequence]? = some (sequence + 1, batch))
    (kept : after.runtime.published.length ≤ sequence + replicaChannelCapacity)
    (encodes : (Frame.effect (sequence + 1) batch).Encodes) :
    letI := startedProcess
    Reached 0 0 ⟨7, after, replica, some ⟨some ⟨⟨0, 0, true⟩, .sending [], sequence + 1, sequence + 1⟩,
      [.effect (sequence + 1) batch], .live 7⟩⟩ := by
  let := startedProcess
  have encoded : ∀ frame ∈ [Frame.effect (sequence + 1) batch], frame.Encodes := by
    intro frame member
    rw [List.mem_singleton.mp member]
    exact encodes
  have served : Session.serve ⟨⟨0, 0, true⟩, .sending [], sequence, sequence⟩ after =
      some (⟨⟨0, 0, true⟩, .sending [], sequence + 1, sequence + 1⟩, [.effect (sequence + 1) batch]) :=
    serve_next published kept (Nat.lt_succ_self sequence)
  exact (reached.step (.master makes)).step (.handle rfl (.serve rfl rfl served encoded))

/-- The master has set a key, and the effect is on its way. -/
theorem effect_reached :
    letI := Reference.platform (fun _ => .error "unsupported")
    letI := startedProcess
    ∃ (master : Server) (replica : Replica),
      Reached 0 0
        ⟨7, master, replica, some ⟨some ⟨⟨0, 0, true⟩, .sending [], 1, 1⟩, [.effect 1 setBatch], .live 7⟩⟩ ∧
        replica.localReplid = 7 ∧ replica.localOffset = 0 ∧ replica.server.runtime.acceptingWrites = true ∧
        replica.stopRequested = false := by
  let := Reference.platform (fun _ => .error "unsupported")
  let := startedProcess
  obtain ⟨master, published, makes⟩ : ∃ master : Server, master.runtime.published = [(1, setBatch)] ∧
      ServerStep looked master := ⟨_, looked_sets, .group acceptEverything [.command ["SET", "a", "1"]]⟩
  obtain ⟨replica, joined, facts⟩ := joined_reached
  have sent := next_served joined makes (by rw [published]; rfl)
    (by rw [published]; exact (by decide : 1 ≤ 0 + replicaChannelCapacity)) setBatch_encodes
  exact ⟨master, replica, sent, facts⟩

/-- A replica that follows takes the next effect and has its sequence. -/
theorem Coupled.follows_effect [Platform] [Process] {past : Past} {time sequence : Nat} {cluster : Cluster}
    (coupled : Coupled past time cluster) {link : Link} (linked : cluster.link = some link)
    (live : link.reception = .live cluster.replid) {batch : CommittedBatch} {rest : List Frame}
    (arrived : link.wire = .effect sequence batch :: rest) {words : List String}
    (worded : (Frame.effect sequence batch).words = .ok words) {storage : Storage} {append : AppendBatches}
    (willing : Willing cluster.replica storage append) :
    (cluster.replica.receive storage append (.effect sequence batch) words link.reception).2.localReplid =
        cluster.replid ∧
      (cluster.replica.receive storage append (.effect sequence batch) words link.reception).2.localOffset =
        sequence := by
  obtain ⟨awaited, stands, feeds⟩ := coupled.linked link linked
  rw [arrived] at feeds
  obtain ⟨next, reads, _⟩ := feeds.arrives
  have handled : Handled cluster.replid past time next
      (Willing cluster.replica storage append ∧ (Frame.effect sequence batch).WithinLimit)
      (cluster.replica.receive storage append (.effect sequence batch) words link.reception) :=
    receive_handled coupled.drawn coupled.last_lt coupled.follows stands reads worded
  obtain ⟨reception, taken⟩ := handled.continues ⟨willing, trivial⟩
  have onward := handled.stands reception taken
  cases reads with
  | missed => exact nomatch live.symm.trans stands.1
  | followed => exact onward.2

/-- A replica that has applied an effect of its master. -/
theorem replica_agrees_set :
    letI := Reference.platform (fun _ => .error "unsupported")
    letI := startedProcess
    ∃ cluster : Cluster, cluster.replica.localReplid = 7 ∧ cluster.replica.localOffset = 1 ∧ ∃ past : Past,
      past.Of 0 cluster.master ∧
      Conveys 0 past.content past.first past.acknowledged past.tentative cluster.master ∧
      Agreement past 0 cluster.replica ∧
      (cluster.replica.localOffset = cluster.master.runtime.replOffset →
        cluster.master.runtime.failStopStarted = false →
        ∀ key, Alike (cluster.master.store.view 0 key) (cluster.replica.server.store.view 0 key)) := by
  let := Reference.platform (fun _ => .error "unsupported")
  let := startedProcess
  obtain ⟨master, replica, sent, known, offset, accepting, wanted⟩ := effect_reached
  obtain ⟨words, worded⟩ := setBatch_encodes
  obtain ⟨past, coupled⟩ := sent.coupled
  have willing : Willing replica .done acceptEverything := ⟨accepting, wanted, rfl, fun _ _ => rfl⟩
  have taken := coupled.follows_effect rfl rfl rfl worded willing
  have received := sent.step (.receive rfl rfl worded setBatch_readable .done acceptEverything)
  exact ⟨_, taken.1, taken.2, replica_agrees received taken.1⟩

end OnyxDB.Replication.Stream
