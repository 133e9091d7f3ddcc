import OnyxDB.Replication.Delivery
import OnyxDB.Replication.Onward

/-! A replica converges to its master. What it shows at a sequence is what the master's content was after the batch of
that sequence; what it has applied since any earlier moment are the master's batches between the two sequences; and a
connection that continues carries exactly the batches after the sequence that was asked for. -/

namespace OnyxDB.Replication.Stream
open OnyxDB.Library OnyxDB.Engine OnyxDB.Engine.Value OnyxDB.Store OnyxDB.Persistence.Model
  OnyxDB.Persistence.Commit OnyxDB.Coordinator

section Connection

/-- What a handler that continues from a sequence has written and still owes: the confirmation, and then frames that
lead a replica with that sequence to where the handler has come. -/
inductive Continues (replid : Nat) (past : Past) (time offset : Nat) : Option Session → List Frame → Prop where
  | closed : Continues replid past time offset none []
  | ended {written : List Frame} {reached : Awaited}
      (flows : Trace (Reads replid past time) (.missing offset) written reached) :
      Continues replid past time offset none (.partialResync replid offset :: written)
  | sending {session : Session} {frames written rest : List Frame} (stage : session.stage = .sending frames)
      (begins : written ++ frames = .partialResync replid offset :: rest)
      (flows : Trace (Reads replid past time) (.missing offset) rest (.live session.lastSentOffset))
      (behind : past.first + session.next ≤ session.lastSentOffset) (sent : session.lastSentOffset ≤ past.last) :
      Continues replid past time offset (some session) written

/-- The effects of some frames. -/
def effectsOf (frames : List Frame) : List (Nat × CommittedBatch) :=
  frames.filterMap (fun frame => match frame with
    | .effect sequence batch => some (sequence, batch)
    | _ => none)

variable {replid time offset : Nat} {past later : Past} {session : Option Session} {written : List Frame}

theorem Continues.persists (continues : Continues replid past time offset session written) (grows : past.Grows later)
    {now : Nat} (order : time ≤ now) : Continues replid later now offset session written := by
  cases continues with
  | closed => exact .closed
  | ended flows => exact .ended (flows.mono (fun _ _ _ reads => reads.persists grows order))
  | sending stage begins flows behind sent =>
      refine .sending stage begins (flows.mono (fun _ _ _ reads => reads.persists grows order)) ?_
        (sent.trans grows.last_le)
      rw [grows.first]
      exact behind

/-- What has been written before the handler closes remains. -/
theorem Continues.closes (continues : Continues replid past time offset session written) :
    Continues replid past time offset none written := by
  cases continues with
  | closed => exact .closed
  | ended flows => exact .ended flows
  | sending _ begins flows =>
      rcases List.append_eq_cons_iff.mp begins with ⟨rfl, _⟩ | ⟨tail, rfl, rfl⟩
      · exact .closed
      · obtain ⟨reached, early, _⟩ := flows.split
        exact .ended early

/-- The effects on a way from one sequence to another are the batches between the two. -/
theorem trace_effects {awaited next : Awaited} {frames : List Frame}
    (flows : Trace (Reads replid past time) awaited frames next) {low : Nat} (begun : past.first ≤ low)
    (starts : awaited = .missing low ∨ awaited = .live low) :
    ∃ high, low ≤ high ∧ (next = .missing high ∨ next = .live high) ∧
      effectsOf frames = between low high past.log := by
  induction flows generalizing low with
  | nil => exact ⟨low, Nat.le_refl _, starts, (between_self low _).symm⟩
  | @cons start middle final frame frames first _ rest =>
      cases first with
      | @missed offset batch sends | @followed offset batch sends =>
          obtain rfl : offset = low := by
            rcases starts with same | same
            all_goals cases same
            rfl
          obtain ⟨high, order, ends, effects⟩ := rest (begun.trans (Nat.le_succ _)) (by simp)
          refine ⟨high, (Nat.le_succ _).trans order, ends, ?_⟩
          rw [between_split begun (Nat.le_succ _) order sends.reached, between_next sends, ← effects]
          rfl
      | @caughtUp offset | @heartbeat offset =>
          obtain rfl : offset = low := by
            rcases starts with same | same
            all_goals cases same
            rfl
          exact rest begun (Or.inr rfl)
      | _ => rcases starts with same | same <;> cases same

/-- The effects that have been written are the batches after the sequence, up to one; up to the last, if the handler has
taken all that is published. -/
theorem Continues.effects (continues : Continues replid past time offset session written)
    (begun : past.first ≤ offset) :
    ∃ high, offset ≤ high ∧ effectsOf written = between offset high past.log ∧
      ∀ served, session = some served → served.stage = .sending [] → past.first + served.next = past.last →
        high = past.last := by
  cases continues with
  | closed => exact ⟨offset, Nat.le_refl _, (between_self offset _).symm, nofun⟩
  | ended flows =>
      obtain ⟨high, order, _, effects⟩ := trace_effects flows begun (Or.inl rfl)
      exact ⟨high, order, effects, nofun⟩
  | @sending session frames _ rest stage begins flows behind sent =>
      rcases List.append_eq_cons_iff.mp begins with ⟨rfl, owing⟩ | ⟨tail, rfl, rfl⟩
      · refine ⟨offset, Nat.le_refl _, (between_self offset _).symm, ?_⟩
        rintro served ⟨⟩ idle _
        rw [stage, owing] at idle
        cases idle
      · obtain ⟨reached, early, late⟩ := flows.split
        obtain ⟨high, order, ends, effects⟩ := trace_effects early begun (Or.inl rfl)
        refine ⟨high, order, effects, ?_⟩
        rintro served ⟨⟩ idle all
        rw [stage] at idle
        cases idle
        obtain rfl := Trace.nil_iff.mp late
        rcases ends with impossible | same
        · cases impossible
        · cases same
          omega

end Connection

section Serving
variable [Platform] {replid time offset : Nat} {past : Past} {server after : Server} {link next : Link}
  {taken : List Frame}

/-- A handler only adds to what it has written. -/
theorem HandlerStep.writes (step : HandlerStep replid server link after next) :
    ∃ more, next.wire = link.wire ++ more := by
  cases step with
  | write | serve | beat => exact ⟨_, rfl⟩
  | _ => exact ⟨[], (List.append_nil _).symm⟩

theorem HandlerStep.continues [Process]
    (conveys : Conveys time past.content past.first past.acknowledged past.tentative server)
    (step : HandlerStep replid server link after next)
    (continues : Continues replid past time offset link.session (taken ++ link.wire)) :
    Continues replid past time offset next.session (taken ++ next.wire) := by
  have early {session : Session} (present : link.session = some session)
      (stage : ∀ frames, session.stage ≠ .sending frames) : False := by
    rw [present] at continues
    cases continues with
    | sending sends => exact stage _ sends
  cases step with
  | subscribe present asked => exact (early present (by simp [asked])).elim
  | captureBacklog present subscribed => exact (early present (by simp [subscribed])).elim
  | captureSnapshot present dumping => exact (early present (by simp [dumping])).elim
  | write present owing encodes =>
      rw [present] at continues
      cases continues with
      | sending stage begins flows behind sent =>
          rw [owing] at stage
          cases stage
          refine .sending rfl ?_ flows behind sent
          rw [← begins, ← List.append_assoc, List.append_assoc _ [_], List.singleton_append]
  | serve present live served encodes =>
      rw [present] at continues
      cases continues with
      | sending stage begins flows behind sent =>
          rw [live] at stage
          cases stage
          obtain ⟨stage, onward, ahead, reached⟩ := serve_reads conveys.toPublishes behind sent served
          rw [List.append_nil] at begins
          refine .sending (stage.trans live) ?_ (flows.append onward) ahead reached
          rw [List.append_nil, ← List.append_assoc, begins, List.cons_append]
  | beat present live enabled =>
      rw [present] at continues
      rw [present]
      cases continues with
      | sending stage begins flows behind sent =>
          rw [live] at stage
          cases stage
          rw [List.append_nil] at begins
          refine .sending live ?_ (flows.snoc .heartbeat) behind sent
          rw [List.append_nil, ← List.append_assoc, begins, List.cons_append]
  | close => exact continues.closes

end Serving

section Carrying
variable [Platform] [Process] {early time offset : Nat} {past : Past} {before cluster after : Cluster}
  {frames : List Frame}

def Cluster.Connected (cluster : Cluster) : Prop := cluster.link.isSome

omit [Platform] [Process] in
theorem read_longer {link next : Link} (present : cluster.link = some link) (onward : after.link = some next)
    {more : List Frame} (longer : next.wire = link.wire ++ more) : cluster.read after = [] := by
  simp only [Cluster.read, present, onward, longer, List.length_append]
  rw [Nat.sub_eq_zero_of_le (Nat.le_add_right _ _), List.take_zero]

omit [Platform] [Process] in
theorem read_next {link next : Link} {frame : Frame} (present : cluster.link = some link)
    (onward : after.link = some next) (arrived : link.wire = frame :: next.wire) : cluster.read after = [frame] := by
  simp only [Cluster.read, present, onward, arrived, List.length_cons, Nat.add_sub_cancel_left, List.take_succ_cons,
    List.take_zero]

/-- On a connection that is kept, what has been read and what is still to be read are what its handler has written. -/
theorem Coupled.continues (coupled : Coupled past time cluster) (connected : cluster.Connected)
    (step : ClusterStep time cluster after) (still : after.Connected)
    (continues : ∀ link, cluster.link = some link →
      Continues cluster.replid past time offset link.session (frames ++ link.wire)) :
    ∀ link, after.link = some link →
      Continues cluster.replid past time offset link.session (frames ++ cluster.read after ++ link.wire) := by
  have kept (same : after.link = cluster.link) : ∀ link, after.link = some link →
      Continues cluster.replid past time offset link.session (frames ++ cluster.read after ++ link.wire) := by
    intro link present
    rw [read_longer (same ▸ present) present (List.append_nil _).symm, List.append_nil]
    exact continues link (same ▸ present)
  cases step with
  | connect idle =>
      rw [Cluster.Connected, idle] at connected
      cases connected
  | @handle link next master present step =>
      intro link' same
      cases same
      obtain ⟨more, longer⟩ := step.writes
      rw [read_longer present rfl longer, List.append_nil]
      exact step.continues coupled.conveys (continues link present)
  | @receive link frame rest words present arrived worded readable storage append =>
      intro link' goesOn
      obtain ⟨reception, _, onward⟩ := Link.goOn_some goesOn
      have before := continues link present
      rw [arrived] at before
      rw [read_next present goesOn (by rw [arrived, onward]), List.append_assoc, onward]
      exact before
  | misread | disconnect => cases still
  | succeed gone fresh bounded drawn =>
      rw [Cluster.Connected, gone] at connected
      cases connected
  | _ => exact kept rfl

theorem Onward.continues (onward : Onward Cluster.Connected early before frames time after)
    (coupled : Coupled past early before)
    (continues : ∀ link, before.link = some link →
      Continues before.replid past early offset link.session link.wire) :
    ∃ later, past.Grows later ∧ Coupled later time after ∧ ∀ link, after.link = some link →
      Continues after.replid later time offset link.session (frames ++ link.wire) := by
  induction onward with
  | start => exact ⟨past, .refl past, coupled, continues⟩
  | @step frames time cluster after onward next goesOn met rest =>
      obtain ⟨middle, grows, kept, carries⟩ := rest
      obtain ⟨later, coupled, further⟩ := kept.step next
      have longer := further goesOn
      refine ⟨later, Grows.trans grows longer, coupled, ?_⟩
      intro link present
      rw [goesOn.1]
      exact (kept.continues onward.met.2 next met carries link present).persists longer (Nat.le_refl _)
  | @elapse frames time later cluster onward clock fixed order met rest =>
      obtain ⟨middle, grows, kept, carries⟩ := rest
      refine ⟨middle, grows, kept.elapse fixed order, ?_⟩
      intro link present
      obtain ⟨before, found, rfl⟩ := Option.map_eq_some_iff.mp present
      exact (carries before found).persists (.refl middle) order

omit [Platform] [Process] in
/-- A handler that may continue owes the confirmation, the batches that were missed, and the end marker. -/
theorem captureBacklog_continues {replid : Nat} {session : Session} {server : Server}
    (conveys : Conveys time past.content past.first past.acknowledged past.tentative server)
    (behind : past.first + session.next ≤ past.last)
    (partialAllowed : replidAllowsPartial session.request.replid replid = true) (begun : 0 < session.request.offset)
    (possible : partialResyncPossible session.request.offset (server.runtime.backlog.head?.map Prod.fst)
      server.runtime.replOffset = true) :
    past.first ≤ session.request.offset ∧
      Continues replid past time session.request.offset (some (session.captureBacklog replid server)) [] := by
  have publishes := conveys.toPublishes
  have last : server.runtime.replOffset = past.last := publishes.offset
  have stage : ∃ frames, (session.captureBacklog replid server).stage = .sending frames := by
    simp only [Session.captureBacklog, partialAllowed, decide_eq_true begun, possible, Bool.and_self, if_true,
      Session.continueFrom]
    exact ⟨_, rfl⟩
  rw [captureBacklog_eq publishes] at stage ⊢
  split at stage
  next allowed =>
    rw [if_pos allowed, last]
    obtain ⟨_, _, _, kept, reached⟩ := allowed
    have first : past.first ≤ session.request.offset := (Nat.le_add_right _ _).trans kept
    exact ⟨first, .sending rfl rfl ((reads_owed first reached).snoc .caughtUp) behind (Nat.le_refl _)⟩
  next =>
    obtain ⟨_, impossible⟩ := stage
    cases impossible

end Carrying

section Converging

/-- The content of a master after the batch of a sequence: what its batches so far make of what it started with. -/
def Past.contentAfter (past : Past) (sequence : Nat) : Bytes → Option PersistentEntry :=
  Expiring.replay past.content ((past.upTo sequence).flatMap batchWrites)

variable [Platform] [Process] {meets : Cluster → Prop} {early time : Nat} {past later : Past} {before after : Cluster}
  {replica : Replica} {frames : List Frame}

/-- What a master shows at a sequence is its content after the batch of that sequence. -/
theorem contentAfter_master (coupled : Coupled past early before) (grows : past.Grows later) (order : early ≤ time)
    (settled : later.tentative = []) (key : Bytes) :
    Alike (visible time (later.contentAfter before.master.runtime.replOffset) key)
      (visible time (before.master.store.view early) key) := by
  have known : past.tentative = [] := by
    by_contra behind
    exact behind (grows.ended behind ▸ settled)
  have all : later.upTo past.last = past.acknowledged := by
    rw [grows.upTo (Nat.le_refl _), Past.upTo, Past.last, Nat.add_sub_cancel_left, List.take_length]
  have repeats := coupled.conveys.reflects.repeats.later order key
  rw [known, List.append_nil] at repeats
  rw [Past.contentAfter, coupled.offset, all, grows.content]
  exact repeats

omit [Platform] [Process] in
theorem contentAfter_replica (agreement : Agreement past time replica) (settled : past.tentative = []) (key : Bytes) :
    Alike (visible time (past.contentAfter replica.localOffset) key) (replica.server.store.view time key) := by
  obtain ⟨extra, rest, repeats⟩ := agreement.shown
  have nothing : extra = [] := by
    rcases rest with rfl | ⟨rfl, _⟩
    · rfl
    · exact settled
  rw [nothing, List.append_nil] at repeats
  exact repeats key

/-- What a master has been at an earlier moment and what a replica is, by the past of the master: what the master
showed at its sequence then, and what the replica shows at its own, is the content after the batch of the sequence. -/
structure Converged (early : Nat) (before : Cluster) (time : Nat) (after : Cluster) (past : Past) : Prop where
  of : past.Of time after.master
  published : after.master.runtime.published = past.log
  master : ∀ key, Alike (visible time (past.contentAfter before.master.runtime.replOffset) key)
    (visible time (before.master.store.view early) key)
  reached : after.Knows → past.first ≤ after.replica.localOffset ∧ after.replica.localOffset ≤ past.last
  replica : after.Knows → ∀ key, Alike (visible time (past.contentAfter after.replica.localOffset) key)
    (after.replica.server.store.view time key)

/-- From every moment to every later one of the same master process. -/
theorem Onward.converged (onward : Onward meets early before frames time after) (coupled : Coupled past early before)
    (running : after.master.runtime.failStopStarted = false) :
    ∃ later, Converged early before time after later := by
  obtain ⟨order, later, grows, kept⟩ := onward.coupled coupled
  have settled := kept.conveys.settled running
  refine ⟨later, kept.of, kept.conveys.published, contentAfter_master coupled grows order settled, ?_, ?_⟩
  · intro knows
    have agreement := kept.follows.agrees knows
    exact ⟨agreement.begun, agreement.reached⟩
  · intro knows
    exact contentAfter_replica (kept.follows.agrees knows) settled

/-- What a master and a replica come to from a moment on, as long as it is the same master process. -/
structure Converges (early : Nat) (before : Cluster) : Prop where
  /-- At every sequence the replica shows the content of the master after the batch of that sequence. -/
  content : ∀ {frames : List Frame} {time : Nat} {after : Cluster},
    Onward (fun _ => True) early before frames time after → after.master.runtime.failStopStarted = false →
      ∃ past, Converged early before time after past
  /-- So the replica shows at a sequence what the master showed when it had the sequence. -/
  agrees : ∀ {frames : List Frame} {time : Nat} {after : Cluster},
    Onward (fun _ => True) early before frames time after → after.master.runtime.failStopStarted = false →
      after.Knows → after.replica.localOffset = before.master.runtime.replOffset →
        ∀ key, Alike (visible time (before.master.store.view early) key) (after.replica.server.store.view time key)
  /-- While it knows its master, the replica logs the master's batches between its two sequences, each once. -/
  batches : ∀ {frames : List Frame} {time : Nat} {after : Cluster},
    Onward Cluster.Knows early before frames time after →
    before.replica.localOffset ≤ after.replica.localOffset ∧
      before.replica.Logs after.replica (between before.replica.localOffset after.replica.localOffset
        after.master.runtime.published)
  /-- Where a partial synchronization is possible, the effects the handler sends, from the backlog and live, are the
  master's batches after the sequence that was asked for, and all of them once the handler has taken what there is. -/
  stream : ∀ {link : Link} {session : Session}, before.link = some link → link.session = some session →
    session.stage = .subscribed → replidAllowsPartial session.request.replid before.replid = true →
    0 < session.request.offset → partialResyncPossible session.request.offset
      (before.master.runtime.backlog.head?.map Prod.fst) before.master.runtime.replOffset = true →
    ∀ {frames : List Frame} {time : Nat} {after : Cluster} {later : Link}, Onward Cluster.Connected early
        { before with link := some { link with session := some (session.captureBacklog before.replid before.master) } }
        frames time after → after.link = some later →
      ∃ high, session.request.offset ≤ high ∧
        effectsOf (frames ++ later.wire) = between session.request.offset high after.master.runtime.published ∧
        ∀ served, later.session = some served → served.stage = .sending [] →
          served.next = after.master.runtime.published.length → high = after.master.runtime.replOffset

/-- In every run of masters, a replica and their connections, from every moment on. -/
theorem replica_converges {start : Nat} (reached : Reached start early before) : Converges early before := by
  obtain ⟨past, coupled⟩ := reached.coupled
  refine ⟨fun onward running => onward.converged coupled running, ?agrees, ?batches, ?stream⟩
  case agrees =>
    intro frames time after onward running knows same key
    obtain ⟨later, converged⟩ := onward.converged coupled running
    have shown := converged.replica knows key
    rw [same] at shown
    exact (converged.master key).symm.trans shown
  case batches =>
    intro frames time after onward
    obtain ⟨later, _, kept, order, logs⟩ := onward.logs coupled
    rw [kept.conveys.published]
    exact ⟨order, logs⟩
  case stream =>
    intro link session present handled subscribed allowed begun possible frames time after next onward kept
    obtain ⟨awaited, _, feeds⟩ := coupled.linked link present
    rw [handled] at feeds
    obtain ⟨_, nothing, waiting⟩ := feeds_early feeds (by simp [subscribed])
    obtain ⟨first, continues⟩ := captureBacklog_continues coupled.conveys (waiting (by simp [subscribed])) allowed begun
      possible
    obtain ⟨captured, decided, stays⟩ := coupled.step (.handle present (.captureBacklog handled subscribed))
    have grows := stays ⟨rfl, Or.inl rfl⟩
    obtain ⟨later, further, final, carries⟩ := onward.continues decided (fun other same => by
      cases same
      simp only [nothing]
      exact continues.persists grows (Nat.le_refl _))
    have all := further.first.trans grows.first
    obtain ⟨high, order, effects, complete⟩ := (carries next kept).effects (all.trans_le first)
    refine ⟨high, order, effects.trans (congrArg _ final.conveys.published.symm), ?_⟩
    intro served open' idle taken
    rw [final.offset]
    apply complete served open' idle
    rw [taken, final.conveys.published, numbered_length]
    rfl

end Converging

section Resumed

/-- A master and a replica whose connection is live and has served the batches up to a sequence. -/
def live (master : Server) (replica : Replica) (sequence : Nat) (wire : List Frame) : Cluster :=
  ⟨7, master, replica, some ⟨some ⟨⟨0, 0, true⟩, .sending [], sequence, sequence⟩, wire, .live 7⟩⟩

/-- A replica takes the next effect of its master. -/
theorem next_taken [Platform] {master after : Server} {replica : Replica} {sequence : Nat} {batch : CommittedBatch}
    (reached : letI := startedProcess
      Reached 0 0 (live master replica sequence []))
    (able : replica.server.runtime.acceptingWrites = true ∧ replica.stopRequested = false)
    (makes : letI := startedProcess
      ServerStep master after) (published : after.runtime.published[sequence]? = some (sequence + 1, batch))
    (kept : after.runtime.published.length ≤ sequence + replicaChannelCapacity)
    (encodes : (Frame.effect (sequence + 1) batch).Encodes) (readable : (Frame.effect (sequence + 1) batch).Readable) :
    letI := startedProcess
    Reached 0 0 (live after replica (sequence + 1) [.effect (sequence + 1) batch]) ∧
    ∃ followed : Replica,
      ClusterStep 0 (live after replica (sequence + 1) [.effect (sequence + 1) batch])
        (live after followed (sequence + 1) []) ∧
      (followed.server.runtime.acceptingWrites = true ∧ followed.stopRequested = false) ∧
      followed.localReplid = 7 ∧ followed.localOffset = sequence + 1 ∧
      ∀ key, followed.server.store.view 0 key =
        visible 0 (Expiring.replay (replica.server.store.view 0) (batchWrites batch)) key := by
  let := startedProcess
  have sent := next_served reached makes published kept encodes
  obtain ⟨words, worded⟩ := encodes
  obtain ⟨past, coupled⟩ := sent.coupled
  have willing : Willing replica .done acceptEverything := ⟨able.1, able.2, rfl, fun _ _ => rfl⟩
  obtain ⟨followed, received, knows, follows, applied⟩ := coupled.takes_effect rfl rfl rfl worded willing
  have unhindered := receive_unhindered received
  have taken : ClusterStep 0 (live after replica (sequence + 1) [.effect (sequence + 1) batch]) _ :=
    .receive rfl rfl worded readable .done acceptEverything
  simp only [live] at taken
  rw [received] at taken
  have still := And.intro (unhindered.accepting.trans able.1) (unhindered.wanted.trans able.2)
  refine ⟨sent, followed, taken, still, knows, follows, ?_⟩
  intro key
  rw [applied, (applyCommittedBatch_writes _ batch).view 0 coupled.follows.fixed.upto]

/-- The batch of a master that sets another key. -/
def laterBatch : CommittedBatch := ⟨[.put [98] ⟨.blob [49], none⟩]⟩

theorem looked_sets_again :
    letI := Reference.platform (fun _ => .error "unsupported")
    letI := startedProcess
    (processCommitGroup acceptEverything [.command ["SET", "b", "1"]]
      (processCommitGroup acceptEverything [.command ["SET", "a", "1"]] looked).2).2.runtime.published =
      [(1, setBatch), (2, laterBatch)] := by
  let := Reference.platform (fun _ => .error "unsupported")
  let := startedProcess
  exact @putEntries_eq _ [(1, [97], ⟨.blob [49], none⟩), (2, [98], ⟨.blob [49], none⟩)] (by decide +kernel)

/-- A master that sets a key, and then another one. -/
theorem sets_twice :
    letI := Reference.platform (fun _ => .error "unsupported")
    letI := startedProcess
    ∃ once twice : Server, once.runtime.published = [(1, setBatch)] ∧
      twice.runtime.published = [(1, setBatch), (2, laterBatch)] ∧ ServerStep looked once ∧ ServerStep once twice ∧
      once.runtime.replOffset = 1 ∧ twice.runtime.replOffset = 2 ∧ twice.runtime.failStopStarted = false := by
  let := Reference.platform (fun _ => .error "unsupported")
  let := startedProcess
  exact ⟨_, _, looked_sets, looked_sets_again, .group acceptEverything [.command ["SET", "a", "1"]],
    .group acceptEverything [.command ["SET", "b", "1"]], by decide +kernel, by decide +kernel, by decide +kernel⟩

theorem laterBatch_encodes :
    letI := Reference.platform (fun _ => .error "unsupported")
    (Frame.effect 2 laterBatch).Encodes := ⟨_, rfl⟩

/-- A master and a replica that has come back to it with the sequence of its first batch. -/
def back (master : Server) (replica : Replica) (session : Session) (wire : List Frame) : Cluster :=
  ⟨7, master, replica, some ⟨some session, wire, .handshake 7 1⟩⟩

/-- The handler has looked at the backlog, then the second batch is made, and then everything is written. -/
theorem resumed_run [Platform] {once twice : Server} (followed : Replica)
    (kept : once.runtime.backlog = [(1, setBatch)]) (last : once.runtime.replOffset = 1)
    (second : twice.runtime.published = [(1, setBatch), (2, laterBatch)])
    (further : letI := startedProcess
      ServerStep once twice) (encodes : (Frame.effect 2 laterBatch).Encodes) :
    letI := startedProcess
    Onward Cluster.Connected 0
      (back once followed (Session.captureBacklog ⟨⟨7, 1, true⟩, .subscribed, 1, 0⟩ 7 once) []) [] 0
      (back twice followed ⟨⟨7, 1, true⟩, .sending [], 2, 2⟩
        [.partialResync 7 1, .syncDone 7 1, .effect 2 laterBatch]) := by
  let := startedProcess
  have captured : (⟨⟨7, 1, true⟩, .subscribed, 1, 0⟩ : Session).captureBacklog 7 once =
      ⟨⟨7, 1, true⟩, .sending [.partialResync 7 1, .syncDone 7 1], 1, 1⟩ := by
    simp only [Session.captureBacklog, kept, last]
    rfl
  have served : Session.serve ⟨⟨7, 1, true⟩, .sending [], 1, 1⟩ twice =
      some (⟨⟨7, 1, true⟩, .sending [], 2, 2⟩, [.effect 2 laterBatch]) :=
    serve_next (by rw [second]; rfl) (by rw [second]; exact (by decide : 2 ≤ 1 + replicaChannelCapacity)) Nat.one_lt_two
  have encoded : ∀ frame ∈ [Frame.effect 2 laterBatch], frame.Encodes := by
    intro frame member
    rw [List.mem_singleton.mp member]
    exact encodes
  have begun : Onward Cluster.Connected 0
      (back once followed (Session.captureBacklog ⟨⟨7, 1, true⟩, .subscribed, 1, 0⟩ 7 once) []) [] 0
      (back once followed ⟨⟨7, 1, true⟩, .sending [.partialResync 7 1, .syncDone 7 1], 1, 1⟩ []) := by
    rw [captured]
    exact .start rfl
  have confirmed := begun.step (.handle rfl (.write rfl rfl ⟨_, rfl⟩)) ⟨rfl, Or.inl rfl⟩ rfl
  have ended := confirmed.step (.handle rfl (.write rfl rfl ⟨_, rfl⟩)) ⟨rfl, Or.inl rfl⟩ rfl
  have committed := ended.step (.master further) ⟨rfl, Or.inr further⟩ rfl
  exact committed.step (.handle rfl (.serve rfl rfl served encoded)) ⟨rfl, Or.inl rfl⟩ rfl

/-- A replica that takes its first effect, loses its master, and comes back to it. The second effect is made after the
handler has looked at the backlog. -/
theorem replica_converges_resumed :
    letI := Reference.platform (fun _ => .error "unsupported")
    letI := startedProcess
    ∃ sent followed : Cluster, sent.master.runtime.published = [(1, setBatch)] ∧
      followed.master.runtime.published = [(1, setBatch), (2, laterBatch)] ∧ followed.replica.localOffset = 1 ∧
      (∀ key, Alike (visible 0 (sent.master.store.view 0) key) (followed.replica.server.store.view 0 key)) ∧
      sent.replica.Logs followed.replica [(1, setBatch)] ∧
      ∃ (captured resumed : Cluster) (frames : List Frame) (link : Link),
        Onward Cluster.Connected 0 captured frames 0 resumed ∧ resumed.master = followed.master ∧
        resumed.link = some link ∧ effectsOf (frames ++ link.wire) = [(2, laterBatch)] := by
  let := Reference.platform (fun _ => .error "unsupported")
  let := startedProcess
  obtain ⟨once, twice, first, second, makes, further, last, final, running⟩ := sets_twice
  obtain ⟨replica, joined, known, offset, able⟩ := joined_reached
  obtain ⟨sent, followed, taken, _, knows, follows, _⟩ := next_taken joined able makes (by rw [first]; rfl)
    (by rw [first]; exact (by decide : 1 ≤ 0 + replicaChannelCapacity)) setBatch_encodes setBatch_readable
  have converges := replica_converges sent
  have along : Onward Cluster.Knows 0 (live once replica 1 [.effect 1 setBatch]) _ 0 (live once followed 1 []) :=
    (Onward.start known).step taken ⟨rfl, Or.inl rfl⟩ knows
  have ahead : Onward (fun _ => True) 0 (live once replica 1 [.effect 1 setBatch]) _ 0 (live twice followed 1 []) :=
    ((Onward.start trivial).step taken ⟨rfl, Or.inl rfl⟩ trivial).step (.master further) ⟨rfl, Or.inr further⟩ trivial
  have agrees := converges.agrees ahead running knows (follows.trans last.symm)
  have logged := (converges.batches along).2
  simp only [live, offset, follows, first] at logged
  have again := (((sent.step taken).step .disconnect).step (.connect rfl)).step (.handle rfl (.subscribe rfl rfl))
  simp only [live, Session.new, Session.subscribe, knows, follows, first, List.length_singleton] at again
  have kept : once.runtime.backlog = [(1, setBatch)] := by
    obtain ⟨past, coupled⟩ := sent.coupled
    have retains : once.runtime.backlog = Retention.retained backlogCapacity once.runtime.published :=
      coupled.conveys.backlog
    rw [retains, first]
    rfl
  have possible : partialResyncPossible 1 (once.runtime.backlog.head?.map Prod.fst) once.runtime.replOffset = true := by
    rw [kept, last]
    rfl
  have resumed := resumed_run followed kept last second further laterBatch_encodes
  obtain ⟨high, _, effects, all⟩ := (replica_converges again).stream rfl rfl rfl rfl Nat.one_pos possible resumed rfl
  have complete := all _ rfl rfl (by simp only [back, second]; rfl)
  simp only [back, second, complete, final] at effects
  exact ⟨_, _, first, second, follows, agrees, logged, _, _, _, _, resumed, rfl, rfl, effects⟩

end Resumed

section Zeros

def zero : Json := .number (.float ⟨0⟩ rfl)

/-- The batch of a master that stores the number zero. -/
def zeroBatch : CommittedBatch := ⟨[.put [107] ⟨.json zero, none⟩]⟩

theorem looked_zero :
    letI := Reference.platform parseZero
    letI := startedProcess
    (processCommitGroup acceptEverything [setZero "0.0"] looked).2.runtime.published = [(1, zeroBatch)] := by
  let := Reference.platform parseZero
  let := startedProcess
  exact @putEntries_eq _ [(1, [107], ⟨.json zero, none⟩)] (by decide +kernel)

theorem looked_zeros :
    letI := Reference.platform parseZero
    letI := startedProcess
    (processCommitGroup acceptEverything [setZero "-0.0", .command ["SET", "a", "1"]]
      (processCommitGroup acceptEverything [setZero "0.0"] looked).2).2.runtime.published =
      [(1, zeroBatch), (2, setBatch)] := by
  let := Reference.platform parseZero
  let := startedProcess
  exact @putEntries_eq _ [(1, [107], ⟨.json zero, none⟩), (2, [97], ⟨.blob [49], none⟩)] (by decide +kernel)

/-- A master that stores zero, and then in one group negative zero and a text. The two zeros are equal, so that only
the text makes a batch. -/
theorem zeros_stored :
    letI := Reference.platform parseZero
    letI := startedProcess
    ∃ before after : Server, before.runtime.published = [(1, zeroBatch)] ∧
      after.runtime.published = [(1, zeroBatch), (2, setBatch)] ∧ ServerStep looked before ∧
      ServerStep before after ∧ after.runtime.replOffset = 2 ∧ after.runtime.failStopStarted = false ∧
      printedImage (after.store.view 0 [107]) = 4 := by
  let := Reference.platform parseZero
  let := startedProcess
  exact ⟨_, _, looked_zero, looked_zeros, .group acceptEverything [setZero "0.0"],
    .group acceptEverything [setZero "-0.0", .command ["SET", "a", "1"]], by decide +kernel, by decide +kernel,
    by decide +kernel⟩

theorem zeroBatch_encodes :
    letI := Reference.platform parseZero
    (Frame.effect 1 zeroBatch).Encodes := ⟨_, rfl⟩

theorem zeroBatch_readable :
    letI := Reference.platform parseZero
    (Frame.effect 1 zeroBatch).Readable := by
  let := Reference.platform parseZero
  refine effect_readable (by decide) ?_ ?_
  · intro effect member
    obtain rfl := List.mem_singleton.mp member
    intro expiry expires
    cases expires
  · intro document member
    obtain rfl := List.mem_singleton.mp member
    have printed : utf8Bytes (Platform.jsonToString zero) = utf8Bytes "0.0" := by decide +kernel
    rw [printed]
    rfl

theorem setBatch_encodes_zero :
    letI := Reference.platform parseZero
    (Frame.effect 2 setBatch).Encodes := ⟨_, rfl⟩

theorem setBatch_readable_zero :
    letI := Reference.platform parseZero
    (Frame.effect 2 setBatch).Readable := by
  let := Reference.platform parseZero
  refine effect_readable (by decide) ?_ ?_
  · intro effect member
    obtain rfl := List.mem_singleton.mp member
    intro expiry expires
    cases expires
  · intro document member
    exact absurd member List.not_mem_nil

/-- A replica at the sequence of its master that shows another value: in the group of its last batch the master has
replaced zero by negative zero. -/
theorem replica_keeps_zero :
    letI := Reference.platform parseZero
    letI := startedProcess
    ∃ cluster : Cluster, Reached 0 0 cluster ∧ cluster.Knows ∧
      cluster.replica.localOffset = cluster.master.runtime.replOffset ∧
      cluster.master.runtime.failStopStarted = false ∧
      cluster.replica.server.store.view 0 [107] ≠ cluster.master.store.view 0 [107] := by
  let := Reference.platform parseZero
  let := startedProcess
  obtain ⟨before, after, first, second, makes, further, sequence, running, printed⟩ := zeros_stored
  obtain ⟨replica, joined, _, _, able⟩ := joined_reached
  obtain ⟨sent, follows, taken, able, _, _, stored⟩ := next_taken joined able makes (by rw [first]; rfl)
    (by rw [first]; exact (by decide : 1 ≤ 0 + replicaChannelCapacity)) zeroBatch_encodes zeroBatch_readable
  obtain ⟨sent, followed, taken, _, knows, offset, kept⟩ := next_taken (sent.step taken) able further
    (by rw [second]; rfl) (by rw [second]; exact (by decide : 2 ≤ 1 + replicaChannelCapacity))
    setBatch_encodes_zero setBatch_readable_zero
  have shown : followed.server.store.view 0 [107] = some ⟨.json zero, none⟩ := by
    have written : follows.server.store.view 0 [107] = some ⟨.json zero, none⟩ := by
      rw [stored]
      rfl
    have untouched : Expiring.replay (follows.server.store.view 0) (batchWrites setBatch) [107] =
        some ⟨.json zero, none⟩ :=
      (Function.update_of_ne (by decide : ([107] : Bytes) ≠ [97]) (some ⟨.blob [49], none⟩) _).trans written
    rw [kept, visible, untouched]
    rfl
  refine ⟨_, sent.step taken, knows, offset.trans sequence.symm, running, ?_⟩
  intro same
  have shorter : printedImage (after.store.view 0 [107]) = 3 := by
    have seen : after.store.view 0 [107] = some ⟨.json zero, none⟩ := same.symm.trans shown
    rw [seen]
    decide +kernel
  rw [shorter] at printed
  cases printed

end Zeros

end OnyxDB.Replication.Stream
