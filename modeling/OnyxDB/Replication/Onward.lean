import OnyxDB.Replication.Consistency

/-! A replica in the course of one master process. The batches of the master only grow; what the replica logs while it
knows the master are the batches after its sequence, each once and in order. -/

namespace OnyxDB.Replication.Stream
open OnyxDB.Library OnyxDB.Engine OnyxDB.Engine.Value OnyxDB.Store OnyxDB.Persistence.Model
  OnyxDB.Persistence.Commit OnyxDB.Coordinator

section Logs

/-- The batches of a log after one sequence and up to another. -/
def between (low high : Nat) (log : List (Nat × CommittedBatch)) : List (Nat × CommittedBatch) :=
  log.filter (fun entry => decide (entry.1 ≤ high) && decide (low < entry.1))

/-- Of numbered batches, those up to a sequence are the first ones. -/
theorem numbered_upto (first : Nat) (batches : List CommittedBatch) {high : Nat} (past : first ≤ high) :
    (numbered first batches).filter (fun entry => decide (entry.1 ≤ high)) =
      numbered first (batches.take (high - first)) := by
  induction batches generalizing first with
  | nil =>
      rw [List.take_nil]
      rfl
  | cons batch batches rest =>
      rcases Nat.eq_or_lt_of_le past with rfl | later
      · rw [Nat.sub_self, List.take_zero]
        refine List.filter_eq_nil_iff.mpr ?_
        intro entry member
        obtain ⟨index, found⟩ := List.mem_iff_getElem?.mp member
        rw [numbered_get] at found
        obtain ⟨other, _, rfl⟩ := Option.map_eq_some_iff.mp found
        simp only [decide_eq_true_eq]
        omega
      · have apart : high - first = (high - (first + 1)) + 1 := by omega
        have kept : decide (first + 1 ≤ high) = true := decide_eq_true later
        rw [numbered, List.filter_cons, kept, if_pos rfl, rest (first + 1) later, apart, List.take_succ_cons, numbered]

theorem between_numbered {first low high : Nat} (begun : first ≤ low) (order : low ≤ high)
    (batches : List CommittedBatch) :
    between low high (numbered first batches) = numbered low ((batches.drop (low - first)).take (high - low)) := by
  rw [between, ← List.filter_filter, numbered_filter first batches begun, numbered_upto low _ order]

theorem between_self (sequence : Nat) (log : List (Nat × CommittedBatch)) : between sequence sequence log = [] := by
  rw [between, List.filter_eq_nil_iff]
  intro entry _
  simp only [Bool.and_eq_true, decide_eq_true_eq]
  omega

/-- The batches a process has acknowledged, under their sequences. -/
def Past.log (past : Past) : List (Nat × CommittedBatch) := numbered past.first past.acknowledged

variable {past later : Past} {low middle high : Nat}

theorem between_split (begun : past.first ≤ low) (order : low ≤ middle) (beyond : middle ≤ high)
    (reached : middle ≤ past.last) :
    between low high past.log = between low middle past.log ++ between middle high past.log := by
  have first : past.first ≤ middle := begun.trans order
  have apart : high - low = middle - low + (high - middle) := by omega
  have place : low - past.first + (middle - low) = middle - past.first := by omega
  have length : ((past.acknowledged.drop (low - past.first)).take (middle - low)).length = middle - low := by
    rw [Past.last] at reached
    rw [List.length_take, List.length_drop]
    omega
  rw [Past.log, between_numbered begun (order.trans beyond), between_numbered begun order,
    between_numbered first beyond, apart, List.take_add, numbered_append, length, List.drop_drop, place,
    Nat.add_sub_cancel' order]

theorem between_next {batch : CommittedBatch} (sends : past.Sends (low + 1) batch) :
    between low (low + 1) past.log = [(low + 1, batch)] := by
  obtain ⟨beyond, listed⟩ := sends
  have begun : past.first ≤ low := Nat.le_of_lt_succ beyond
  have place : low + 1 - past.first - 1 = low - past.first := by omega
  rw [place] at listed
  have single : low + 1 - low = 1 := by omega
  rw [Past.log, between_numbered begun (Nat.le_add_right _ _), single, List.take_one, List.head?_drop, listed]
  rfl

theorem between_grows (grows : past.Grows later) (begun : past.first ≤ low) (order : low ≤ high)
    (reached : high ≤ past.last) : between low high later.log = between low high past.log := by
  obtain ⟨more, longer⟩ := grows.acknowledged
  rw [Past.last] at reached
  rw [Past.log, Past.log, grows.first, longer, between_numbered begun order, between_numbered begun order,
    List.drop_append_of_le_length (by omega), List.take_append_of_le_length (by rw [List.length_drop]; omega)]

end Logs

section Model
variable [Platform] [Process]

/-- The frames that the replica has read in a step from a connection that is kept. -/
def Cluster.read (cluster after : Cluster) : List Frame :=
  match cluster.link, after.link with
  | some link, some next => link.wire.take (link.wire.length - next.wire.length)
  | _, _ => []

/-- A run of one master process all of whose states meet a condition, with the frames the replica has read in it. -/
inductive Onward (meets : Cluster → Prop) (early : Nat) (before : Cluster) : List Frame → Nat → Cluster → Prop where
  | start (met : meets before) : Onward meets early before [] early before
  | step {frames : List Frame} {time : Nat} {cluster after : Cluster}
      (onward : Onward meets early before frames time cluster) (next : ClusterStep time cluster after)
      (goesOn : cluster.GoesOn after) (met : meets after) :
      Onward meets early before (frames ++ cluster.read after) time after
  | elapse {frames : List Frame} {time later : Nat} {cluster : Cluster}
      (onward : Onward meets early before frames time cluster) {clock : Clock} (fixed : clock.Fixed later)
      (order : time ≤ later) (met : meets (cluster.withClock clock)) :
      Onward meets early before frames later (cluster.withClock clock)

variable {meets : Cluster → Prop} {early time : Nat} {before cluster after : Cluster} {frames : List Frame}
  {past later : Past}

omit [Platform] [Process] in
theorem Grows.trans {middle : Past} (one : past.Grows middle) (other : middle.Grows later) : past.Grows later := by
  obtain ⟨more, longer⟩ := one.acknowledged
  obtain ⟨further, longest⟩ := other.acknowledged
  refine ⟨other.content.trans one.content, other.first.trans one.first, ⟨more ++ further, ?_⟩, ?_⟩
  · rw [longest, longer, List.append_assoc]
  · intro behind
    obtain rfl := one.ended behind
    exact other.ended behind

/-- A run goes on with the past of its master. -/
theorem Onward.coupled (onward : Onward meets early before frames time after) (coupled : Coupled past early before) :
    early ≤ time ∧ ∃ later, past.Grows later ∧ Coupled later time after := by
  induction onward with
  | start => exact ⟨Nat.le_refl _, past, .refl past, coupled⟩
  | step _ next goesOn _ rest =>
      obtain ⟨order, middle, grows, kept⟩ := rest
      obtain ⟨later, coupled, further⟩ := kept.step next
      exact ⟨order, later, Grows.trans grows (further goesOn), coupled⟩
  | elapse _ fixed order _ rest =>
      obtain ⟨earlier, middle, grows, kept⟩ := rest
      exact ⟨earlier.trans order, middle, grows, kept.elapse fixed order⟩

theorem Onward.met (onward : Onward meets early before frames time after) : meets before ∧ meets after := by
  induction onward with
  | start met => exact ⟨met, met⟩
  | step _ _ _ met rest => exact ⟨rest.1, met⟩
  | elapse _ _ _ met rest => exact ⟨rest.1, met⟩

end Model

section Applying
variable {replica after : Replica} {append : AppendBatches} {sequence : Nat} {batch : CommittedBatch}

theorem acceptNextBatches_appended {runtime accepted : CommitRuntime}
    (accepts : runtime.acceptNextBatches append [(sequence, batch)] = .ok accepted) :
    accepted.appended = runtime.appended ++ [(sequence, batch)] := by
  simp only [CommitRuntime.acceptNextBatches, List.getLast?_singleton, bind, Except.bind] at accepts
  split at accepts
  · cases accepts
  · split at accepts
    · cases accepts
    · split at accepts
      · cases accepts
      · cases accepts
        rfl

/-- What a replica has logged since it was `replica`, with its sequence behind it. -/
def Replica.Logs (replica after : Replica) (logged : List (Nat × CommittedBatch)) : Prop :=
  after.server.runtime.appended = replica.server.runtime.appended ++ logged ∧
    after.localOffset = replica.localOffset + logged.length

theorem Replica.Logs.trans {middle : Replica} {logged more : List (Nat × CommittedBatch)}
    (early : replica.Logs middle logged) (late : middle.Logs after more) : replica.Logs after (logged ++ more) := by
  refine ⟨?_, ?_⟩
  · rw [late.1, early.1, List.append_assoc]
  · rw [late.2, early.2, List.length_append, Nat.add_assoc]

theorem Replica.Logs.nothing (same : after.server.runtime.appended = replica.server.runtime.appended)
    (offset : after.localOffset = replica.localOffset) : replica.Logs after [] :=
  ⟨same.trans (List.append_nil _).symm, offset⟩

variable [Platform]

/-- A replica has taken a batch: it has logged and applied it. -/
structure Replica.Takes (replica after : Replica) (batch : CommittedBatch) : Prop where
  logs : replica.Logs after [(replica.localOffset + 1, batch)]
  applies : after.server.store = applyCommittedBatch replica.server.store batch

theorem persistAndApplyEffect_appends
    (applied : replica.persistAndApplyEffect append sequence batch = (.ok (), after)) :
    after.server.runtime.appended = replica.server.runtime.appended ++ [(sequence, batch)] ∧
      after.server.store = applyCommittedBatch replica.server.store batch := by
  unfold Replica.persistAndApplyEffect at applied
  simp only at applied
  split at applied
  · cases applied
  · split at applied
    · cases applied
    · split at applied
      · cases applied
      · split at applied
        · cases applied
        · split at applied
          next runtime accepted =>
            cases applied
            exact ⟨acceptNextBatches_appended accepted, rfl⟩
          next => split at applied <;> cases applied

theorem persistAndApplyEffect_keeps {error : PersistenceError}
    (failed : replica.persistAndApplyEffect append sequence batch = (.error error, after)) : replica.Logs after [] := by
  unfold Replica.persistAndApplyEffect at failed
  simp only at failed
  split at failed
  · cases failed
    exact .nothing rfl rfl
  · split at failed
    · cases failed
      exact .nothing rfl rfl
    · split at failed
      · cases failed
        exact .nothing rfl rfl
      · split at failed
        · cases failed
          exact .nothing rfl rfl
        · split at failed
          · cases failed
          · split at failed <;> cases failed <;> exact .nothing rfl rfl

theorem receiveEffect_logs (replica : Replica) (append : AppendBatches) (batch : CommittedBatch)
    (reception : Reception) :
    replica.Logs (replica.receiveEffect append (.effect (replica.localOffset + 1) batch) reception).2 [] ∨
      replica.Takes (replica.receiveEffect append (.effect (replica.localOffset + 1) batch) reception).2 batch := by
  simp only [Replica.receiveEffect]
  cases applied : replica.persistAndApplyEffect append (replica.localOffset + 1) batch with
  | mk result after =>
      cases result with
      | ok _ =>
          obtain ⟨logged, stored⟩ := persistAndApplyEffect_appends applied
          exact Or.inr ⟨⟨logged, rfl⟩, stored⟩
      | error error => exact Or.inl (persistAndApplyEffect_keeps applied)

end Applying

section Applied
variable [Platform] {replid time : Nat} {past : Past} {replica : Replica} {storage : Storage} {append : AppendBatches}
  {words : List String}

omit [Platform] in
/-- A handshake leaves the log and the sequence, or the replica forgets its master. -/
theorem receiveHandshake_logs {known offset : Nat}
    (knows : (replica.receiveHandshake storage words known offset).2.localReplid ≠ 0) :
    replica.Logs (replica.receiveHandshake storage words known offset).2 [] := by
  unfold Replica.receiveHandshake at knows ⊢
  split at knows
  next refused =>
    rw [if_pos refused]
    exact .nothing rfl rfl
  next accepted =>
    rw [if_neg accepted]
    split at knows
    next => exact .nothing rfl rfl
    next =>
      cases begun : replica.beginFullSyncReception storage with
      | mk result after =>
          rw [begun] at knows
          cases result with
          | ok _ => exact absurd rfl knows
          | error error =>
              unfold Replica.beginFullSyncReception at begun
              split at begun
              · cases begun
                exact .nothing rfl rfl
              · split at begun
                · cases begun
                  exact .nothing rfl rfl
                · split at begun <;> cases begun <;> exact .nothing rfl rfl
    next => split <;> exact .nothing rfl rfl

/-- A replica that knows its master, before and after it receives what it may be sent, has taken the batch of the next
sequence or nothing. -/
theorem receive_logs (drawn : replid ≠ 0 ∧ replid < 2 ^ 64) (bounded : past.last < 2 ^ 64)
    (follows : Follows replid past time replica) {reception : Reception} {awaited next : Awaited} {frame : Frame}
    (stands : Stands replid past time replica reception awaited) (reads : Reads replid past time awaited frame next)
    (worded : frame.words = .ok words) (known : replica.localReplid = replid)
    (knows : (replica.receive storage append frame words reception).2.localReplid = replid) :
    replica.Logs (replica.receive storage append frame words reception).2 [] ∨
      ∃ batch, past.Sends (replica.localOffset + 1) batch ∧
        replica.Takes (replica.receive storage append frame words reception).2 batch := by
  have taken {batch : CommittedBatch} (sends : past.Sends (replica.localOffset + 1) batch) (reception : Reception) :
      replica.Logs (replica.receiveEffect append (.effect (replica.localOffset + 1) batch) reception).2 [] ∨
        ∃ other, past.Sends (replica.localOffset + 1) other ∧
          replica.Takes (replica.receiveEffect append (.effect (replica.localOffset + 1) batch) reception).2 other :=
    (receiveEffect_logs replica append batch reception).imp_right (fun logged => ⟨batch, sends, logged⟩)
  cases reads with
  | full | continues =>
      obtain ⟨rfl, _⟩ := stands
      exact Or.inl (receiveHandshake_logs (knows.trans_ne drawn.1))
  | entry =>
      obtain ⟨unknown, _⟩ := stands
      exact absurd (known.symm.trans unknown) drawn.1
  | complete =>
      obtain ⟨unknown, _⟩ := stands
      exact absurd (known.symm.trans unknown) drawn.1
  | missed sends =>
      obtain ⟨rfl, _, rfl⟩ := stands
      have header := effect_words worded
      have different : words.head? ≠ some "+SYNCDONE3" := by
        rw [header]
        decide
      simp only [Replica.receive, if_neg different]
      exact taken sends _
  | caughtUp =>
      obtain ⟨rfl, _, rfl⟩ := stands
      have fits : replica.localOffset < 2 ^ 64 := Nat.lt_of_le_of_lt (follows.agrees known).reached bounded
      cases worded
      simp only [Replica.receive, List.head?_cons, if_true, parse_syncDone drawn.2 fits, ne_eq, not_true_eq_false,
        if_false]
      exact Or.inl (.nothing rfl rfl)
  | followed sends =>
      obtain ⟨rfl, _, rfl⟩ := stands
      have header := effect_words worded
      have plain : parseUpstreamHeartbeat words replica.localOffset = .ok false := by
        unfold parseUpstreamHeartbeat
        rw [if_pos (by rw [header]; decide)]
      simp only [Replica.receive, plain]
      exact taken sends _
  | heartbeat =>
      obtain ⟨rfl, _, rfl⟩ := stands
      have fits : replica.localOffset < 2 ^ 64 := Nat.lt_of_le_of_lt (follows.agrees known).reached bounded
      cases worded
      simp only [Replica.receive, parse_heartbeat fits]
      exact Or.inl (.nothing rfl rfl)

variable [Process] {early : Nat} {before cluster after : Cluster} {frames : List Frame}

/-- The replica has a sequence of this master. -/
def Cluster.Knows (cluster : Cluster) : Prop := cluster.replica.localReplid = cluster.replid

theorem Coupled.logs (coupled : Coupled past time cluster) (knows : cluster.Knows)
    (step : ClusterStep time cluster after) (still : after.Knows) :
    cluster.replica.Logs after.replica [] ∨ ∃ batch, past.Sends (cluster.replica.localOffset + 1) batch ∧
      cluster.replica.Takes after.replica batch := by
  cases step with
  | receive present arrived worded readable storage append =>
      obtain ⟨awaited, stands, feeds⟩ := coupled.linked _ present
      rw [arrived] at feeds
      obtain ⟨next, reads, _⟩ := feeds.arrives
      exact receive_logs coupled.drawn coupled.last_lt coupled.follows stands reads worded knows still
  | _ => exact Or.inl (.nothing rfl rfl)

/-- A replica that follows takes the effect it is sent, and stays on the connection. -/
theorem Coupled.takes_effect (coupled : Coupled past time cluster) {link : Link} (linked : cluster.link = some link)
    (live : link.reception = .live cluster.replid) {sequence : Nat} {batch : CommittedBatch} {rest : List Frame}
    (arrived : link.wire = .effect sequence batch :: rest) (worded : (Frame.effect sequence batch).words = .ok words)
    (willing : Willing cluster.replica storage append) :
    ∃ followed : Replica, cluster.replica.receive storage append (.effect sequence batch) words link.reception =
        (.ok (.live cluster.replid), followed) ∧
      followed.localReplid = cluster.replid ∧ followed.localOffset = sequence ∧
      followed.server.store = applyCommittedBatch cluster.replica.server.store batch := by
  obtain ⟨known, offset⟩ := coupled.follows_effect linked live arrived worded willing
  obtain ⟨awaited, stands, feeds⟩ := coupled.linked link linked
  rw [arrived] at feeds
  obtain ⟨next, reads, _⟩ := feeds.arrives
  cases reads with
  | missed =>
      have impossible := live.symm.trans stands.1
      cases impossible
  | followed sends =>
      obtain ⟨_, _, rfl⟩ := stands
      have plain : parseUpstreamHeartbeat words cluster.replica.localOffset = .ok false := by
        unfold parseUpstreamHeartbeat
        rw [if_pos (by rw [effect_words worded]; decide)]
      rw [live] at known offset ⊢
      simp only [Replica.receive, plain, Replica.receiveEffect] at known offset ⊢
      cases applied : cluster.replica.persistAndApplyEffect append (cluster.replica.localOffset + 1) batch with
      | mk result after =>
          rw [applied] at known offset
          cases result with
          | ok _ => exact ⟨_, rfl, known, rfl, (persistAndApplyEffect_appends applied).2⟩
          | error error =>
              have same : after.localOffset = cluster.replica.localOffset := (persistAndApplyEffect_keeps applied).2
              simp only at offset
              omega

/-- As long as a replica knows its master it logs the batches of the master after its sequence, each once and in
order. -/
theorem Onward.logs (onward : Onward Cluster.Knows early before frames time after)
    (coupled : Coupled past early before) :
    ∃ later, past.Grows later ∧ Coupled later time after ∧
      before.replica.localOffset ≤ after.replica.localOffset ∧
      before.replica.Logs after.replica
        (between before.replica.localOffset after.replica.localOffset later.log) := by
  have begun := (coupled.follows.agrees onward.met.1).begun
  induction onward with
  | start =>
      refine ⟨past, .refl past, coupled, Nat.le_refl _, ?_⟩
      rw [between_self]
      exact .nothing rfl rfl
  | @step frames time cluster after onward next goesOn met rest =>
      obtain ⟨middle, grows, kept, order, logs⟩ := rest
      obtain ⟨later, coupled, further⟩ := kept.step next
      have longer := further goesOn
      have known := onward.met.2
      have first : middle.first ≤ before.replica.localOffset := grows.first ▸ begun
      have reached := (kept.follows.agrees known).reached
      refine ⟨later, Grows.trans grows longer, coupled, ?_⟩
      rcases kept.logs known next met with same | ⟨batch, sends, logged, _⟩
      · have offset : after.replica.localOffset = cluster.replica.localOffset := same.2
        refine ⟨order.trans offset.ge, ?_⟩
        rw [offset, between_grows longer first order reached]
        have all := logs.trans same
        rwa [List.append_nil] at all
      · have offset : after.replica.localOffset = cluster.replica.localOffset + 1 := logged.2
        refine ⟨order.trans (offset ▸ Nat.le_succ _), ?_⟩
        rw [offset, between_grows longer first (order.trans (Nat.le_succ _)) sends.reached,
          between_split first order (Nat.le_succ _) reached, between_next sends]
        exact logs.trans logged
  | @elapse frames time later cluster onward clock fixed order met rest =>
      obtain ⟨middle, grows, kept, order', logs⟩ := rest
      exact ⟨middle, grows, kept.elapse fixed order, order', logs⟩

end Applied

end OnyxDB.Replication.Stream
