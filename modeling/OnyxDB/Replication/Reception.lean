import OnyxDB.Replication.ChunkedRoundTrip
import OnyxDB.Replication.Cluster

/-! What a replica makes of the frames that its master may send. It waits for something particular at every point; what
it gets then brings it to the next point, and leaves it in agreement with the past of the master. -/

namespace OnyxDB.Replication.Stream
open OnyxDB.Library OnyxDB.Library.Decimal OnyxDB.Engine OnyxDB.Engine.Value OnyxDB.Store OnyxDB.Persistence.Model
  OnyxDB.Persistence.Commit OnyxDB.Persistence.Codec OnyxDB.Coordinator OnyxDB.Replication.ChunkedRecord

section Expectations

/-- What a replica is waiting for: the answer to its request, the rest of a snapshot, the effects it has missed, or
those that follow. -/
inductive Awaited where
  | handshake (replid offset : Nat)
  | entries (sequence : Nat) (rest : List (Bytes × DataEntry))
  | missing (offset : Nat)
  | live (offset : Nat)

/-- The frames that a master with the given past may send to a replica that is waiting. -/
inductive Reads (replid : Nat) (past : Past) (time : Nat) : Awaited → Frame → Awaited → Prop where
  | full {known offset sequence : Nat} {entries : List (Bytes × DataEntry)}
      (dump : past.Dump time sequence entries) :
      Reads replid past time (.handshake known offset) (.fullResync replid sequence entries.length)
        (.entries sequence entries)
  | continues {offset : Nat} (reached : offset ≤ past.last) :
      Reads replid past time (.handshake replid offset) (.partialResync replid offset) (.missing offset)
  | entry {sequence : Nat} {entry : Bytes × DataEntry} {rest : List (Bytes × DataEntry)} :
      Reads replid past time (.entries sequence (entry :: rest)) (.entry entry.1 entry.2) (.entries sequence rest)
  | complete {sequence : Nat} :
      Reads replid past time (.entries sequence []) (.syncDone replid sequence) (.live sequence)
  | missed {offset : Nat} {batch : CommittedBatch} (sends : past.Sends (offset + 1) batch) :
      Reads replid past time (.missing offset) (.effect (offset + 1) batch) (.missing (offset + 1))
  | caughtUp {offset : Nat} : Reads replid past time (.missing offset) (.syncDone replid offset) (.live offset)
  | followed {offset : Nat} {batch : CommittedBatch} (sends : past.Sends (offset + 1) batch) :
      Reads replid past time (.live offset) (.effect (offset + 1) batch) (.live (offset + 1))
  | heartbeat {offset : Nat} : Reads replid past time (.live offset) (.heartbeat offset) (.live offset)

variable {replid time : Nat} {past later : Past} {awaited next : Awaited} {frame : Frame}

theorem Reads.persists (reads : Reads replid past time awaited frame next) (grows : past.Grows later) {now : Nat}
    (order : time ≤ now) : Reads replid later now awaited frame next := by
  cases reads with
  | full dump => exact .full ((dump.grows grows).elapse order)
  | continues reached => exact .continues (reached.trans grows.last_le)
  | entry => exact .entry
  | complete => exact .complete
  | missed sends => exact .missed (grows.sends sends)
  | caughtUp => exact .caughtUp
  | followed sends => exact .followed (grows.sends sends)
  | heartbeat => exact .heartbeat

/-- A snapshot is sent entry by entry. -/
theorem reads_entries (sequence : Nat) (entries rest : List (Bytes × DataEntry)) :
    Trace (Reads replid past time) (.entries sequence (entries ++ rest))
      (entries.map (fun entry => .entry entry.1 entry.2)) (.entries sequence rest) := by
  induction entries with
  | nil => exact .nil _
  | cons entry entries more => exact .cons .entry more

/-- The batches after a sequence, as far as the last one. -/
theorem reads_owed {offset : Nat} (begun : past.first ≤ offset) (reached : offset ≤ past.last) :
    Trace (Reads replid past time) (.missing offset) (owed past.first past.acknowledged offset)
      (.missing past.last) := by
  unfold owed
  obtain ⟨left, distance⟩ : ∃ left, left = past.last - offset := ⟨_, rfl⟩
  induction left generalizing offset with
  | zero =>
      have ended : offset = past.last := by omega
      have nothing : past.acknowledged.drop (offset - past.first) = [] := by
        rw [List.drop_eq_nil_iff, ended, Past.last]
        omega
      rw [nothing, ended]
      exact .nil _
  | succ left rest =>
      have within : offset - past.first < past.acknowledged.length := by
        rw [Past.last] at distance
        omega
      have place : offset + 1 - past.first = offset - past.first + 1 := by omega
      have sends : past.Sends (offset + 1) past.acknowledged[offset - past.first] := by
        refine ⟨by omega, ?_⟩
        rw [place, Nat.add_sub_cancel, List.getElem?_eq_getElem within]
      rw [List.drop_eq_getElem_cons within, numbered, List.map_cons, ← place]
      exact .cons (.missed sends) (rest (by omega) (by omega) (by omega))

end Expectations

section Invariant

/-- A replica that knows the master has a sequence of it, and shows what the master's content was there. -/
structure Agreement (past : Past) (time : Nat) (replica : Replica) : Prop where
  begun : past.first ≤ replica.localOffset
  reached : replica.localOffset ≤ past.last
  durable : replica.server.runtime.replOffset = replica.localOffset
  shown : past.Shown time replica.localOffset (replica.server.store.view time)
  ready : replica.server.runtime.acceptingWrites = true → replica.replicationReady = true

structure Follows (replid : Nat) (past : Past) (time : Nat) (replica : Replica) : Prop where
  fixed : replica.server.store.engine.clock.Fixed time
  agrees : replica.localReplid = replid → Agreement past time replica

/-- A staging store that holds the entries received of a snapshot of which `rest` are to come. -/
structure Staged (past : Past) (time sequence : Nat) (received rest : List (Bytes × DataEntry))
    (staging : ShardedStore) : Prop where
  dump : past.Dump time sequence (received ++ rest)
  fixed : staging.engine.clock.Fixed time
  view : staging.view time = visible time (History.listed received)

/-- Where the replica task is when it waits for something. -/
def Stands (replid : Nat) (past : Past) (time : Nat) (replica : Replica) (reception : Reception) : Awaited → Prop
  | .handshake known offset =>
      reception = .handshake known offset ∧ replica.localReplid = known ∧ replica.localOffset = offset
  | .entries sequence rest =>
      replica.localReplid = 0 ∧ ∃ received staging, Staged past time sequence received rest staging ∧
        reception = .entries replid sequence rest.length (received.map Prod.fst).reverse staging
  | .missing offset => reception = .missing replid ∧ replica.localReplid = replid ∧ replica.localOffset = offset
  | .live offset => reception = .live replid ∧ replica.localReplid = replid ∧ replica.localOffset = offset

variable {replid time : Nat} {past later : Past} {replica : Replica}

theorem Agreement.grows (agreement : Agreement past time replica) (grows : past.Grows later) :
    Agreement later time replica where
  begun := by rw [grows.first]; exact agreement.begun
  reached := agreement.reached.trans grows.last_le
  durable := agreement.durable
  shown := agreement.shown.grows grows agreement.reached
  ready := agreement.ready

theorem Follows.grows (follows : Follows replid past time replica) (grows : past.Grows later) :
    Follows replid later time replica :=
  ⟨follows.fixed, fun known => (follows.agrees known).grows grows⟩

theorem Stands.grows {reception : Reception} {awaited : Awaited}
    (stands : Stands replid past time replica reception awaited) (grows : past.Grows later) :
    Stands replid later time replica reception awaited := by
  cases awaited with
  | entries sequence rest =>
      obtain ⟨unknown, received, staging, staged, same⟩ := stands
      exact ⟨unknown, received, staging, ⟨staged.dump.grows grows, staged.fixed, staged.view⟩, same⟩
  | handshake known offset => exact stands
  | missing offset => exact stands
  | live offset => exact stands

end Invariant

section Markers
variable {replid sequence : Nat}

theorem parseNumber_decimalText_ok {message : String} {value other : Nat}
    (parsed : parseNumber message (decimalText value) = .ok other) : other = value := by
  unfold parseNumber decimalText at parsed
  rw [String.toList_ofList] at parsed
  cases read : parseUnsigned (2 ^ 64) (Nat.toDigits 10 value) with
  | none =>
      rw [read] at parsed
      cases parsed
  | some found =>
      rw [read] at parsed
      cases parsed
      exact parseUnsigned_toDigits_some read

theorem parseReplid_decimalText (fits : replid < 2 ^ 64) (drawn : replid ≠ 0) :
    parseReplid (decimalText replid) = .ok replid := by
  simp only [parseReplid, parseNumber_decimalText fits, bind, Except.bind, if_neg drawn]
  rfl

theorem parse_fullResync (fits : replid < 2 ^ 64) (drawn : replid ≠ 0) (bounded : sequence < 2 ^ 64) {count : Nat}
    (few : count ≤ maxKeys) :
    parseReplicaSyncHandshake ["+FULLRESYNC3", decimalText replid, decimalText sequence, decimalText count] =
      .ok (.full replid sequence count) := by
  have small : count < 2 ^ 64 := Nat.lt_of_le_of_lt few (by decide)
  simp only [parseReplicaSyncHandshake, parseReplid_decimalText fits drawn, parseNumber_decimalText bounded,
    parseNumber_decimalText small, bind, Except.bind, if_neg (Nat.not_lt.mpr few)]
  rfl

/-- The count of a handshake that is accepted is the one that was sent. -/
theorem parse_fullResync_ok (fits : replid < 2 ^ 64) (drawn : replid ≠ 0) (bounded : sequence < 2 ^ 64) {count : Nat}
    {handshake : ReplicaSyncHandshake}
    (parsed : parseReplicaSyncHandshake
      ["+FULLRESYNC3", decimalText replid, decimalText sequence, decimalText count] = .ok handshake) :
    handshake = .full replid sequence count := by
  simp only [parseReplicaSyncHandshake, parseReplid_decimalText fits drawn, parseNumber_decimalText bounded, bind,
    Except.bind] at parsed
  cases read : parseNumber "Invalid full synchronization entry count" (decimalText count) with
  | error error =>
      rw [read] at parsed
      cases parsed
  | ok entryCount =>
      obtain rfl := parseNumber_decimalText_ok read
      rw [read] at parsed
      simp only at parsed
      split at parsed
      · cases parsed
      · cases parsed
        rfl

theorem parse_continue (fits : replid < 2 ^ 64) (drawn : replid ≠ 0) (bounded : sequence < 2 ^ 64) :
    parseReplicaSyncHandshake ["+CONTINUE3", decimalText replid, decimalText sequence] =
      .ok (.continues replid sequence) := by
  simp only [parseReplicaSyncHandshake, parseReplid_decimalText fits drawn, parseNumber_decimalText bounded, bind,
    Except.bind]
  rfl

theorem parse_syncDone (fits : replid < 2 ^ 64) (bounded : sequence < 2 ^ 64) :
    parseReplicaSyncDone ["+SYNCDONE3", decimalText replid, decimalText sequence] replid = .ok sequence := by
  simp only [parseReplicaSyncDone, parseNumber_decimalText fits, parseNumber_decimalText bounded, bind, Except.bind,
    ne_eq, not_true_eq_false, if_false]

theorem parse_heartbeat (bounded : sequence < 2 ^ 64) :
    parseUpstreamHeartbeat ["REPLCONF", "PING", decimalText sequence] sequence = .ok true := by
  simp only [parseUpstreamHeartbeat, List.head?_cons, ne_eq, not_true_eq_false, if_false,
    parseNumber_decimalText bounded, bind, Except.bind]
  rfl

theorem handshake_accepted (words : List String) :
    isAuthenticationRejection ("+FULLRESYNC3" :: words) = false ∧
      isAuthenticationRejection ("+CONTINUE3" :: words) = false := by
  simp only [isAuthenticationRejection, List.head?_cons, Option.any_some]
  decide

theorem effect_words [Platform] {batch : CommittedBatch} {words : List String}
    (worded : (Frame.effect sequence batch).words = .ok words) : words.head? = some "APPLYEFFECT" := by
  simp only [Frame.words] at worded
  cases encoded : encodeReplicationEffect sequence batch with
  | error error =>
      rw [encoded] at worded
      cases worded
  | ok record =>
      obtain ⟨payload, _, _, _, rfl⟩ := encodeReplicationEffect_ok encoded
      rw [encoded] at worded
      cases worded
      rfl

/-- A batch whose numbers have 64 bits and whose documents are parsed as they were printed is read back. -/
theorem effect_readable [Platform] {batch : CommittedBatch} (bounded : sequence < 2 ^ 64)
    (storable : ∀ effect ∈ batch.effects, StorableEffect effect)
    (inverts : ∀ document ∈ CommittedBatch.documents batch,
      Platform.jsonFromSlice (utf8Bytes (Platform.jsonToString document)) = .ok document) :
    (Frame.effect sequence batch).Readable := by
  intro record encoded
  obtain ⟨payload, positive, written, _, rfl⟩ := encodeReplicationEffect_ok encoded
  have decodes : decodeCommittedBatch payload = .ok batch :=
    (decodeCommittedBatch_written storable written).trans (readBackBatch_inverts inverts)
  simp only [decodeReplicationEffect, parseNumber_decimalText bounded, bind, Except.bind, decodes, if_neg positive]
  rfl

end Markers

section Receiving

theorem acceptNextBatches_single {runtime after : CommitRuntime} {append : AppendBatches} {sequence : Nat}
    {batch : CommittedBatch} (accepted : runtime.acceptNextBatches append [(sequence, batch)] = .ok after) :
    after.replOffset = sequence ∧ after.acceptingWrites = runtime.acceptingWrites := by
  simp only [CommitRuntime.acceptNextBatches, List.getLast?_singleton, bind, Except.bind] at accepted
  split at accepted
  · cases accepted
  · split at accepted
    · cases accepted
    · split at accepted
      · cases accepted
      · cases accepted
        exact ⟨rfl, rfl⟩

theorem acceptNextBatches_next {runtime : CommitRuntime} {append : AppendBatches}
    (accepts : ∀ log group, append log group = .ok ()) (room : runtime.replOffset + 1 < 2 ^ 64)
    (batch : CommittedBatch) :
    ∃ after, runtime.acceptNextBatches append [(runtime.replOffset + 1, batch)] = .ok after := by
  simp only [CommitRuntime.acceptNextBatches, List.getLast?_singleton, CommitRuntime.nextSequence,
    checkedNext_fits room, CommitRuntime.checkNumbering, ne_eq, not_true_eq_false, if_false, accepts, bind, Except.bind]
  exact ⟨_, rfl⟩

/-- Nothing but what it is sent can make a replica give up: it takes writes, was not asked to stop, and storage does
what it is told. -/
structure Willing (replica : Replica) (storage : Storage) (append : AppendBatches) : Prop where
  accepting : replica.server.runtime.acceptingWrites = true
  wanted : replica.stopRequested = false
  stored : storage = .done
  accepts : ∀ log group, append log group = .ok ()

/-- A snapshot within the key limit that every node keeps. -/
def Frame.WithinLimit : Frame → Prop
  | .fullResync _ _ entryCount => entryCount ≤ maxKeys
  | _ => True

/-- What a replica makes of a frame: it still agrees with the master, it goes on as the frame says if it goes on at
all, and it does if nothing but the frame could stop it. -/
structure Handled (replid : Nat) (past : Past) (time : Nat) (next : Awaited) (willing : Prop)
    (result : Except PersistenceError Reception × Replica) : Prop where
  follows : Follows replid past time result.2
  stands : ∀ reception, result.1 = .ok reception → Stands replid past time result.2 reception next
  continues : willing → ∃ reception, result.1 = .ok reception

variable {replid time : Nat} {past : Past} {replica : Replica} {next : Awaited} {willing : Prop}

theorem handled_error {error : PersistenceError} {after : Replica} (follows : Follows replid past time after)
    (unwilling : willing → False) : Handled replid past time next willing (.error error, after) :=
  ⟨follows, nofun, fun holds => absurd holds unwilling⟩

theorem handled_ok {reception : Reception} {after : Replica} (follows : Follows replid past time after)
    (stands : Stands replid past time after reception next) :
    Handled replid past time next willing (.ok reception, after) := by
  refine ⟨follows, ?_, fun _ => ⟨reception, rfl⟩⟩
  intro other same
  cases same
  exact stands

/-- A replica that refuses writes shows what it showed. -/
theorem Follows.refusing (follows : Follows replid past time replica) (runtime : CommitRuntime)
    (offset : runtime.replOffset = replica.server.runtime.replOffset) (refusing : runtime.acceptingWrites = false)
    (ready stop : Bool) : Follows replid past time
      { replica.withRuntime runtime with replicationReady := ready, stopRequested := stop } := by
  refine ⟨follows.fixed, ?_⟩
  intro known
  have agreement := follows.agrees known
  refine ⟨agreement.begun, agreement.reached, offset.trans agreement.durable, agreement.shown, ?_⟩
  intro accepting
  have refused : runtime.acceptingWrites = true := accepting
  rw [refusing] at refused
  cases refused

theorem Follows.failed (follows : Follows replid past time replica) (message : String) :
    Follows replid past time (replica.markPersistenceFailed message) :=
  follows.refusing (replica.server.runtime.markPersistenceFailed message) rfl rfl false replica.stopRequested

theorem Follows.stopped (follows : Follows replid past time replica) (message : String) :
    Follows replid past time (replica.enterFailStop message) :=
  follows.refusing (replica.server.runtime.enterFailStop message) rfl rfl false true

variable [Platform] {storage : Storage} {append : AppendBatches} {words : List String}

/-- The effect of the next sequence. -/
theorem receiveEffect_handled (follows : Follows replid past time replica) (known : replica.localReplid = replid)
    (bounded : past.last < 2 ^ 64) {batch : CommittedBatch} (sends : past.Sends (replica.localOffset + 1) batch)
    {reception : Reception} (stands : ∀ after : Replica, after.localReplid = replid →
      after.localOffset = replica.localOffset + 1 → Stands replid past time after reception next) :
    Handled replid past time next (Willing replica storage append)
      (replica.receiveEffect append (.effect (replica.localOffset + 1) batch) reception) := by
  have agreement := follows.agrees known
  have reached := sends.reached
  have room : replica.server.runtime.replOffset + 1 < 2 ^ 64 := by
    rw [agreement.durable]
    omega
  simp only [Replica.receiveEffect, Replica.persistAndApplyEffect, checkedNext_fits room]
  cases accepting : replica.server.runtime.acceptingWrites with
  | false => exact handled_error follows (fun able => by rw [able.accepting] at accepting; cases accepting)
  | true =>
      have ready := agreement.ready accepting
      simp only [Bool.not_true, Bool.false_eq_true, if_false, ready, agreement.durable, ne_eq, not_true_eq_false]
      cases accepted : replica.server.runtime.acceptNextBatches append [(replica.localOffset + 1, batch)] with
      | error error =>
          have unable : Willing replica storage append → False := by
            intro able
            obtain ⟨after, succeeded⟩ := acceptNextBatches_next able.accepts room batch
            rw [agreement.durable, accepted] at succeeded
            cases succeeded
          simp only
          cases error.indeterminate with
          | true => exact handled_error (follows.stopped _) unable
          | false => exact handled_error (follows.failed _) unable
      | ok runtime =>
          obtain ⟨offset, accepts⟩ := acceptNextBatches_single accepted
          have applied := applyCommittedBatch_writes replica.server.store batch
          refine handled_ok ⟨applied.leads.fixed follows.fixed, fun _ => ?_⟩ (stands _ known rfl)
          refine ⟨agreement.begun.trans (Nat.le_succ _), reached, offset, ?_, fun _ => rfl⟩
          have shown := agreement.shown.next agreement.begun sends
          rw [← applied.view time follows.fixed.upto] at shown
          exact shown

omit [Platform] in
/-- A handshake that announces a snapshot. -/
theorem receiveHandshake_full (drawn : replid ≠ 0 ∧ replid < 2 ^ 64) (follows : Follows replid past time replica)
    (bounded : past.last < 2 ^ 64) {sequence known offset : Nat} {entries : List (Bytes × DataEntry)}
    (dump : past.Dump time sequence entries) :
    Handled replid past time (.entries sequence entries)
      (Willing replica storage append ∧ entries.length ≤ maxKeys)
      (replica.receiveHandshake storage
        ["+FULLRESYNC3", decimalText replid, decimalText sequence, decimalText entries.length] known offset) := by
  have fits : sequence < 2 ^ 64 := Nat.lt_of_le_of_lt dump.reached bounded
  unfold Replica.receiveHandshake
  rw [(handshake_accepted _).1, if_neg Bool.false_ne_true]
  cases parsed : parseReplicaSyncHandshake
      ["+FULLRESYNC3", decimalText replid, decimalText sequence, decimalText entries.length] with
  | error error =>
      apply handled_error follows
      intro able
      rw [parse_fullResync drawn.2 drawn.1 fits able.2] at parsed
      cases parsed
  | ok handshake =>
      obtain rfl := parse_fullResync_ok drawn.2 drawn.1 fits parsed
      simp only [Replica.beginFullSyncReception]
      cases stop : replica.stopRequested with
      | true => exact handled_error follows (fun able => by rw [able.1.wanted] at stop; cases stop)
      | false =>
          cases accepting : replica.server.runtime.acceptingWrites with
          | false => exact handled_error follows (fun able => by rw [able.1.accepting] at accepting; cases accepting)
          | true =>
              cases storage with
              | refused error => exact handled_error (follows.failed _) (fun able => nomatch able.1.stored)
              | lost error => exact handled_error (follows.failed _) (fun able => nomatch able.1.stored)
              | done =>
                  apply handled_ok
                  · exact ⟨follows.fixed, fun known => absurd known.symm drawn.1⟩
                  · exact ⟨rfl, [], .new replica.server.store.engine.clock, ⟨dump, follows.fixed, rfl⟩, rfl⟩

omit [Platform] in
theorem receiveHandshake_continues (drawn : replid ≠ 0 ∧ replid < 2 ^ 64) (follows : Follows replid past time replica)
    (bounded : past.last < 2 ^ 64) (known : replica.localReplid = replid) (reached : replica.localOffset ≤ past.last) :
    Handled replid past time (.missing replica.localOffset) (Willing replica storage append)
      (replica.receiveHandshake storage ["+CONTINUE3", decimalText replid, decimalText replica.localOffset]
        replid replica.localOffset) := by
  have fits : replica.localOffset < 2 ^ 64 := Nat.lt_of_le_of_lt reached bounded
  unfold Replica.receiveHandshake
  rw [(handshake_accepted _).2, if_neg Bool.false_ne_true, parse_continue drawn.2 drawn.1 fits]
  simp only [ne_eq, not_true_eq_false, or_self, if_false]
  exact handled_ok follows ⟨rfl, known, rfl⟩

/-- The marker behind the last entry: what is installed is what was received. -/
theorem receiveCompletion_handled (drawn : replid ≠ 0 ∧ replid < 2 ^ 64) (follows : Follows replid past time replica)
    (bounded : past.last < 2 ^ 64) (unknown : replica.localReplid = 0) {sequence : Nat}
    {received : List (Bytes × DataEntry)} {staging : ShardedStore}
    (staged : Staged past time sequence received [] staging) :
    Handled replid past time (.live sequence) (Willing replica storage append)
      (replica.receiveCompletion storage ["+SYNCDONE3", decimalText replid, decimalText sequence] replid sequence
        staging) := by
  have dump := staged.dump
  rw [List.append_nil] at dump
  have fits : sequence < 2 ^ 64 := Nat.lt_of_le_of_lt dump.reached bounded
  unfold Replica.receiveCompletion
  rw [parse_syncDone drawn.2 fits]
  simp only [ne_eq, not_true_eq_false, if_false, Replica.installFullSync, if_neg drawn.1]
  cases stop : replica.stopRequested with
  | true => exact handled_error follows (fun able => by rw [able.wanted] at stop; cases stop)
  | false =>
      cases accepting : replica.server.runtime.acceptingWrites with
      | false => exact handled_error follows (fun able => by rw [able.accepting] at accepting; cases accepting)
      | true =>
          cases storage with
          | refused error =>
              refine handled_error ⟨follows.fixed, fun known => ?_⟩ (fun able => nomatch able.stored)
              exact absurd (unknown.symm.trans known).symm drawn.1
          | lost error => exact handled_error (follows.stopped _) (fun able => nomatch able.stored)
          | done =>
              apply handled_ok
              · have leads := replaceAll_leads replica.server.store staging.rawEntries.1
                refine ⟨leads.fixed follows.fixed, fun _ => ?_⟩
                refine ⟨dump.begun, dump.reached, rfl, ?_, fun _ => rfl⟩
                have view : (replica.server.store.replaceAll staging.rawEntries.1).view time = staging.view time :=
                  replaceAll_rawEntries_view replica.server.store staging staged.fixed.upto
                have shown := dump.shown
                rw [← staged.view, ← view] at shown
                exact shown
              · exact ⟨rfl, rfl, rfl⟩

/-- The next entry of a snapshot goes to the staging store; no key comes twice. -/
theorem receive_entry_handled (follows : Follows replid past time replica) (unknown : replica.localReplid = 0)
    {sequence : Nat} {received rest : List (Bytes × DataEntry)} {entry : Bytes × DataEntry} {staging : ShardedStore}
    (staged : Staged past time sequence received (entry :: rest) staging) :
    Handled replid past time (.entries sequence rest) willing
      (replica.receive storage append (.entry entry.1 entry.2) words
        (.entries replid sequence (rest.length + 1) (received.map Prod.fst).reverse staging)) := by
  have distinct := staged.dump.distinct
  rw [List.map_append, List.map_cons] at distinct
  have new : entry.1 ∉ (received.map Prod.fst).reverse := by
    rw [List.mem_reverse]
    intro earlier
    exact (List.nodup_append.mp distinct).2.2 entry.1 earlier entry.1 List.mem_cons_self rfl
  simp only [Replica.receive, if_neg new]
  have written := applyCommittedEffect_writes staging (.put entry.1 (.ofDataEntry entry.2))
  have keys : entry.1 :: (received.map Prod.fst).reverse = ((received ++ [entry]).map Prod.fst).reverse := by
    rw [List.map_append, List.reverse_append]
    rfl
  rw [keys]
  refine handled_ok follows ⟨unknown, received ++ [entry], _, ⟨?_, written.leads.fixed staged.fixed, ?_⟩, rfl⟩
  · rw [List.append_assoc, List.singleton_append]
    exact staged.dump
  · rw [written.view time staged.fixed.upto, staged.view, visible_replay_visible le_rfl, History.listed,
      History.listed, List.map_append, Expiring.replay_append]
    rfl

omit [Platform] in
theorem Handled.weaken {result : Except PersistenceError Reception × Replica}
    (handled : Handled replid past time next willing result) {more : Prop} :
    Handled replid past time next (willing ∧ more) result :=
  ⟨handled.follows, handled.stands, fun able => handled.continues able.1⟩

/-- The heart of it: whatever may be sent is handled, and what the replica does next waits for what may be sent next. -/
theorem receive_handled (drawn : replid ≠ 0 ∧ replid < 2 ^ 64) (bounded : past.last < 2 ^ 64)
    (follows : Follows replid past time replica) {reception : Reception} {awaited : Awaited} {frame : Frame}
    (stands : Stands replid past time replica reception awaited) (reads : Reads replid past time awaited frame next)
    (worded : frame.words = .ok words) :
    Handled replid past time next (Willing replica storage append ∧ frame.WithinLimit)
      (replica.receive storage append frame words reception) := by
  cases reads with
  | full dump =>
      obtain ⟨rfl, rfl, rfl⟩ := stands
      cases worded
      exact receiveHandshake_full drawn follows bounded dump
  | continues reached =>
      obtain ⟨rfl, known, rfl⟩ := stands
      cases worded
      exact (receiveHandshake_continues drawn follows bounded known reached).weaken
  | entry =>
      obtain ⟨unknown, received, staging, staged, rfl⟩ := stands
      exact receive_entry_handled follows unknown staged
  | complete =>
      obtain ⟨unknown, received, staging, staged, rfl⟩ := stands
      cases worded
      exact (receiveCompletion_handled drawn follows bounded unknown staged).weaken
  | missed sends =>
      obtain ⟨rfl, known, rfl⟩ := stands
      have header := effect_words worded
      have different : words.head? ≠ some "+SYNCDONE3" := by
        rw [header]
        decide
      simp only [Replica.receive, if_neg different]
      have goesOn : ∀ after : Replica, after.localReplid = replid → after.localOffset = replica.localOffset + 1 →
          Stands replid past time after (.missing replid) (.missing (replica.localOffset + 1)) :=
        fun _ same moved => ⟨rfl, same, moved⟩
      exact (receiveEffect_handled follows known bounded sends goesOn).weaken
  | caughtUp =>
      obtain ⟨rfl, known, rfl⟩ := stands
      have fits : replica.localOffset < 2 ^ 64 := Nat.lt_of_le_of_lt (follows.agrees known).reached bounded
      cases worded
      simp only [Replica.receive, List.head?_cons, if_true, parse_syncDone drawn.2 fits, ne_eq, not_true_eq_false,
        if_false]
      refine handled_ok ⟨follows.fixed, fun _ => ?_⟩ ⟨rfl, rfl, rfl⟩
      have agreement := follows.agrees known
      exact ⟨agreement.begun, agreement.reached, agreement.durable, agreement.shown, agreement.ready⟩
  | followed sends =>
      obtain ⟨rfl, known, rfl⟩ := stands
      have header := effect_words worded
      have plain : parseUpstreamHeartbeat words replica.localOffset = .ok false := by
        unfold parseUpstreamHeartbeat
        rw [if_pos (by rw [header]; decide)]
      simp only [Replica.receive, plain]
      have goesOn : ∀ after : Replica, after.localReplid = replid → after.localOffset = replica.localOffset + 1 →
          Stands replid past time after (.live replid) (.live (replica.localOffset + 1)) :=
        fun _ same moved => ⟨rfl, same, moved⟩
      exact (receiveEffect_handled follows known bounded sends goesOn).weaken
  | heartbeat =>
      obtain ⟨rfl, known, rfl⟩ := stands
      have fits : replica.localOffset < 2 ^ 64 := Nat.lt_of_le_of_lt (follows.agrees known).reached bounded
      cases worded
      simp only [Replica.receive, parse_heartbeat fits]
      exact handled_ok follows ⟨rfl, known, rfl⟩

end Receiving

end OnyxDB.Replication.Stream
