import OnyxDB.Coordinator.Visibility
import OnyxDB.Replication.ChunkedRecord
import OnyxDB.Protocol.Pipeline

/-! A master serves one replication connection. It subscribes to the live effects, captures what the replica lacks,
from the backlog or as a snapshot of the whole store, and then sends the effects it receives. -/

namespace OnyxDB.Replication.Stream
open OnyxDB.Library.Decimal OnyxDB.Library.Retention OnyxDB.Engine OnyxDB.Engine.Value OnyxDB.Store
  OnyxDB.Protocol OnyxDB.Persistence.Model OnyxDB.Persistence.Codec OnyxDB.Coordinator
  OnyxDB.Replication.ChunkedRecord

section Frames

/-- What a master sends on a replication connection, piece by piece. -/
inductive Frame where
  | fullResync (replid sequence entryCount : Nat)
  | partialResync (replid sequence : Nat)
  | entry (key : Bytes) (stored : DataEntry)
  | effect (sequence : Nat) (batch : CommittedBatch)
  | syncDone (replid sequence : Nat)
  | heartbeat (sequence : Nat)

variable [Platform]

/-- The words of the line a frame is, or of the header of the record it is. -/
def Frame.words : Frame → Except PersistenceError (List String)
  | .fullResync replid sequence entryCount =>
      .ok ["+FULLRESYNC3", decimalText replid, decimalText sequence, decimalText entryCount]
  | .partialResync replid sequence => .ok ["+CONTINUE3", decimalText replid, decimalText sequence]
  | .entry key stored => (encodeFullSyncEntry key stored).map ChunkedReplicationRecord.header
  | .effect sequence batch => (encodeReplicationEffect sequence batch).map ChunkedReplicationRecord.header
  | .syncDone replid sequence => .ok ["+SYNCDONE3", decimalText replid, decimalText sequence]
  | .heartbeat sequence => .ok ["REPLCONF", "PING", decimalText sequence]

/-- A frame that can be written: a record within the limits of the format, or a line. -/
def Frame.Encodes (frame : Frame) : Prop := ∃ words, frame.words = .ok words

/-- A frame that the other side reads back: a count has 64 bits, and a record is decoded to what was encoded. Nothing
keeps a master from a record that is not: it writes JSON that is nested deeper than its parser allows. -/
def Frame.Readable : Frame → Prop
  | .fullResync _ _ entryCount => entryCount < 2 ^ 64
  | .entry key stored => ∀ record, encodeFullSyncEntry key stored = .ok record →
      decodeSnapshotEntry record.payload = .ok (key, .ofDataEntry stored)
  | .effect sequence batch => ∀ record, encodeReplicationEffect sequence batch = .ok record →
      decodeReplicationEffect (decimalText sequence) record.payload = .ok (sequence, batch)
  | .partialResync _ _ | .syncDone _ _ | .heartbeat _ => True

end Frames

section Handshake

/-- The arguments of `SYNC3`. -/
structure SyncRequest where
  replid : Nat
  offset : Nat
  heartbeat : Bool
  deriving DecidableEq, Repr

def parseSyncNumbers (replid offset : String) (heartbeat : Bool) : Except String SyncRequest :=
  match parseUnsigned (2 ^ 64) replid.toList, parseUnsigned (2 ^ 64) offset.toList with
  | some replid, some offset => .ok ⟨replid, offset, heartbeat⟩
  | _, _ => .error "ERR SYNC3 requires numeric replication ID and sequence"

def syncUsage : String := "ERR usage: SYNC3 replid sequence [HEARTBEAT]"

def parseSync3 : List String → Except String SyncRequest
  | [_, replid, offset] => parseSyncNumbers replid offset false
  | [_, replid, offset, capability] =>
      if makeAsciiUppercase capability = "HEARTBEAT" then parseSyncNumbers replid offset true
      else .error syncUsage
  | _ => .error syncUsage

def replidAllowsPartial (requestedReplid currentReplid : Nat) : Bool :=
  requestedReplid != 0 && requestedReplid == currentReplid

def partialResyncPossible (requestedOffset : Nat) (backlogOldest : Option Nat) (currentReplOffset : Nat) : Bool :=
  if requestedOffset > currentReplOffset then false
  else if requestedOffset = currentReplOffset then true
  else
    match backlogOldest with
    | some oldest => (checkedNext requestedOffset).any (fun nextOffset => oldest ≤ nextOffset)
    | none => false

end Handshake

section Handler
variable [Platform]

def replicaChannelCapacity : Nat := 4096

/-- How far the handler of `SYNC3` has come: it has the request, has subscribed, has decided to dump the whole store,
or is writing the frames it owes before it sends live effects. -/
inductive HandlerStage where
  | requested
  | subscribed
  | dumping
  | sending (frames : List Frame)

/-- `next` is how far the receiver of live effects has come in all that was published. -/
structure Session where
  request : SyncRequest
  stage : HandlerStage
  next : Nat
  lastSentOffset : Nat

namespace Session

def new (request : SyncRequest) : Session := ⟨request, .requested, 0, 0⟩

def subscribe (session : Session) (server : Server) : Session :=
  { session with stage := .subscribed, next := server.runtime.published.length }

/-- The frames of a partial synchronization. `lastSentOffset` becomes what it is after the last of them, as nothing
reads it before. -/
def continueFrom (session : Session) (replid : Nat) (missing : List (Nat × CommittedBatch)) : Session :=
  let last := (missing.getLast?.map Prod.fst).getD session.request.offset
  { session with
    stage := .sending (.partialResync replid session.request.offset ::
      missing.map (fun entry => .effect entry.1 entry.2) ++ [.syncDone replid last])
    lastSentOffset := last }

/-- The look at the backlog, under the write gate. -/
def captureBacklog (session : Session) (replid : Nat) (server : Server) : Session :=
  let oldest := server.runtime.backlog.head?.map Prod.fst
  if (replidAllowsPartial session.request.replid replid && decide (0 < session.request.offset)) &&
      partialResyncPossible session.request.offset oldest server.runtime.replOffset then
    session.continueFrom replid (server.runtime.backlog.filter (fun entry => session.request.offset < entry.1))
  else { session with stage := .dumping }

/-- The snapshot of a full synchronization, under the write gate. Fail-stop keeps only the visibility gate, so that
it does not stop this. -/
def captureSnapshot (session : Session) (replid : Nat) (server : Server) : Session × Server :=
  let (entries, store) := server.store.rawEntries
  let sequence := server.runtime.replOffset
  ({ session with
      stage := .sending (.fullResync replid sequence entries.length ::
        entries.map (fun entry => .entry entry.1 entry.2) ++ [.syncDone replid sequence])
      lastSentOffset := sequence },
    { server with store })

/-- What the live loop makes of its next effect, when the channel keeps `capacity` of them: the frames to be written,
or nothing if it has to close. -/
def serveWithin (capacity : Nat) (session : Session) (server : Server) : Option (Session × List Frame) :=
  match receive capacity server.runtime.published session.next with
  | (.entry (offset, batch), next) =>
      if offset ≤ session.lastSentOffset then some ({ session with next }, [])
      else some ({ session with next, lastSentOffset := offset }, [.effect offset batch])
  | (.lagged _, _) => none
  | (.nothing, _) => some (session, [])

def serve (session : Session) (server : Server) : Option (Session × List Frame) :=
  session.serveWithin replicaChannelCapacity server

end Session

end Handler

section Numbers
variable {first : Nat} {batches : List CommittedBatch} {entry : Nat × CommittedBatch}

theorem numbered_length (first : Nat) (batches : List CommittedBatch) :
    (numbered first batches).length = batches.length := by
  induction batches generalizing first with
  | nil => rfl
  | cons batch batches rest => rw [numbered, List.length_cons, List.length_cons, rest]

theorem numbered_get (first : Nat) (batches : List CommittedBatch) (index : Nat) :
    (numbered first batches)[index]? = batches[index]?.map (fun batch => (first + index + 1, batch)) := by
  induction batches generalizing first index with
  | nil => rfl
  | cons batch batches rest =>
      cases index with
      | zero => rfl
      | succ index =>
          rw [numbered, List.getElem?_cons_succ, List.getElem?_cons_succ, rest]
          congr 1
          funext batch
          congr 1
          omega

theorem numbered_drop (first : Nat) (batches : List CommittedBatch) (count : Nat) :
    (numbered first batches).drop count = numbered (first + count) (batches.drop count) := by
  apply List.ext_getElem?
  intro index
  rw [List.getElem?_drop, numbered_get, numbered_get, List.getElem?_drop]
  congr 1
  funext batch
  congr 1
  omega

/-- Of numbered batches, those past a sequence are the last ones. -/
theorem numbered_filter (first : Nat) (batches : List CommittedBatch) {sequence : Nat} (past : first ≤ sequence) :
    (numbered first batches).filter (fun entry => sequence < entry.1) =
      numbered sequence (batches.drop (sequence - first)) := by
  induction batches generalizing first with
  | nil =>
      rw [List.drop_nil]
      rfl
  | cons batch batches rest =>
      rcases Nat.eq_or_lt_of_le past with rfl | later
      · have all : ∀ entry ∈ numbered first (batch :: batches), decide (first < entry.1) = true := by
          intro entry member
          obtain ⟨index, found⟩ := List.mem_iff_getElem?.mp member
          rw [numbered_get] at found
          obtain ⟨other, _, rfl⟩ := Option.map_eq_some_iff.mp found
          rw [decide_eq_true_eq]
          omega
        rw [List.filter_eq_self.mpr all, Nat.sub_self, List.drop_zero]
      · have apart : sequence - first = (sequence - (first + 1)) + 1 := by omega
        have dropped : decide (sequence < (first + 1, batch).1) = false := by
          rw [decide_eq_false_iff_not]
          omega
        rw [numbered, List.filter_cons_of_neg (by rw [dropped]; decide), rest (first + 1) later, apart,
          List.drop_succ_cons]

/-- The sequence of the last of numbered batches, or the sequence before them. -/
theorem numbered_lastSequence (first : Nat) (batches : List CommittedBatch) :
    ((numbered first batches).getLast?.map Prod.fst).getD first = first + batches.length := by
  cases batches with
  | nil => rfl
  | cons batch batches =>
      obtain ⟨last, ended⟩ := numbered_last first batch batches
      rw [ended, List.length_cons, Nat.add_assoc]
      rfl

end Numbers

section Capture
variable {first : Nat} {batches : List CommittedBatch} {server : Server}

/-- How many batches the backlog has dropped. -/
def dropped (batches : List CommittedBatch) : Nat := batches.length - backlogCapacity

theorem dropped_lt (filled : batches ≠ []) : dropped batches < batches.length := by
  have positive := List.length_pos_iff.mpr filled
  have capacity : 0 < backlogCapacity := by decide
  exact Nat.sub_lt positive capacity

theorem dropped_le (batches : List CommittedBatch) : dropped batches ≤ batches.length := Nat.sub_le _ _

theorem backlog_numbered (publishes : Publishes first batches server.runtime) :
    server.runtime.backlog = numbered (first + dropped batches) (batches.drop (dropped batches)) := by
  rw [publishes.backlog, publishes.published, retained, numbered_length, numbered_drop, dropped]

/-- The oldest of numbered batches. -/
theorem numbered_oldest (first : Nat) (filled : batches ≠ []) :
    (numbered first batches).head?.map Prod.fst = some (first + 1) := by
  cases batches with
  | nil => exact absurd rfl filled
  | cons batch batches => rfl

/-- A history that has lost its first batches covers a requested sequence exactly when the sequence lies between
those and the present one. -/
theorem covers_iff {lost : Nat} (some_left : batches ≠ [] → lost < batches.length) (fewer : lost ≤ batches.length)
    (bounded : batches ≠ [] → first + batches.length < 2 ^ 64) (requested : Nat) :
    partialResyncPossible requested ((numbered (first + lost) (batches.drop lost)).head?.map Prod.fst)
        (first + batches.length) = true ↔
      first + lost ≤ requested ∧ requested ≤ first + batches.length := by
  unfold partialResyncPossible
  split
  next beyond =>
    simp only [Bool.false_eq_true, false_iff]
    omega
  next within =>
    split
    next present =>
      simp only [true_iff]
      omega
    next earlier =>
      by_cases filled : batches = []
      · subst filled
        simp only [List.drop_nil, numbered, List.head?_nil, Option.map_none, Bool.false_eq_true, false_iff]
        rw [List.length_nil] at fewer within earlier ⊢
        omega
      · have bound := bounded filled
        have less := some_left filled
        have kept : batches.drop lost ≠ [] := by
          intro nothing
          have covered := List.drop_eq_nil_iff.mp nothing
          omega
        rw [numbered_oldest _ kept]
        simp only [checkedNext_fits (show requested + 1 < 2 ^ 64 by omega), Option.any_some, decide_eq_true_eq]
        omega

theorem partialResyncPossible_iff (publishes : Publishes first batches server.runtime) (requested : Nat) :
    partialResyncPossible requested (server.runtime.backlog.head?.map Prod.fst) server.runtime.replOffset = true ↔
      first + dropped batches ≤ requested ∧ requested ≤ first + batches.length := by
  rw [backlog_numbered publishes, publishes.offset]
  refine covers_iff dropped_lt (dropped_le batches) ?_ requested
  intro filled
  rw [← publishes.offset]
  exact publishes.bounded filled

/-- What a replica lacks: the batches after the one it has asked from. -/
def owed (first : Nat) (batches : List CommittedBatch) (requested : Nat) : List Frame :=
  (numbered requested (batches.drop (requested - first))).map (fun entry => .effect entry.1 entry.2)

/-- The backlog past a sequence that it covers. -/
theorem backlog_past (publishes : Publishes first batches server.runtime) {requested : Nat}
    (kept : first + dropped batches ≤ requested) :
    server.runtime.backlog.filter (fun entry => requested < entry.1) =
      numbered requested (batches.drop (requested - first)) := by
  have place : dropped batches + (requested - (first + dropped batches)) = requested - first := by omega
  rw [backlog_numbered publishes, numbered_filter _ _ kept, List.drop_drop, place]

/-- The handler continues from a request exactly when the replica knows this master, has a sequence of it, and no
batch after that sequence is lost; it then owes the batches after that sequence and no others, up to the present
one. -/
theorem captureBacklog_eq (publishes : Publishes first batches server.runtime) (session : Session) (replid : Nat) :
    session.captureBacklog replid server =
      if session.request.replid ≠ 0 ∧ session.request.replid = replid ∧ 0 < session.request.offset ∧
          first + dropped batches ≤ session.request.offset ∧ session.request.offset ≤ first + batches.length then
        { session with
          stage := .sending (.partialResync replid session.request.offset ::
            owed first batches session.request.offset ++ [.syncDone replid server.runtime.replOffset])
          lastSentOffset := server.runtime.replOffset }
      else { session with stage := .dumping } := by
  have possible := partialResyncPossible_iff publishes session.request.offset
  unfold Session.captureBacklog replidAllowsPartial
  simp only [Bool.and_eq_true, bne_iff_ne, ne_eq, beq_iff_eq, decide_eq_true_eq, possible, and_assoc]
  split
  next allowed =>
    obtain ⟨_, _, _, kept, past⟩ := allowed
    have last : session.request.offset + (batches.drop (session.request.offset - first)).length =
        server.runtime.replOffset := by
      rw [publishes.offset, List.length_drop]
      omega
    simp only [Session.continueFrom, backlog_past publishes kept, numbered_lastSequence, last, owed]
  next => rfl

/-- A receiver that has come to `next` gets the batch of the sequence after it. -/
theorem receive_published (publishes : Publishes first batches server.runtime) {capacity next after offset : Nat}
    {batch : CommittedBatch}
    (found : receive capacity server.runtime.published next = (.entry (offset, batch), after)) :
    batches[next]? = some batch ∧ offset = first + next + 1 ∧ after = next + 1 := by
  obtain ⟨present, same⟩ := receive_entry found
  rw [publishes.published, numbered_get] at present
  obtain ⟨other, listed, pair⟩ := Option.map_eq_some_iff.mp present
  cases pair
  exact ⟨listed, rfl, same⟩

/-- What the live loop takes next: an effect that was captured before, which it skips, or the one after the last that
it has sent. -/
theorem serveWithin_eq (publishes : Publishes first batches server.runtime) {capacity : Nat} {session after : Session}
    {frames : List Frame} (behind : first + session.next ≤ session.lastSentOffset)
    (served : session.serveWithin capacity server = some (after, frames)) :
    after.request = session.request ∧ after.stage = session.stage ∧ session.next ≤ after.next ∧
      first + after.next ≤ after.lastSentOffset ∧
      ((frames = [] ∧ after.lastSentOffset = session.lastSentOffset) ∨
        ∃ batch, batches[session.lastSentOffset - first]? = some batch ∧
          frames = [.effect (session.lastSentOffset + 1) batch] ∧
          after.lastSentOffset = session.lastSentOffset + 1) := by
  unfold Session.serveWithin at served
  split at served
  next offset batch next found =>
    obtain ⟨listed, rfl, rfl⟩ := receive_published publishes found
    split at served
    next covered =>
      cases served
      exact ⟨rfl, rfl, Nat.le_succ _, covered, Or.inl ⟨rfl, rfl⟩⟩
    next fresh =>
      cases served
      have place : session.lastSentOffset - first = session.next := by omega
      have number : first + session.next + 1 = session.lastSentOffset + 1 := by omega
      refine ⟨rfl, rfl, Nat.le_succ _, Nat.le_refl _, Or.inr ⟨batch, ?_, ?_, number⟩⟩
      · rw [place]
        exact listed
      · rw [number]
  next => cases served
  next _ next found =>
    cases served
    exact ⟨rfl, rfl, Nat.le_refl _, behind, Or.inl ⟨rfl, rfl⟩⟩

end Capture

section Runs
variable [Platform] [Process] {first start time : Nat} {origin server : Server}

/-- In every run of a master: a replica that asks to continue is continued exactly if it knows this master, has a
sequence of it, and the backlog has not dropped a batch after that sequence; it is then sent all batches after its
sequence, each once and in order, and nothing else. Otherwise it gets a snapshot. -/
theorem resync_served (fresh : Fresh start origin) (course : Course start origin time server) :
    ∃ acknowledged, Publishes origin.runtime.replOffset acknowledged server.runtime ∧
      ∀ (session : Session) (replid : Nat), session.captureBacklog replid server =
        if session.request.replid ≠ 0 ∧ session.request.replid = replid ∧ 0 < session.request.offset ∧
            origin.runtime.replOffset + dropped acknowledged ≤ session.request.offset ∧
            session.request.offset ≤ origin.runtime.replOffset + acknowledged.length then
          { session with
            stage := .sending (.partialResync replid session.request.offset ::
              owed origin.runtime.replOffset acknowledged session.request.offset ++
                [.syncDone replid server.runtime.replOffset])
            lastSentOffset := server.runtime.replOffset }
        else { session with stage := .dumping } := by
  obtain ⟨acknowledged, _, conveyed, _⟩ := fresh.conveys.course course
  have publishes := conveyed.toPublishes
  rw [List.nil_append] at publishes
  exact ⟨acknowledged, publishes, captureBacklog_eq publishes⟩

end Runs

theorem resync_served_set :
    letI := Reference.platform (fun _ => .error "unsupported")
    letI := startedProcess
    ∃ acknowledged, Publishes (Coordinator.emptyServer 0).runtime.replOffset acknowledged oneSet.runtime ∧
      ∀ (session : Session) (replid : Nat), session.captureBacklog replid oneSet =
        if session.request.replid ≠ 0 ∧ session.request.replid = replid ∧ 0 < session.request.offset ∧
            (Coordinator.emptyServer 0).runtime.replOffset + dropped acknowledged ≤ session.request.offset ∧
            session.request.offset ≤ (Coordinator.emptyServer 0).runtime.replOffset + acknowledged.length then
          { session with
            stage := .sending (.partialResync replid session.request.offset ::
              owed (Coordinator.emptyServer 0).runtime.replOffset acknowledged session.request.offset ++
                [.syncDone replid oneSet.runtime.replOffset])
            lastSentOffset := oneSet.runtime.replOffset }
        else { session with stage := .dumping } :=
  letI := Reference.platform (fun _ => .error "unsupported")
  letI := startedProcess
  resync_served ⟨fun _ => rfl, rfl, rfl, rfl⟩ oneSet_course

end OnyxDB.Replication.Stream
