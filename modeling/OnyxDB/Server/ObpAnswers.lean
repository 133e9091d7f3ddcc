import OnyxDB.Coordinator.Transparency
import OnyxDB.Library.Hexadecimal
import OnyxDB.Server.ObpCommand
import OnyxDB.Store.ByteFidelity

/-! Which binary requests are answered. Every answer but one is short; the text of a stored value has no bound, and
the frame of a response has. -/

namespace OnyxDB.Server
open OnyxDB.Library.Decimal OnyxDB.Engine OnyxDB.Engine.Value OnyxDB.Store OnyxDB.Protocol OnyxDB.Protocol.Obp
  OnyxDB.Command OnyxDB.Coordinator OnyxDB.Persistence.Model

section Rendered

theorem joined_length (items : List Bytes) : (joined items).length = joinedLength (items.map List.length) := by
  cases items with
  | nil => rfl
  | cons first items =>
      induction items generalizing first with
      | nil => simp [joined, joinedLength, List.intercalate]
      | cons second items rest =>
          have later := rest second
          have separator : (utf8Bytes ", ").length = 2 := by decide
          have shape : joined (first :: second :: items) = first ++ (utf8Bytes ", " ++ joined (second :: items)) := rfl
          rw [shape, List.length_append, List.length_append, later, separator]
          simp only [joinedLength, List.map_cons, List.sum_cons, List.length_cons, List.length_map]
          omega

variable [Rendering]

/-- How long the text of a value is. -/
theorem debugValue_length (literals : PrintsLiterals) (value : OnyxValue) :
    (debugValue value).length = debugLength value := by
  have blobs (items : List Bytes) :
      (items.map Rendering.debugBytes).map List.length = items.map literalLength := by
    rw [List.map_map]
    exact List.map_congr_left (fun bytes _ => literals bytes)
  have blob : (utf8Bytes "Blob(").length = 5 := by decide
  have int : (utf8Bytes "Int(").length = 4 := by decide
  have float : (utf8Bytes "Float(").length = 6 := by decide
  have list : (utf8Bytes "List([").length = 6 := by decide
  have hash : (utf8Bytes "Hash(\x7b").length = 6 := by decide
  have set : (utf8Bytes "Set(\x7b").length = 5 := by decide
  have json : (utf8Bytes "Json(").length = 5 := by decide
  have vector : (utf8Bytes "Vector([").length = 8 := by decide
  have closing : (utf8Bytes ")").length = 1 := by decide
  have bracket : (utf8Bytes "])").length = 2 := by decide
  have brace : (utf8Bytes "\x7d)").length = 2 := by decide
  cases value <;> simp only [debugValue, debugLength, List.length_append, joined_length, blobs, List.map_map]
  case blob bytes => rw [blob, closing, literals]; omega
  case int value => rw [int, closing]; omega
  case float value => rw [float, closing]; omega
  case list items => rw [list, bracket]; omega
  case hash fields =>
    have fieldLength : (List.length ∘ debugField) = fun field => literalLength field.1 + 2 + literalLength field.2 := by
      funext field
      have colon : (utf8Bytes ": ").length = 2 := by decide
      rw [Function.comp_apply, debugField, List.length_append, List.length_append, colon, literals, literals]
    rw [hash, brace, fieldLength]
    omega
  case set members => rw [set, brace]; omega
  case json document => rw [json, closing]; omega
  case vector components =>
    rw [vector, bracket]
    change 8 + joinedLength (components.map fun component => (Rendering.debugComponent component).length) + 2 = _
    omega

end Rendered

section Messages

/-- How many bytes a text takes. -/
def textLength (text : String) : Nat := (utf8Bytes text).length

theorem textLength_append (first second : String) :
    textLength (first ++ second) = textLength first + textLength second := by
  rw [textLength, utf8Bytes_append, List.length_append]
  rfl

theorem textLength_number {value : Nat} (fits : value < 2 ^ 64) : textLength (toString value) ≤ 20 := by
  have digits : utf8Bytes (toString value) = digitBytes value := by
    rw [utf8Bytes, Nat.toString_eq_ofList_toDigits, String.toList_ofList, digitBytes]
  rw [textLength, digits]
  apply digitBytes_length_le (by decide)
  apply Nat.lt_trans fits
  decide

/-- Every message of storage is at most so long. -/
def storageMessageLimit : Nat := 65536

/-- Storage describes its failures briefly. -/
def BriefErrors (append : AppendBatches) : Prop :=
  ∀ log group error, append log group = .error error → textLength error.message ≤ storageMessageLimit

/-- The messages of the coordinator and the reasons the runtime notes. -/
def noteLimit : Nat := storageMessageLimit + 256

/-- What a failed runtime says is brief, and its sequence has 64 bits. -/
structure BriefRuntime (runtime : CommitRuntime) : Prop where
  bounded : runtime.replOffset < 2 ^ 64
  brief : ∀ reason ∈ runtime.failure, textLength reason ≤ noteLimit

theorem groupFailure_brief {kind : String} (short : textLength kind ≤ 64) {first last : Nat} (firstFits : first < 2 ^ 64)
    (lastFits : last < 2 ^ 64) {error : PersistenceError} (brief : textLength error.message ≤ storageMessageLimit) :
    textLength (groupFailure kind first last error) ≤ noteLimit := by
  have start := textLength_number firstFits
  have finish := textLength_number lastFits
  have opening : textLength "Master commit group persistence " = 32 := by decide +kernel
  have sequences : textLength " for sequences " = 15 := by decide +kernel
  have through : textLength " through " = 9 := by decide +kernel
  have colon : textLength ": " = 2 := by decide +kernel
  have parts : groupFailure kind first last error = "Master commit group persistence " ++ kind ++ " for sequences " ++
      toString first ++ " through " ++ toString last ++ ": " ++ error.message := rfl
  have whole := congrArg textLength parts
  have limit : noteLimit = storageMessageLimit + 256 := rfl
  simp only [textLength_append, opening, sequences, through, colon] at whole
  omega

theorem misconfMessage_brief {error : PersistenceError} (brief : textLength error.message ≤ noteLimit + 64) :
    textLength (misconfMessage error) ≤ noteLimit + 128 := by
  unfold misconfMessage
  split
  · omega
  · have opening : textLength "MISCONF mutation persistence failed: " = 37 := by decide +kernel
    have parts : textLength s!"MISCONF mutation persistence failed: {error.message}" =
        textLength ("MISCONF mutation persistence failed: " ++ error.message) := rfl
    rw [parts, textLength_append, opening]
    omega

end Messages

section Preparation

/-- What a program returns, on any store. -/
def Yields {α : Type} (program : StoreM α) (result : α → Prop) : Prop := ∀ store, result (program store).1

namespace Yields
variable {α β : Type} {program : StoreM α} {middle : α → Prop} {next : α → StoreM β} {result : β → Prop}

theorem any (program : StoreM α) : Yields program (fun _ => True) := fun _ => trivial

theorem pure {value : β} (holds : result value) : Yields (pure value : StoreM β) result := fun _ => holds

theorem bind (first : Yields program middle) (later : ∀ value, middle value → Yields (next value) result) :
    Yields (program >>= next) result :=
  fun store => later _ (first store) (program store).2

theorem after (later : ∀ value, Yields (next value) result) : Yields (program >>= next) result :=
  (any program).bind fun value _ => later value

end Yields

/-- The answers of the binary protocol to mutations. -/
def BriefResponse : MasterCommitResponse → Prop
  | .obp (.value (.blob bytes)) => bytes = utf8Bytes "OK"
  | .obp (.value (.int number)) => number = 0 ∨ number = 1
  | .obp (.value _) => False
  | .obp (.error message) => textLength message ≤ 128
  | .command _ | .commandGroup _ | .transaction _ => True

def BriefFailure {α : Type} : Except PersistenceError α → Prop
  | .error error => textLength error.message ≤ 128
  | .ok _ => True

def BriefPreparation : Except PersistenceError PreparedMasterCommit → Prop
  | .error error => textLength error.message ≤ 128
  | .ok pending => BriefResponse pending.response

theorem admissionMessage_brief (error : AdmissionError) : textLength error.message ≤ 128 := by
  cases error <;> decide

variable [Platform]

theorem prepareObpSet_brief (key value : Bytes) : Yields (prepareObpSet key value) BriefPreparation := by
  unfold prepareObpSet
  refine Yields.after fun attempt => Yields.after fun _ => Yields.after fun first => ?_
  cases first with
  | none => exact Yields.pure rfl
  | some batch =>
      refine Yields.after fun verdict => ?_
      cases verdict with
      | error error => exact Yields.after fun _ => Yields.pure (admissionMessage_brief error)
      | ok admitted =>
          refine Yields.after fun second => ?_
          cases second with
          | none =>
              have fixed : textLength "OBP committed effect derivation failed after admission" ≤ 128 := by decide +kernel
              exact Yields.after fun _ => Yields.pure fixed
          | some batch => exact Yields.pure rfl

theorem prepareObpDelete_brief (key : Bytes) :
    Yields (prepareObpDelete key) (fun pending => BriefResponse pending.response) := by
  unfold prepareObpDelete
  refine Yields.after fun attempt => Yields.after fun deleted => ?_
  cases deleted with
  | false => exact Yields.pure (Or.inl rfl)
  | true => exact Yields.pure (Or.inr rfl)

variable [Process]

theorem prepareCommandOperation_brief (arguments : List String) :
    Yields (prepareCommandOperation arguments) BriefFailure := by
  unfold prepareCommandOperation
  refine Yields.after fun attempt => Yields.after fun outcome => Yields.after fun first => ?_
  cases first with
  | none => exact Yields.pure trivial
  | some batch =>
      refine Yields.after fun verdict => ?_
      cases verdict with
      | error error => exact Yields.after fun _ => Yields.pure trivial
      | ok admitted =>
          refine Yields.after fun second => ?_
          cases second with
          | none => exact Yields.after fun _ => Yields.pure (show textLength derivationFailed ≤ 128 by decide +kernel)
          | some batch => exact Yields.pure trivial

theorem prepareCommand_brief (arguments : List String) : Yields (prepareCommand arguments) BriefPreparation := by
  refine (prepareCommandOperation_brief arguments).bind fun answer brief => ?_
  rcases answer with error | ⟨outcome, batch, rollback⟩
  · exact Yields.pure brief
  · cases batch <;> cases rollback <;> exact Yields.pure trivial

theorem prepareCommands_brief (commands : List (List String)) (prepared : PreparedMasterCommit)
    (outcomes : List CommandOutcome) : Yields (prepareCommands commands prepared outcomes) BriefPreparation := by
  induction commands generalizing prepared outcomes with
  | nil => exact Yields.pure trivial
  | cons arguments commands rest =>
      refine (prepareCommandOperation_brief arguments).bind fun answer brief => ?_
      cases answer with
      | error error => exact Yields.after fun _ => Yields.pure brief
      | ok next => exact rest _ _

theorem prepareTransaction_brief (commands : List (List String)) :
    Yields (prepareTransaction commands) (fun pending => BriefResponse pending.response) := by
  unfold prepareTransaction
  refine Yields.after fun results => Yields.after fun batch => ?_
  cases batch with
  | none => exact Yields.pure trivial
  | some batch => exact Yields.pure trivial

theorem prepareRequest_brief (request : MasterCommitOperation) : Yields (prepareRequest request) BriefPreparation := by
  cases request with
  | command arguments => exact prepareCommand_brief arguments
  | commandGroup commands => exact prepareCommands_brief commands _ _
  | transaction commands => exact (prepareTransaction_brief commands).bind fun _ brief => Yields.pure brief
  | obpSet key value => exact prepareObpSet_brief key value
  | obpDelete key => exact (prepareObpDelete_brief key).bind fun _ brief => Yields.pure brief

def BriefPreparations : Except PersistenceError (List PreparedMasterCommit) → Prop
  | .error error => textLength error.message ≤ 128
  | .ok prepared => ∀ pending ∈ prepared, BriefResponse pending.response

theorem prepareRequests_brief (requests : List MasterCommitOperation) {prepared : List PreparedMasterCommit}
    (brief : ∀ pending ∈ prepared, BriefResponse pending.response) :
    Yields (prepareRequests requests prepared) BriefPreparations := by
  induction requests generalizing prepared with
  | nil => exact Yields.pure brief
  | cons request requests rest =>
      refine (prepareRequest_brief request).bind fun answer here => ?_
      cases answer with
      | error error => exact Yields.after fun _ => Yields.pure here
      | ok pending =>
          apply rest
          intro other member
          rcases List.mem_append.mp member with earlier | last
          · exact brief other earlier
          · rw [List.mem_singleton.mp last]
            exact here

end Preparation

section Completion

def BriefCompletion : Completion → Prop
  | .error error => textLength error.message ≤ noteLimit + 64
  | .ok response => BriefResponse response

theorem rejectRequests_brief (requests : List MasterCommitOperation) {error : PersistenceError}
    (brief : textLength error.message ≤ noteLimit + 64) :
    ∀ completion ∈ rejectRequests requests error, BriefCompletion completion := by
  intro completion member
  obtain ⟨_, _, rfl⟩ := List.mem_map.mp member
  exact brief

theorem markCommitted_brief {response : MasterCommitResponse} (brief : BriefResponse response) :
    BriefResponse response.markCommitted := by
  cases response with
  | obp result => exact brief
  | command outcome => trivial
  | commandGroup outcomes => trivial
  | transaction response => trivial

theorem completePrepared_brief {prepared : List PreparedMasterCommit}
    (brief : ∀ pending ∈ prepared, BriefResponse pending.response) :
    ∀ completion ∈ completePrepared prepared, BriefCompletion completion := by
  intro completion member
  obtain ⟨pending, listed, rfl⟩ := List.mem_map.mp member
  change BriefResponse (if _ then _ else _)
  split
  · exact brief pending listed
  · exact markCommitted_brief (brief pending listed)

theorem unavailableMessage_brief {runtime : CommitRuntime} (brief : BriefRuntime runtime) :
    textLength runtime.unavailableMessage ≤ noteLimit + 64 := by
  unfold CommitRuntime.unavailableMessage
  split
  next reason failed =>
    have short := brief.brief reason failed
    have opening : textLength "MISCONF persistence is unavailable: " = 36 := by decide +kernel
    have parts : textLength s!"MISCONF persistence is unavailable: {reason}" =
        textLength ("MISCONF persistence is unavailable: " ++ reason) := rfl
    rw [parts, textLength_append, opening]
    omega
  next =>
    have fixed : textLength "MISCONF persistence is unavailable" = 34 := by decide +kernel
    omega

theorem noteFailure_brief {runtime : CommitRuntime} (brief : BriefRuntime runtime) {message : String}
    (short : textLength message ≤ noteLimit) : BriefRuntime (runtime.noteFailure message) := by
  refine ⟨brief.bounded, ?_⟩
  intro reason noted
  cases failed : runtime.failure with
  | none =>
      simp only [CommitRuntime.noteFailure, failed, Option.none_or, Option.mem_def, Option.some.injEq] at noted
      rw [← noted]
      exact short
  | some earlier =>
      simp only [CommitRuntime.noteFailure, failed, Option.some_or, Option.mem_def, Option.some.injEq] at noted
      rw [← noted]
      exact brief.brief earlier failed

theorem enterFailStop_brief {runtime : CommitRuntime} (brief : BriefRuntime runtime) {message : String}
    (short : textLength message ≤ noteLimit) : BriefRuntime (runtime.enterFailStop message) :=
  ⟨brief.bounded, (noteFailure_brief brief short).brief⟩

theorem numbered_last_fits {sequence : Nat} {batch : CommittedBatch} {batches : List CommittedBatch}
    (fits : sequence + (batch :: batches).length < 2 ^ 64) (default : Nat × CommittedBatch) :
    ((numbered sequence (batch :: batches)).getLastD default).1 < 2 ^ 64 := by
  obtain ⟨last, ended⟩ := numbered_last sequence batch batches
  rw [List.getLastD_eq_getLast?, ended, Option.getD_some]
  rw [List.length_cons] at fits
  omega

variable [Platform]

/-- Whatever storage answers to a prepared group, the completions are brief and so is what the runtime notes. -/
theorem concludeGroup_brief {append : AppendBatches} (storage : BriefErrors append)
    (requests : List MasterCommitOperation) {prepared : List PreparedMasterCommit} {server : Coordinator.Server}
    (runtime : BriefRuntime server.runtime) (brief : ∀ pending ∈ prepared, BriefResponse pending.response) :
    (∀ completion ∈ (concludeGroup append requests prepared server).1, BriefCompletion completion) ∧
      BriefRuntime (concludeGroup append requests prepared server).2.runtime := by
  have limit : noteLimit = storageMessageLimit + 256 := rfl
  have room : storageMessageLimit = 65536 := rfl
  unfold concludeGroup
  obtain ⟨batches, derived⟩ : ∃ batches, prepared.flatMap PreparedMasterCommit.batches = batches := ⟨_, rfl⟩
  simp only [derived]
  cases numbers : numberBatches server.runtime.replOffset batches with
  | none =>
      have exhausted : textLength sequenceExhausted.message ≤ 128 := by decide +kernel
      exact ⟨rejectRequests_brief requests (by omega), noteFailure_brief runtime (by omega)⟩
  | some entries =>
      obtain ⟨rfl, fits⟩ := numberBatches_some numbers
      cases batches with
      | nil => exact ⟨completePrepared_brief brief, runtime⟩
      | cons batch batches =>
          have bound := fits (by simp)
          have persisted := persistAndPublish_eq append bound
          cases answered : append server.runtime.appended (numbered server.runtime.replOffset (batch :: batches)) with
          | ok _ =>
              rw [answered] at persisted
              rw [numbered] at persisted ⊢
              simp only [persisted, Except.map]
              exact ⟨completePrepared_brief brief, bound, runtime.brief⟩
          | error error =>
              have short := storage _ _ _ answered
              rw [answered] at persisted
              have first : server.runtime.replOffset + 1 < 2 ^ 64 := by
                rw [List.length_cons] at bound
                omega
              have last := numbered_last_fits bound (server.runtime.replOffset + 1, batch)
              rw [numbered] at persisted last ⊢
              simp only [persisted, Except.map]
              split
              · have reason := @groupFailure_brief "is indeterminate" (by decide) _ _ first last error short
                exact ⟨rejectRequests_brief requests (by omega), enterFailStop_brief runtime reason⟩
              · have reason := @groupFailure_brief "failed" (by decide) _ _ first last error short
                exact ⟨rejectRequests_brief requests (by omega), noteFailure_brief runtime reason⟩

variable [Process]

/-- A group is answered briefly, and the runtime stays brief. -/
theorem processCommitGroup_brief {append : AppendBatches} (storage : BriefErrors append)
    (requests : List MasterCommitOperation) {server : Coordinator.Server} (runtime : BriefRuntime server.runtime) :
    (∀ completion ∈ (processCommitGroup append requests server).1, BriefCompletion completion) ∧
      BriefRuntime (processCommitGroup append requests server).2.runtime := by
  have limit : noteLimit = 65792 := rfl
  unfold processCommitGroup
  split
  · exact ⟨rejectRequests_brief requests (unavailableMessage_brief runtime), runtime⟩
  · have nothing : ∀ pending ∈ ([] : List PreparedMasterCommit), BriefResponse pending.response :=
      fun _ member => absurd member List.not_mem_nil
    have prepared := prepareRequests_brief requests nothing server.store
    cases ran : prepareRequests requests [] server.store with
    | mk answer store =>
        rw [ran] at prepared
        cases answer with
        | error error =>
            have short : textLength error.message ≤ 128 := prepared
            exact ⟨rejectRequests_brief requests (by omega), noteFailure_brief runtime (by omega)⟩
        | ok pending => exact concludeGroup_brief storage requests runtime prepared

theorem submit_brief {append : AppendBatches} (storage : BriefErrors append) (companions : Companions)
    (operation : MasterCommitOperation) {server : Coordinator.Server} (runtime : BriefRuntime server.runtime) :
    BriefCompletion (submit append companions operation server).1 := by
  have limit : noteLimit = 65792 := rfl
  unfold submit
  split
  · have fixed : textLength "Commit request exceeds the coordinator memory budget" ≤ 128 := by decide +kernel
    change textLength "Commit request exceeds the coordinator memory budget" ≤ _
    omega
  · have group := (processCommitGroup_brief storage (companions.before ++ operation :: companions.after) runtime).1
    simp only [List.getD_eq_getElem?_getD]
    cases held : (processCommitGroup append (companions.before ++ operation :: companions.after)
        server).1[companions.before.length]? with
    | none =>
        have fixed : textLength "Master commit coordinator dropped the outcome" ≤ 128 := by decide +kernel
        change textLength "Master commit coordinator dropped the outcome" ≤ _
        omega
    | some completion => exact group completion (List.mem_of_getElem? held)

end Completion

section Responses

/-- The bytes written are one frame, with the identifier of the request. -/
def Answered (frame : OBPFrame) (written : Option Bytes) : Prop :=
  ∃ out response, written = some out ∧ OBPFrame.decode out = (.ok (some response), []) ∧
    response.correlationId = frame.correlationId

/-- The bytes that are written for a response, if the encoder accepts it. -/
def writtenResponse (response : OBPFrame) : Option Bytes :=
  match response.encode [] with
  | .ok _ out => some out
  | .error _ _ => none

theorem respond_size (frame : OBPFrame) (payload : Bytes) : (respond frame payload).size =
    if payload.length > maxObpPayloadSize then .error (.payloadTooLarge payload.length)
    else .ok (15 + payload.length) := by
  have limit : maxObpPayloadSize = 524288 := rfl
  have total : maxObpFrameSize = 1048576 := rfl
  have words : usizeMax = 2 ^ 64 - 1 := rfl
  change (if payload.length > maxObpPayloadSize then _ else do
    let frameSize ← orOverflow (checkedAdd 15 payload.length)
    if frameSize > maxObpFrameSize then .error .frameTooLarge else .ok frameSize : Except OBPProtocolError Nat) = _
  split
  · rfl
  next small =>
    rw [orOverflow_add (by omega)]
    change (if 15 + payload.length > maxObpFrameSize then _ else _) = _
    rw [if_neg (by omega)]

/-- A response is written exactly if its payload is within the limit. -/
theorem respond_answered (frame : OBPFrame) (payload : Bytes) :
    Answered frame (writtenResponse (respond frame payload)) ↔ payload.length ≤ maxObpPayloadSize := by
  have sized := respond_size frame payload
  constructor
  · rintro ⟨out, response, written, _⟩
    by_contra long
    rw [if_pos (Nat.lt_of_not_le long)] at sized
    rw [writtenResponse, OBPFrame.encode, sized] at written
    cases written
  · intro small
    rw [if_neg (Nat.not_lt.mpr small)] at sized
    rcases encode_cases (respond frame payload) [] with ⟨error, failed⟩ | ⟨written, accepted⟩
    · rw [OBPFrame.encode, sized] at failed
      cases failed
    · have decoded := accepted.decodes []
      rw [List.append_nil] at decoded
      refine ⟨_, _, ?_, decoded, rfl⟩
      rw [writtenResponse, written]
      rfl

end Responses

section Answers
variable [Platform]

theorem getEntry_shown (store : ShardedStore) (key : Bytes) :
    (store.getEntry key).1.map DataEntry.value =
      (store.view store.engine.clock.now key).map PersistentEntry.value := by
  change (store.engine.get key).1.map DataEntry.value = (shown _ (store.engine.lookup key)).map PersistentEntry.value
  rw [store.engine.get_fst key, OnyxEngine.touched, shown, Option.map_map, Option.map_map]
  rfl

variable [Process]

/-- The servers that commands of both protocols reach from an empty store: requests come in groups that storage may
refuse, connections execute commands and read keys themselves, expired keys are collected, and other parts of the
server note failures. -/
inductive Reachable : Coordinator.Server → Prop where
  | start (clock : Clock) (maxmemoryBytes : Nat) (policy : EvictionPolicy) {runtime : CommitRuntime}
      (healthy : runtime.failure = none) (bounded : runtime.replOffset < 2 ^ 64) :
      Reachable ⟨.withMaxmemory clock maxmemoryBytes policy, runtime⟩
  | group {server : Coordinator.Server} (reachable : Reachable server) {append : AppendBatches}
      (storage : BriefErrors append) (requests : List MasterCommitOperation) :
      Reachable (processCommitGroup append requests server).2
  | execute {server : Coordinator.Server} (reachable : Reachable server) (arguments : List String) :
      Reachable { server with store := (executeServerCommand arguments server.store).2 }
  | obpGet {server : Coordinator.Server} (reachable : Reachable server) (key : Bytes) :
      Reachable { server with store := (server.store.getEntry key).2 }
  | collect {server : Coordinator.Server} (reachable : Reachable server) :
      Reachable { server with store := (ShardedStore.perform .gcExpired server.store).2 }
  | fails {server : Coordinator.Server} (reachable : Reachable server) {message : String}
      (short : textLength message ≤ noteLimit) : Reachable { server with runtime := server.runtime.noteFailure message }
  | stops {server : Coordinator.Server} (reachable : Reachable server) {message : String}
      (short : textLength message ≤ noteLimit) :
      Reachable { server with runtime := server.runtime.enterFailStop message }

theorem Reachable.brief {server : Coordinator.Server} (reachable : Reachable server) : BriefRuntime server.runtime := by
  induction reachable with
  | start clock maxmemoryBytes policy healthy bounded =>
      refine ⟨bounded, ?_⟩
      intro reason noted
      rw [healthy] at noted
      cases noted
  | group _ storage requests brief => exact (processCommitGroup_brief storage requests brief).2
  | execute _ _ brief => exact brief
  | obpGet _ _ brief => exact brief
  | collect _ brief => exact brief
  | fails _ short brief => exact noteFailure_brief brief short
  | stops _ short brief => exact enterFailStop_brief brief short

variable [Rendering]

/-- The request asks for a value whose text is longer than the payload of a frame may be. -/
def Overlong (frame : OBPFrame) (server : Coordinator.Server) : Prop :=
  frame.cmd = 0x01 ∧ ∃ key ∈ frame.args.head?, ∃ entry ∈ server.store.view server.store.engine.clock.now key,
    maxObpPayloadSize < debugLength entry.value

omit [Platform] [Process] in
/-- A value that a mutation is answered with. -/
theorem debugValue_brief (literals : PrintsLiterals) {value : OnyxValue} (brief : BriefResponse (.obp (.value value))) :
    (debugValue value).length ≤ 64 := by
  rw [debugValue_length literals]
  cases value with
  | blob bytes =>
      obtain rfl : bytes = utf8Bytes "OK" := brief
      change 6 + literalLength (utf8Bytes "OK") ≤ 64
      decide
  | int number =>
      rcases brief with rfl | rfl
      · change 5 + textLength (toString (0 : Int64).toInt) ≤ 64
        decide
      · change 5 + textLength (toString (1 : Int64).toInt) ≤ 64
        decide
  | float _ | list _ | hash _ | set _ | json _ | vector _ => cases brief

theorem executeObpMutation_brief (literals : PrintsLiterals) {append : AppendBatches} (storage : BriefErrors append)
    (companions : Companions) (operation : MasterCommitOperation) {server : Coordinator.Server}
    (runtime : BriefRuntime server.runtime) :
    (mutationPayload (executeObpMutation append companions operation server).1).length ≤ maxObpPayloadSize := by
  have limit : noteLimit = 65792 := rfl
  have payload : maxObpPayloadSize = 524288 := rfl
  have completed := submit_brief storage companions operation runtime
  unfold executeObpMutation
  cases ran : submit append companions operation server with
  | mk completion after =>
      rw [ran] at completed
      cases completion with
      | error error =>
          have short := misconfMessage_brief completed
          change textLength (misconfMessage error) ≤ _
          omega
      | ok response =>
          cases response with
          | obp result =>
              cases result with
              | value value =>
                  have short := debugValue_brief literals completed
                  change (debugValue value).length ≤ _
                  omega
              | error message =>
                  have short : textLength message ≤ 128 := completed
                  change textLength message ≤ _
                  omega
          | command _ | commandGroup _ | transaction _ =>
              have fixed : textLength (misconfMessage { message := "Master commit coordinator returned a mismatched OBP outcome", indeterminate := true }) ≤ 128 := by decide +kernel
              change textLength (misconfMessage _) ≤ _
              omega

/-- The payload of a data command is within the limit unless it is the text of a long value. -/
theorem executeObpData_payload (literals : PrintsLiterals) {append : AppendBatches} (storage : BriefErrors append)
    (companions : Companions) (frame : OBPFrame) {server : Coordinator.Server} (runtime : BriefRuntime server.runtime) :
    (executeObpData append companions frame.cmd frame.args server).1.length ≤ maxObpPayloadSize ↔
      ¬ Overlong frame server := by
  have fixed (text : String) (short : literalLength (utf8Bytes text) ≤ 100) :
      (debugValue (.blob (utf8Bytes text))).length ≤ maxObpPayloadSize := by
    have payload : maxObpPayloadSize = 524288 := rfl
    rw [debugValue_length literals, debugLength]
    omega
  have empty : (debugValue (.blob [])).length ≤ maxObpPayloadSize := fixed "" (by decide)
  have other (differs : frame.cmd ≠ 0x01) : ¬ Overlong frame server := fun long => differs long.1
  unfold executeObpData
  split
  next get =>
    cases args : frame.args with
    | nil =>
        refine ⟨fun _ long => ?_, fun _ => empty⟩
        obtain ⟨_, key, named, _⟩ := long
        rw [args] at named
        cases named
    | cons key others =>
        have found := getEntry_shown server.store key
        change (debugValue (((server.store.getEntry key).1.map DataEntry.value).getD (.blob []))).length ≤ _ ↔ _
        rw [found]
        cases shown : server.store.view server.store.engine.clock.now key with
        | none =>
            refine ⟨fun _ long => ?_, fun _ => empty⟩
            obtain ⟨_, other, named, entry, held, _⟩ := long
            rw [args] at named
            cases named
            rw [shown] at held
            cases held
        | some entry =>
            change (debugValue entry.value).length ≤ _ ↔ _
            rw [debugValue_length literals]
            constructor
            · rintro small ⟨_, other, named, stored, held, long⟩
              rw [args] at named
              cases named
              rw [shown] at held
              cases held
              exact absurd long (Nat.not_lt.mpr small)
            · intro allowed
              by_contra long
              refine allowed ⟨get, key, ?_, entry, shown, Nat.lt_of_not_le long⟩
              rw [args]
              rfl
  next notGet =>
    refine ⟨fun _ => other notGet, fun _ => ?_⟩
    split
    · split
      · exact executeObpMutation_brief literals storage companions _ runtime
      · exact fixed "ERR" (by decide)
    · split
      · split
        · exact executeObpMutation_brief literals storage companions _ runtime
        · have payload : maxObpPayloadSize = 524288 := rfl
          have zero := @debugValue_brief _ literals (.int 0) (Or.inl rfl)
          change (debugValue (.int 0)).length ≤ _
          omega
      · split
        · exact fixed "PONG" (by decide)
        · exact fixed "ERR unknown command" (by decide)

theorem serveFrame_written (append : AppendBatches) (users : Users) (replicaMode : Bool) (companions : Companions)
    (frame : OBPFrame) (authenticated : Bool) (server : Coordinator.Server) :
    (serveFrame append users replicaMode companions frame authenticated server).1 =
      writtenResponse (executeObpCommand append users replicaMode companions frame authenticated server).1 := by
  unfold serveFrame writtenResponse
  simp only
  cases (executeObpCommand append users replicaMode companions frame authenticated server).1.encode [] <;> rfl

omit [Rendering] in
theorem executeObpMutation_server (append : AppendBatches) (companions : Companions) (operation : MasterCommitOperation)
    (server : Coordinator.Server) :
    (executeObpMutation append companions operation server).2 = (submit append companions operation server).2 := by
  unfold executeObpMutation
  cases submit append companions operation server with
  | mk completion after =>
      rcases completion with error | (_ | _ | _ | _) <;> rfl

/-- Serving a set that the queue takes leaves what its group leaves. -/
theorem serveFrame_set (append : AppendBatches) (users : Users) (companions : Companions) (frame : OBPFrame)
    {key value : Bytes} {others : List Bytes} (set : frame.cmd = 0x02) (named : frame.args = key :: value :: others)
    (server : Coordinator.Server)
    (small : max (MasterCommitOperation.obpSet key value).estimatedBytes 1 ≤ commitQueueMemoryBytes) :
    (serveFrame append users false companions frame true server).2.2 =
      (processCommitGroup append (companions.before ++ .obpSet key value :: companions.after) server).2 := by
  have executed : (executeObpCommand append users false companions frame true server).2.2 =
      (executeObpMutation append companions (.obpSet key value) server).2 := by
    simp only [executeObpCommand, executeObpData, set, named]
    rfl
  have served : (serveFrame append users false companions frame true server).2.2 =
      (executeObpCommand append users false companions frame true server).2.2 := by
    unfold serveFrame
    simp only
    split <;> rfl
  rw [served, executed, executeObpMutation_server, submit, if_neg (Nat.not_lt.mpr small)]

/-- On an authenticated connection every request is answered by one frame with its identifier, except a request for a
value whose text is too long for a frame. -/
theorem obp_answered_iff (literals : PrintsLiterals) {server : Coordinator.Server} (reachable : Reachable server)
    {append : AppendBatches} (storage : BriefErrors append) (users : Users) (replicaMode : Bool)
    (companions : Companions) (frame : OBPFrame) :
    Answered frame (serveFrame append users replicaMode companions frame true server).1 ↔ ¬ Overlong frame server := by
  have fixed (text : String) (short : textLength text ≤ 100) : (utf8Bytes text).length ≤ maxObpPayloadSize := by
    have payload : maxObpPayloadSize = 524288 := rfl
    exact Nat.le_trans short (by omega)
  have other (differs : frame.cmd ≠ 0x01) : ¬ Overlong frame server := fun long => differs long.1
  rw [serveFrame_written]
  unfold executeObpCommand
  split
  next credentials =>
    rw [respond_answered]
    refine ⟨fun _ => other (by rw [credentials]; decide), fun _ => ?_⟩
    split
    · exact fixed "OK" (by decide)
    · exact fixed "WRONGPASS" (by decide)
  · rw [if_neg (by decide)]
    split
    next mutation =>
      rw [respond_answered]
      refine ⟨fun _ => other ?_, fun _ => fixed "READONLY this instance is a read-only replica" (by decide)⟩
      rcases mutation.2 with set | delete
      · rw [set]
        decide
      · rw [delete]
        decide
    · exact (respond_answered frame _).trans
        (executeObpData_payload literals storage companions frame reachable.brief)

end Answers

end OnyxDB.Server

namespace OnyxDB.Server
open OnyxDB.Engine OnyxDB.Engine.Value OnyxDB.Store OnyxDB.Protocol OnyxDB.Protocol.Obp OnyxDB.Coordinator
  OnyxDB.Persistence.Model

section Literals

/-- A byte as `bytes::Bytes` prints it. -/
def escapedByte (byte : UInt8) : Bytes :=
  if byte = 10 then utf8Bytes "\\n"
  else if byte = 13 then utf8Bytes "\\r"
  else if byte = 9 then utf8Bytes "\\t"
  else if byte = 92 ∨ byte = 34 then [92, byte]
  else if byte = 0 then utf8Bytes "\\0"
  else if 0x20 ≤ byte ∧ byte < 0x7F then [byte]
  else utf8Bytes "\\x" ++ (Library.Hexadecimal.byteDigits byte).flatMap String.utf8EncodeChar

theorem escapedByte_length (byte : UInt8) : (escapedByte byte).length = escapedWidth byte := by
  have all : ∀ value : Fin 256, (escapedByte (UInt8.ofNat value)).length = escapedWidth (UInt8.ofNat value) := by
    decide +kernel
  have here := all ⟨byte.toNat, byte.toNat_lt⟩
  rw [UInt8.ofNat_toNat] at here
  exact here

/-- A rendering with the literals of `bytes::Bytes`. -/
@[reducible]
def literalRendering : Rendering where
  debugBytes bytes := utf8Bytes "b\"" ++ bytes.flatMap escapedByte ++ utf8Bytes "\""
  debugJson _ := utf8Bytes "Null"
  debugFloat _ := utf8Bytes "0.0"
  debugComponent _ := utf8Bytes "0.0"

theorem literalRendering_prints : @PrintsLiterals literalRendering := by
  intro bytes
  have opening : (utf8Bytes "b\"").length = 2 := by decide
  have closing : (utf8Bytes "\"").length = 1 := by decide
  change (utf8Bytes "b\"" ++ bytes.flatMap escapedByte ++ utf8Bytes "\"").length = _
  rw [List.length_append, List.length_append, List.length_flatMap, opening, closing, literalLength]
  have widths : bytes.map (fun byte => (escapedByte byte).length) = bytes.map escapedWidth :=
    List.map_congr_left (fun byte _ => escapedByte_length byte)
  rw [widths]
  omega

end Literals

/-- The longest argument that a frame takes. -/
def longestValue : Bytes := List.replicate maxObpArgumentSize 97

theorem literalLength_replicate (count : Nat) : literalLength (List.replicate count 97) = 3 + count := by
  have plain : escapedWidth 97 = 1 := by decide
  rw [literalLength, List.map_replicate, List.sum_replicate, plain, Nat.nsmul_eq_mul, Nat.mul_one]

def setFrame (value : Bytes) : OBPFrame := ⟨0x02, 0, 1, [[107], value], none⟩

def getFrame : OBPFrame := ⟨0x01, 0, 2, [[107]], none⟩

/-- An empty server on which the binary protocol has set a key. -/
def afterSet (value : Bytes) : Coordinator.Server :=
  letI := Reference.platform (fun _ => .error "unsupported")
  letI := startedProcess
  letI := literalRendering
  (serveFrame acceptEverything ∅ false ⟨[], []⟩ (setFrame value) true (emptyServer 0)).2.2

theorem acceptEverything_brief : BriefErrors acceptEverything := nofun

theorem afterSet_eq {value : Bytes} (small : value.length ≤ maxObpArgumentSize) :
    letI := Reference.platform (fun _ => .error "unsupported")
    letI := startedProcess
    afterSet value = (processCommitGroup acceptEverything [.obpSet [107] value] (emptyServer 0)).2 := by
  let platform := Reference.platform (fun _ => .error "unsupported")
  let process := startedProcess
  have limit : maxObpArgumentSize = 524288 := rfl
  have room : commitQueueMemoryBytes = 67108864 := rfl
  have estimate : (MasterCommitOperation.obpSet [107] value).estimatedBytes ≤ 65 + value.length := Nat.min_le_left _ _
  exact @serveFrame_set platform process literalRendering acceptEverything ∅ ⟨[], []⟩ (setFrame value) [107] value []
    rfl rfl (emptyServer 0) (by omega)

theorem afterSet_shows {value : Bytes} (small : value.length ≤ maxObpArgumentSize) :
    (afterSet value).store.engine.clock.now = 0 ∧
      (afterSet value).store.view 0 [107] = some ⟨.blob value, none⟩ := by
  let platform := Reference.platform (fun _ => .error "unsupported")
  let process := startedProcess
  obtain ⟨undo, prepared⟩ : ∃ undo, (prepareObpSet [107] value (emptyServer 0).store).1 =
      .ok (.withMutation obpOk ⟨[.put [107] ⟨.blob value, none⟩]⟩ undo) := ⟨_, rfl⟩
  have clock : (prepareObpSet [107] value (emptyServer 0).store).2.engine.clock.now = 0 := rfl
  have shown : (prepareObpSet [107] value (emptyServer 0).store).2.view 0 [107] = some ⟨.blob value, none⟩ := rfl
  have prepares : Prepares (emptyServer 0).store [.obpSet [107] value]
      [.withMutation obpOk ⟨[.put [107] ⟨.blob value, none⟩]⟩ undo]
      (prepareObpSet [107] value (emptyServer 0).store).2 := .next (Prod.ext prepared rfl) (.done _)
  have fits : (0 : Nat) + 1 < 2 ^ 64 := by decide
  have accepts : ∀ log group, acceptEverything log group = .ok () := fun _ _ => rfl
  have committed := processCommitGroup_prepared accepts (rfl : (emptyServer 0).available = true) prepares fits
  rw [afterSet_eq small, committed]
  exact ⟨clock, shown⟩

theorem afterSet_reachable {value : Bytes} (small : value.length ≤ maxObpArgumentSize) :
    letI := Reference.platform (fun _ => .error "unsupported")
    letI := startedProcess
    Reachable (afterSet value) := by
  let platform := Reference.platform (fun _ => .error "unsupported")
  let process := startedProcess
  rw [afterSet_eq small]
  exact (Reachable.start (.constant 0) 0 .noEviction rfl (by decide)).group acceptEverything_brief _

theorem setFrame_accepted {value : Bytes} (small : value.length ≤ maxObpArgumentSize) : (setFrame value).Accepted := by
  have limit : maxObpArgumentSize = 524288 := rfl
  have total : maxObpFrameSize = 1048576 := rfl
  have header : obpFixedHeaderSize = 11 := rfl
  have count : (setFrame value).args.length = 2 := rfl
  have most : maxObpArguments = 1024 := rfl
  refine ⟨by omega, ?_, Nat.zero_le _, ?_⟩
  · intro argument member
    rcases List.mem_cons.mp member with rfl | last
    · decide
    · rw [List.mem_singleton.mp last]
      exact small
  · have fields : (setFrame value).args.flatMap obpField = obpField [107] ++ obpField value := by
      simp [setFrame]
    have payload : (setFrame value).payload.getD [] = [] := rfl
    rw [OBPFrame.bytes, List.length_append, List.length_append, header_length, fields, payload, List.length_append,
      obpField_length, obpField_length, obpField_length, List.length_singleton, List.length_nil]
    omega

/-- A short value is asked for. -/
theorem obp_get_answered :
    letI := Reference.platform (fun _ => .error "unsupported")
    letI := startedProcess
    letI := literalRendering
    Answered getFrame (serveFrame acceptEverything ∅ false ⟨[], []⟩ getFrame true (afterSet [97, 98])).1 := by
  let platform := Reference.platform (fun _ => .error "unsupported")
  let process := startedProcess
  let rendering := literalRendering
  have small : ([97, 98] : Bytes).length ≤ maxObpArgumentSize := by decide
  obtain ⟨now, shown⟩ := afterSet_shows small
  refine (obp_answered_iff literalRendering_prints (afterSet_reachable small) acceptEverything_brief ∅ false ⟨[], []⟩
    getFrame).mpr ?_
  rintro ⟨_, key, named, entry, held, long⟩
  cases named
  rw [now, shown] at held
  cases held
  exact absurd long (by decide)

/-- A value with a long text is not given back. -/
theorem getFrame_unanswered {value : Bytes} (small : value.length ≤ maxObpArgumentSize)
    (long : maxObpPayloadSize < 6 + literalLength value) :
    letI := Reference.platform (fun _ => .error "unsupported")
    letI := startedProcess
    letI := literalRendering
    ¬ Answered getFrame (serveFrame acceptEverything ∅ false ⟨[], []⟩ getFrame true (afterSet value)).1 := by
  let platform := Reference.platform (fun _ => .error "unsupported")
  let process := startedProcess
  let rendering := literalRendering
  obtain ⟨now, shown⟩ := afterSet_shows small
  rw [serveFrame_written]
  change ¬ Answered getFrame (writtenResponse (respond getFrame
    (executeObpData acceptEverything ⟨[], []⟩ getFrame.cmd getFrame.args (afterSet value)).1))
  rw [respond_answered, executeObpData_payload literalRendering_prints acceptEverything_brief _ _
    (afterSet_reachable small).brief, not_not]
  refine ⟨rfl, [107], rfl, ⟨.blob value, none⟩, ?_, long⟩
  rw [now]
  exact shown

/-- A value that the protocol accepts for a set cannot be asked for: both requests are well formed, and the second one
is not answered. -/
theorem obp_get_unanswered :
    letI := Reference.platform (fun _ => .error "unsupported")
    letI := startedProcess
    letI := literalRendering
    (setFrame longestValue).Accepted ∧ getFrame.Accepted ∧ PrintsLiterals ∧ BriefErrors acceptEverything ∧
      Reachable (afterSet longestValue) ∧
      ¬ Answered getFrame (serveFrame acceptEverything ∅ false ⟨[], []⟩ getFrame true (afterSet longestValue)).1 := by
  have small : longestValue.length ≤ maxObpArgumentSize := by
    rw [longestValue, List.length_replicate]
  have long : maxObpPayloadSize < 6 + literalLength longestValue := by
    have limit : maxObpArgumentSize = 524288 := rfl
    have payload : maxObpPayloadSize = 524288 := rfl
    rw [longestValue, literalLength_replicate]
    omega
  exact ⟨setFrame_accepted small, ⟨by decide, by decide, by decide, by decide⟩, literalRendering_prints,
    acceptEverything_brief, afterSet_reachable small, getFrame_unanswered small long⟩

end OnyxDB.Server
