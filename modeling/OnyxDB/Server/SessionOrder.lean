import OnyxDB.Server.Transactions

/-! What the command loop of a connection makes of its input, however it arrives: the commands are executed in their
order, each by itself or in a group of consecutive writes, and each is answered once. -/

namespace OnyxDB.Server
open OnyxDB.Library OnyxDB.Library.Arrival OnyxDB.Engine OnyxDB.Engine.Value OnyxDB.Store OnyxDB.Protocol
  OnyxDB.Command OnyxDB.Coordinator OnyxDB.Persistence.Model

variable [Platform] [Surroundings]

section Steps

/-- A client that stays gets one reply, and one that is dismissed gets it at once. -/
structure Reaction.Answers (reaction : Reaction) : Prop where
  single : reaction.departure = none → reaction.replies.length = 1
  dismisses : reaction.departure = some .refused → reaction.prompt = true

omit [Platform] [Surroundings] in
theorem answered_answers (reply : RESPValue) (state : ClientState) : (answered reply state).Answers :=
  ⟨fun _ => rfl, fun _ => rfl⟩

/-- What a command can make of a session. A command outside a transaction leaves the session itself alone. -/
inductive Reacts (arguments : List String) (state : ClientState) : Reaction → Prop where
  | auth (named : Named "AUTH" arguments) : Reacts arguments state (authenticate arguments state)
  | stranger (unknown : state.authenticated = false) : Reacts arguments state (answered (.error noAuth) state)
  | multi (known : state.authenticated = true) : Reacts arguments state (multi state)
  | discard (known : state.authenticated = true) : Reacts arguments state (discard state)
  | exec (known : state.authenticated = true) : Reacts arguments state (exec state)
  | queue {queue : TransactionQueue} (known : state.authenticated = true) (queued : state.transaction = some queue) :
      Reacts arguments state (enqueueCommand arguments queue state)
  | command {reaction : Reaction} (known : state.authenticated = true) (outside : state.transaction = none)
      (still : reaction.state.authenticated = true) (same : reaction.state.transaction = none)
      (answers : reaction.Answers) : Reacts arguments state reaction

/-- The user and the password of `AUTH`. -/
def credentials (arguments : List String) : String × String :=
  if arguments.length ≥ 3 then (argument arguments 1, argument arguments 2) else ("default", argument arguments 1)

def wrongPass : String := "WRONGPASS invalid username or password"
def noPassword : String := "ERR no password configured on this server"

/-- `AUTH` with the credentials of a user admits the client. -/
def Admits (arguments : List String) : Prop :=
  checkCredentials users (credentials arguments).1 (credentials arguments).2 = true

omit [Platform] in
theorem authenticate_cases (arguments : List String) (state : ClientState) :
    authRequired users = true ∧ Admits arguments ∧
        authenticate arguments state = answered (.simpleString "OK") { state with authenticated := true } ∨
      ∃ message, message ∈ [wrongPass, noPassword] ∧
        authenticate arguments state = answered (.error message) state := by
  have shape : authenticate arguments state =
      if !authRequired users then answered (.error noPassword) state
      else if checkCredentials users (credentials arguments).1 (credentials arguments).2 then
        answered (.simpleString "OK") { state with authenticated := true }
      else answered (.error wrongPass) state := rfl
  rw [shape]
  cases required : authRequired users with
  | false => exact Or.inr ⟨noPassword, by simp, rfl⟩
  | true =>
      rw [Bool.not_true, if_neg Bool.false_ne_true]
      cases admits : checkCredentials users (credentials arguments).1 (credentials arguments).2 with
      | false => exact Or.inr ⟨wrongPass, by simp, rfl⟩
      | true => exact Or.inl ⟨rfl, admits, rfl⟩

omit [Platform] [Surroundings] in
theorem synchronize_state (arguments : List String) (state : ClientState) :
    (synchronize arguments state).state = state := by
  unfold synchronize
  split
  · rfl
  · split <;> rfl

omit [Platform] [Surroundings] in
theorem synchronize_answers (arguments : List String) (state : ClientState) :
    (synchronize arguments state).Answers := by
  unfold synchronize
  split
  · exact ⟨(fun stays => by cases stays), fun _ => rfl⟩
  · split
    · exact ⟨(fun stays => by cases stays), fun _ => rfl⟩
    · exact ⟨(fun stays => by cases stays), fun left => by cases left⟩

theorem react_reacts (arguments : List String) (state : ClientState) :
    Reacts arguments state (react arguments state) := by
  unfold react
  simp only
  by_cases auth : eqIgnoreAsciiCase (argument arguments 0) "AUTH" = true
  · rw [if_pos auth]
    exact .auth auth
  · rw [if_neg auth]
    cases known : state.authenticated with
    | false =>
        rw [Bool.not_false, if_pos rfl]
        exact .stranger known
    | true =>
        rw [Bool.not_true, if_neg Bool.false_ne_true]
        split
        · exact .multi known
        · split
          · exact .discard known
          · split
            · exact .exec known
            · cases queued : state.transaction with
              | some queue => exact .queue known queued
              | none =>
                  simp only
                  split
                  · exact .command known queued known queued ⟨fun _ => rfl, fun _ => rfl⟩
                  · split
                    · exact .command known queued known queued
                        ⟨(fun stays => by cases stays), fun left => by cases left⟩
                    · split
                      · exact .command known queued known queued ⟨(fun stays => by cases stays), fun _ => rfl⟩
                      · split
                        · exact .command known queued (by rw [synchronize_state, known])
                            (by rw [synchronize_state, queued]) (synchronize_answers arguments state)
                        · exact .command known queued rfl rfl ⟨fun _ => rfl, (fun left => by cases left)⟩

namespace Connection

/-- What a round of the command loop can do. -/
inductive Rounds (connection : Connection) : Round → Prop where
  | reports {error : IoError} (noted : connection.bufferedProtocolError = some error) :
      Rounds connection (connection.fail error)
  | waits (fresh : connection.bufferedProtocolError = none)
      (read : readCommandWithLimits clientRespLimits connection.reader = .pending) :
      Rounds connection (.ended (connection, .waiting))
  | rejects {error : IoError} {reader : Reader UInt8} (fresh : connection.bufferedProtocolError = none)
      (read : readCommandWithLimits clientRespLimits connection.reader = .ready (.error error) reader) :
      Rounds connection ({ connection with reader := reader }.fail error)
  | closes {reader : Reader UInt8} (fresh : connection.bufferedProtocolError = none)
      (read : readCommandWithLimits clientRespLimits connection.reader = .ready (.ok none) reader) :
      Rounds connection (.ended ({ connection with reader := reader }.flush, .closed))
  | skips {arguments : List String} {reader : Reader UInt8} (fresh : connection.bufferedProtocolError = none)
      (read : readCommandWithLimits clientRespLimits connection.reader = .ready (.ok (some arguments)) reader)
      (empty : arguments.isEmpty = true) : Rounds connection (.again { connection with reader := reader })
  | commits {arguments : List String} {reader : Reader UInt8} (fresh : connection.bufferedProtocolError = none)
      (read : readCommandWithLimits clientRespLimits connection.reader = .ready (.ok (some arguments)) reader)
      (filled : arguments.isEmpty = false) (pipelines : connection.state.pipelines = true)
      (written : writes (normalize arguments) = true) :
      Rounds connection (.again (connection.commit
        (collectWrites (maxPipelinedCommitCommands - 1) [normalize arguments] reader)))
  | handles {arguments : List String} {reader : Reader UInt8} (fresh : connection.bufferedProtocolError = none)
      (read : readCommandWithLimits clientRespLimits connection.reader = .ready (.ok (some arguments)) reader)
      (filled : arguments.isEmpty = false)
      (apart : (connection.state.pipelines && writes (normalize arguments)) = false) :
      Rounds connection ({ connection with reader := reader }.handle (normalize arguments))

theorem round_rounds (connection : Connection) : Rounds connection connection.round := by
  unfold round
  split
  next error noted => exact .reports noted
  next fresh =>
    split
    next read => exact .waits fresh read
    next error reader read => exact .rejects fresh read
    next reader read => exact .closes fresh read
    next arguments reader read =>
      split
      next empty => exact .skips fresh read empty
      next filled =>
        have filled := Bool.eq_false_iff.mpr filled
        split
        next pipelined =>
          obtain ⟨pipelines, written⟩ := Bool.and_eq_true_iff.mp pipelined
          exact .commits fresh read filled pipelines written
        next apart => exact .handles fresh read filled (Bool.eq_false_iff.mpr apart)

/-- The connection that a round leaves. -/
def after : Round → Connection
  | .again next => next
  | .ended (last, _) => last

theorem after_handle (connection : Connection) (arguments : List String) :
    (after (connection.handle arguments)).state = (react arguments connection.state).state ∧
      (after (connection.handle arguments)).replies =
        connection.replies ++ (react arguments connection.state).replies ∧
      (after (connection.handle arguments)).bufferedProtocolError = connection.bufferedProtocolError := by
  unfold handle
  generalize react arguments connection.state = reaction
  simp only
  split
  · simp only [after]
    split <;> exact ⟨rfl, rfl, rfl⟩
  · simp only [after]
    split <;> exact ⟨rfl, rfl, rfl⟩

theorem commit_state (connection : Connection) (collected : Collected) :
    (connection.commit collected).state = (commitPipeline collected.commands connection.state).2 ∧
      (connection.commit collected).replies =
        connection.replies ++ (commitPipeline collected.commands connection.state).1 := by
  unfold commit
  simp only
  split <;> exact ⟨rfl, rfl⟩

end Connection

end Steps

section Input

/-- How a text goes on behind the commands in it. -/
inductive Remainder where
  | incomplete (rest : Bytes)
  | malformed

set_option linter.unusedVariables false in
/-- The commands of a text, and what follows them. -/
def commandsOf (input : Bytes) : List (List String) × Remainder :=
  match decoded : decodeBufferedCommand input clientRespLimits with
  | .error _ => ([], .malformed)
  | .ok none => ([], .incomplete input)
  | .ok (some (command, length)) =>
      let rest := commandsOf (input.drop length)
      (command :: rest.1, rest.2)
termination_by input.length
decreasing_by
  have within := decodeBufferedCommand_some clientRespLimits_bounded decoded
  rw [List.length_drop]
  omega

omit [Platform] [Surroundings] in
theorem commandsOf_eq (input : Bytes) :
    commandsOf input =
      match decodeBufferedCommand input clientRespLimits with
      | .error _ => ([], .malformed)
      | .ok none => ([], .incomplete input)
      | .ok (some (command, length)) =>
          (command :: (commandsOf (input.drop length)).1, (commandsOf (input.drop length)).2) := by
  rw [commandsOf]
  split <;> rename_i outcome <;> rw [outcome]

omit [Platform] [Surroundings] in
/-- The command that is read is the first of the input. -/
theorem commandsOf_read {reader next : Reader UInt8} {command : List String}
    (read : readCommandWithLimits clientRespLimits reader = .ready (.ok (some command)) next) :
    commandsOf reader.stream = (command :: (commandsOf next.stream).1, (commandsOf next.stream).2) := by
  obtain ⟨length, decoded, left, _⟩ := readCommand_some clientRespLimits_bounded read
  rw [commandsOf_eq, decoded, left]

omit [Platform] [Surroundings] in
/-- A reader that waits has nothing but a part of a command. -/
theorem commandsOf_waits {reader : Reader UInt8}
    (read : readCommandWithLimits clientRespLimits reader = .pending) :
    commandsOf reader.stream = ([], .incomplete reader.stream) := by
  have cases := readCommand_cases clientRespLimits_bounded reader
  rw [commandsOf_eq]
  cases decoded : decodeBufferedCommand reader.stream clientRespLimits with
  | error failure =>
      rw [decoded] at cases
      obtain ⟨_, _, failed⟩ := cases
      rw [read] at failed
      cases failed
  | ok found =>
      cases found with
      | none => rfl
      | some pair =>
          rw [decoded] at cases
          obtain ⟨_, returned, _⟩ := cases
          rw [read] at returned
          cases returned

omit [Platform] [Surroundings] in
/-- A command that the buffer begins with is the one that the input begins with. -/
theorem decoded_stream {reader : Reader UInt8} {command : List String} {length : Nat}
    (decoded : decodeBufferedCommand reader.buffer clientRespLimits = .ok (some (command, length))) :
    decodeBufferedCommand reader.stream clientRespLimits = .ok (some (command, length)) := by
  have within := (decodeBufferedCommand_some clientRespLimits_bounded decoded).2
  have begun : reader.buffer ≠ [] := by
    intro nothing
    rw [nothing] at decoded
    cases decoded
  have follows := decodeBufferedCommand_follows begun clientRespLimits_bounded
  rw [decoded] at follows
  obtain ⟨after, returned, left, _⟩ := follows.2 reader.chunks.flatten reader rfl
  obtain ⟨taken, whole, same, _⟩ := readCommand_some clientRespLimits_bounded returned
  have short := (decodeBufferedCommand_some clientRespLimits_bounded whole).2
  have lengths := congrArg List.length (left.symm.trans same)
  change (reader.stream.drop length).length = (reader.stream.drop taken).length at lengths
  have held : reader.buffer.length ≤ reader.stream.length := by
    rw [Reader.stream, List.length_append]
    exact Nat.le_add_right _ _
  rw [List.length_drop, List.length_drop] at lengths
  have equal : taken = length := by omega
  rw [whole, equal]

omit [Platform] [Surroundings] in
/-- Input that begins with something malformed in the buffer has no command. -/
theorem malformed_stream {reader : Reader UInt8} {failure : IoError}
    (decoded : decodeBufferedCommand reader.buffer clientRespLimits = .error failure) :
    commandsOf reader.stream = ([], .malformed) := by
  have begun : reader.buffer ≠ [] := by
    intro nothing
    rw [nothing] at decoded
    cases decoded
  have follows := decodeBufferedCommand_follows begun clientRespLimits_bounded
  rw [decoded] at follows
  obtain ⟨other, after, failed⟩ := follows reader.chunks.flatten reader rfl
  have cases := readCommand_cases clientRespLimits_bounded (arrived reader.stream)
  obtain ⟨other', after', failed'⟩ := follows reader.chunks.flatten (arrived reader.stream) (arrived_stream _)
  rw [arrived_stream] at cases
  rw [commandsOf_eq]
  cases whole : decodeBufferedCommand reader.stream clientRespLimits with
  | error _ => rfl
  | ok found =>
      rw [whole] at cases
      cases found with
      | none =>
          rw [cases.1 rfl] at failed'
          cases failed'
      | some pair =>
          obtain ⟨_, returned, _⟩ := cases
          rw [returned] at failed'
          cases failed'

/-- What the loop over the buffer has collected, read off the input. -/
structure Collects (start : List (List String)) (input : Bytes) (collected : Collected)
    (raw : List (List String)) : Prop where
  commands : collected.commands = start ++ raw.map normalize
  written : ∀ command ∈ raw, command.isEmpty = false ∧ writes (normalize command) = true
  input : commandsOf input =
    match collected.protocolError with
    | none => (raw ++ (commandsOf collected.reader.stream).1, (commandsOf collected.reader.stream).2)
    | some _ => (raw, .malformed)

omit [Platform] [Surroundings] in
theorem collectWrites_collects (slots : Nat) (commands : List (List String)) (reader : Reader UInt8) :
    ∃ raw, Collects commands reader.stream (collectWrites slots commands reader) raw := by
  induction slots generalizing commands reader with
  | zero => exact ⟨[], (List.append_nil _).symm, by simp, rfl⟩
  | succ slots rest =>
      unfold collectWrites
      split
      next error decoded => exact ⟨[], (List.append_nil _).symm, by simp, malformed_stream decoded⟩
      next decoded => exact ⟨[], (List.append_nil _).symm, by simp, rfl⟩
      next next consumed decoded =>
        split
        · exact ⟨[], (List.append_nil _).symm, by simp, rfl⟩
        next filled =>
          split
          · exact ⟨[], (List.append_nil _).symm, by simp, rfl⟩
          next written =>
            obtain ⟨raw, taken, all, input⟩ := rest (commands ++ [normalize next]) (reader.consume consumed)
            have within := (decodeBufferedCommand_some clientRespLimits_bounded decoded).2
            have first : commandsOf reader.stream =
                (next :: (commandsOf (reader.consume consumed).stream).1,
                  (commandsOf (reader.consume consumed).stream).2) := by
              rw [commandsOf_eq, decoded_stream decoded, Reader.consume_stream within]
            refine ⟨next :: raw, ?_, ?_, ?_⟩
            · rw [taken, List.map_cons, List.append_assoc, List.singleton_append]
            · intro command member
              rcases List.mem_cons.mp member with rfl | later
              · exact ⟨Bool.eq_false_iff.mpr filled, by simpa using written⟩
              · exact all command later
            · rw [first, input]
              split <;> rfl

end Input

section Replies

omit [Platform] [Surroundings] in
theorem inlineCommand_filled {line : Bytes} {limits : RESPReadLimits} {parts : List String}
    (decoded : inlineCommand line limits = .ok parts) : parts.isEmpty = false := by
  unfold inlineCommand at decoded
  obtain ⟨content, _, decoded⟩ := bind_ok decoded
  obtain ⟨text, _, decoded⟩ := bind_ok decoded
  simp only at decoded
  split at decoded
  · cases decoded
  next filled =>
    split at decoded
    · cases decoded
    · cases decoded
      exact Bool.eq_false_iff.mpr filled

omit [Platform] [Surroundings] in
theorem argumentCount_positive {line : Bytes} {limits : RESPReadLimits} {count : Nat}
    (announced : argumentCount line limits = .ok count) : 0 < count := by
  unfold argumentCount at announced
  obtain ⟨content, _, announced⟩ := bind_ok announced
  obtain ⟨digits, _, announced⟩ := bind_ok announced
  obtain ⟨number, _, announced⟩ := bind_ok announced
  split at announced
  · cases announced
  next positive =>
    split at announced
    · cases announced
    · cases announced
      exact Nat.pos_of_ne_zero positive

omit [Platform] [Surroundings] in
theorem decodeArguments_length {input : Bytes} {limits : RESPReadLimits} {count cursor finish : Nat}
    {ranges found : List (Nat × Nat)}
    (decoded : decodeArguments input limits count cursor ranges = .ok (some (found, finish))) :
    found.length = ranges.length + count := by
  induction count generalizing cursor ranges with
  | zero =>
      cases decoded
      rfl
  | succ count rest =>
      unfold decodeArguments at decoded
      obtain ⟨argument, _, decoded⟩ := bind_ok decoded
      cases argument with
      | none => cases decoded
      | some pair =>
          rw [rest decoded, List.length_append, List.length_singleton]
          omega

omit [Platform] [Surroundings] in
/-- Both forms of a command have something in them. -/
theorem decodeBufferedCommand_filled {input : Bytes} {limits : RESPReadLimits} {command : List String} {length : Nat}
    (decoded : decodeBufferedCommand input limits = .ok (some (command, length))) : command.isEmpty = false := by
  unfold decodeBufferedCommand at decoded
  cases input with
  | nil => cases decoded
  | cons firstByte rest =>
      obtain ⟨line, _, decoded⟩ := bind_ok decoded
      cases line with
      | none => cases decoded
      | some firstLineEnd =>
          by_cases inline : firstByte ≠ 42
          · simp only [inline, ne_eq, not_false_eq_true, if_true] at decoded
            obtain ⟨parts, complete, done⟩ := bind_ok decoded
            cases done
            exact inlineCommand_filled complete
          · simp only [inline, if_false] at decoded
            obtain ⟨count, announced, decoded⟩ := bind_ok decoded
            obtain ⟨found, arguments, done⟩ := bind_ok decoded
            cases found with
            | none => cases done
            | some pair =>
                cases done
                have some_left := argumentCount_positive announced
                have counted := decodeArguments_length arguments
                rw [List.isEmpty_eq_false_iff_exists_mem]
                apply List.exists_mem_of_length_pos
                rw [List.length_map, counted]
                exact Nat.add_pos_right _ some_left

omit [Platform] [Surroundings] in
theorem collectWrites_barrier (slots : Nat) (commands : List (List String)) (reader : Reader UInt8)
    (barrier : (collectWrites slots commands reader).bufferedCompleteBarrier = true) :
    (collectWrites slots commands reader).reader.buffer ≠ [] := by
  induction slots generalizing commands reader with
  | zero => cases barrier
  | succ slots rest =>
      unfold collectWrites at barrier ⊢
      cases decoded : decodeBufferedCommand reader.buffer clientRespLimits with
      | error error =>
          intro nothing
          rw [show reader.buffer = [] from nothing] at decoded
          cases decoded
      | ok found =>
          rw [decoded] at barrier
          cases found with
          | none => cases barrier
          | some pair =>
              obtain ⟨next, consumed⟩ := pair
              simp only at barrier ⊢
              split at barrier
              · cases barrier
              next filled =>
                rw [if_neg filled]
                split at barrier
                next other =>
                  rw [if_pos other]
                  intro nothing
                  rw [show reader.buffer = [] from nothing] at decoded
                  cases decoded
                next written =>
                  rw [if_neg written]
                  exact rest _ _ barrier

omit [Platform] [Surroundings] in
theorem decodeBufferedCommand_read {reader next : Reader UInt8} {command : List String}
    (read : readCommandWithLimits clientRespLimits reader = .ready (.ok (some command)) next) :
    command.isEmpty = false := by
  obtain ⟨_, decoded, _⟩ := readCommand_some clientRespLimits_bounded read
  exact decodeBufferedCommand_filled decoded

omit [Platform] [Surroundings] in
/-- Where no command is read there is none. -/
theorem commandsOf_spent {reader : Reader UInt8}
    (read : ∀ command next, readCommandWithLimits clientRespLimits reader ≠ .ready (.ok (some command)) next) :
    (commandsOf reader.stream).1 = [] := by
  have cases := readCommand_cases clientRespLimits_bounded reader
  rw [commandsOf_eq]
  cases decoded : decodeBufferedCommand reader.stream clientRespLimits with
  | error failure => rfl
  | ok found =>
      cases found with
      | none => rfl
      | some pair =>
          rw [decoded] at cases
          obtain ⟨next, returned, _⟩ := cases
          exact absurd returned (read pair.1 next)

omit [Platform] [Surroundings] in
/-- The outcomes that a group is answered with are as many as its commands. -/
theorem concluded_outcomes {commands : List (List String)} {runtime : CommitRuntime} {result : CommitGroupResult × Nat}
    {concluded : List Completion × Coordinator.Server}
    (conclusion : Concluded [.commandGroup commands] runtime result concluded) (error : PersistenceError)
    {outcomes : List CommandOutcome}
    (answered : MasterCommitCoordinator.executeCommands (concluded.1.headD (.error error)) = .ok outcomes) :
    outcomes.length = commands.length := by
  cases conclusion with
  | completed responses =>
      cases responses with
      | cons first rest =>
          obtain ⟨response, rfl, matching⟩ := first
          cases matching with
          | commandGroup each =>
              cases answered
              exact each
  | rejected => cases answered
  | indeterminate => cases answered

theorem executeOrderedCommands_length (commands : List (List String)) (node : Node) :
    (executeOrderedCommands commands node).1.length = commands.length := by
  have answers {outcomes : List CommandOutcome} (answered : MasterCommitCoordinator.executeCommands
      (callCoordinator (.commandGroup commands) node).1 = .ok outcomes) : outcomes.length = commands.length := by
    unfold callCoordinator at answered
    cases checked : (MasterCommitOperation.commandGroup commands).check with
    | error error =>
        rw [checked] at answered
        cases answered
    | ok _ =>
        rw [checked] at answered
        exact concluded_outcomes
          (@processCommitGroup_conclusion _ node.process append [.commandGroup commands] node.server) _ answered
  unfold executeOrderedCommands
  simp only
  split
  next outcomes answered => rw [List.length_map, answers answered]
  next error _ => rw [List.length_map]

theorem react_answers (arguments : List String) (state : ClientState) : (react arguments state).Answers := by
  have reacts := react_reacts arguments state
  generalize react arguments state = reaction at reacts
  cases reacts with
  | auth =>
      rcases authenticate_cases arguments state with ⟨_, _, admitted⟩ | ⟨_, _, refused⟩
      · rw [admitted]
        exact answered_answers _ _
      · rw [refused]
        exact answered_answers _ _
  | stranger => exact answered_answers _ _
  | multi =>
      unfold multi
      split <;> exact answered_answers _ _
  | discard =>
      unfold discard
      split <;> exact answered_answers _ _
  | exec =>
      unfold exec
      split
      · exact answered_answers _ _
      · simp only
        split <;> exact answered_answers _ _
  | queue =>
      unfold enqueueCommand
      simp only
      split <;> exact answered_answers _ _
  | command _ _ _ _ answers => exact answers

end Replies

section Order

/-- Commands are executed in order, each by itself or consecutive writes together. -/
inductive Executes : List (List String) → ClientState → List RESPValue → ClientState → Prop where
  | nothing (state : ClientState) : Executes [] state [] state
  | single {command : List String} {commands : List (List String)} {state last : ClientState}
      {replies : List RESPValue} (apart : (state.pipelines && writes (normalize command)) = false)
      (stays : (react (normalize command) state).departure = none)
      (rest : Executes commands (react (normalize command) state).state replies last) :
      Executes (command :: commands) state ((react (normalize command) state).replies ++ replies) last
  | together {group commands : List (List String)} {state last : ClientState} {replies : List RESPValue}
      (some_left : group ≠ []) (few : group.length ≤ maxPipelinedCommitCommands) (pipelines : state.pipelines = true)
      (written : ∀ command ∈ group, writes (normalize command) = true)
      (rest : Executes commands (commitPipeline (group.map normalize) state).2 replies last) :
      Executes (group ++ commands) state ((commitPipeline (group.map normalize) state).1 ++ replies) last

namespace Executes

theorem append {first second : List (List String)} {state middle last : ClientState}
    {early late : List RESPValue} (begins : Executes first state early middle)
    (goes : Executes second middle late last) : Executes (first ++ second) state (early ++ late) last := by
  induction begins with
  | nothing => exact goes
  | single apart stays _ later =>
      rw [List.append_assoc]
      exact .single apart stays (later goes)
  | together some_left few pipelines written _ later =>
      rw [List.append_assoc, List.append_assoc]
      exact .together some_left few pipelines written (later goes)

theorem length_eq {commands : List (List String)} {state last : ClientState} {replies : List RESPValue}
    (executes : Executes commands state replies last) : replies.length = commands.length := by
  induction executes with
  | nothing => rfl
  | single _ stays _ same =>
      rw [List.length_append, (react_answers _ _).single stays, same, List.length_cons, Nat.add_comm]
  | together _ _ _ _ _ same =>
      rw [List.length_append, List.length_append, commitPipeline, executeOrderedCommands_length, List.length_map, same]

/-- What commands and pipelines keep of the state of a client holds of it throughout. -/
theorem keeps {holds : ClientState → Prop}
    (reacts : ∀ arguments state, holds state → holds (react arguments state).state)
    (commits : ∀ commands state, holds state → holds (commitPipeline commands state).2)
    {commands : List (List String)} {state last : ClientState} {replies : List RESPValue}
    (executes : Executes commands state replies last) (start : holds state) : holds last := by
  induction executes with
  | nothing => exact start
  | single _ _ _ later => exact later (reacts _ _ start)
  | together _ _ _ _ _ later => exact later (commits _ _ start)

end Executes

omit [Platform] [Surroundings] in
theorem collectWrites_few (slots : Nat) (commands : List (List String)) (reader : Reader UInt8) :
    (collectWrites slots commands reader).commands.length ≤ commands.length + slots := by
  induction slots generalizing commands reader with
  | zero => exact Nat.le_refl _
  | succ slots rest =>
      unfold collectWrites
      split
      · exact Nat.le_add_right _ _
      · exact Nat.le_add_right _ _
      · split
        · exact Nat.le_add_right _ _
        · split
          · exact Nat.le_add_right _ _
          next next consumed _ _ _ =>
            have later := rest (commands ++ [normalize next]) (reader.consume consumed)
            rw [List.length_append, List.length_singleton] at later
            omega

namespace Connection

/-- The commands a connection has before it. -/
def commands (connection : Connection) : List (List String) :=
  match connection.bufferedProtocolError with
  | some _ => []
  | none => (commandsOf connection.reader.stream).1

/-- What follows them. -/
def remainder (connection : Connection) : Remainder :=
  match connection.bufferedProtocolError with
  | some _ => .malformed
  | none => (commandsOf connection.reader.stream).2

omit [Platform] [Surroundings] in
theorem commands_spent {connection : Connection} {poll : Poll UInt8 IoError (Option (List String))}
    (fresh : connection.bufferedProtocolError = none)
    (read : readCommandWithLimits clientRespLimits connection.reader = poll)
    (other : ∀ command next, poll ≠ .ready (.ok (some command)) next) : connection.commands = [] := by
  rw [Connection.commands, fresh]
  exact commandsOf_spent (by rw [read]; exact other)

/-- A reply is held back only while there is something in the buffer. -/
structure Prompt (connection : Connection) : Prop where
  written : connection.flushed ≤ connection.replies.length
  flushed : connection.flushed = connection.replies.length ∨ connection.reader.buffer ≠ []

/-- A round that goes on has executed the commands it took from the input, and answered them. -/
structure Moves (connection next : Connection) (taken : List (List String)) (replies : List RESPValue) : Prop where
  prompt : connection.Prompt → next.Prompt
  commands : connection.commands = taken ++ next.commands
  remainder : connection.remainder = next.remainder
  answers : next.replies = connection.replies ++ replies
  executes : Executes taken connection.state replies next.state

theorem commit_moves (connection : Connection) (fresh : connection.bufferedProtocolError = none)
    {arguments : List String} {reader : Reader UInt8}
    (read : readCommandWithLimits clientRespLimits connection.reader = .ready (.ok (some arguments)) reader)
    (pipelines : connection.state.pipelines = true) (written : writes (normalize arguments) = true) :
    ∃ taken replies, connection.Moves
      (connection.commit (collectWrites (maxPipelinedCommitCommands - 1) [normalize arguments] reader))
      taken replies := by
  have few := collectWrites_few (maxPipelinedCommitCommands - 1) [normalize arguments] reader
  have barrier := collectWrites_barrier (maxPipelinedCommitCommands - 1) [normalize arguments] reader
  obtain ⟨raw, collects⟩ := collectWrites_collects (maxPipelinedCommitCommands - 1) [normalize arguments] reader
  have first := commandsOf_read read
  generalize collectWrites (maxPipelinedCommitCommands - 1) [normalize arguments] reader = collected
    at few collects barrier
  obtain ⟨state, replies⟩ := commit_state connection collected
  have group : collected.commands = (arguments :: raw).map normalize := collects.commands
  have noted : (connection.commit collected).bufferedProtocolError = collected.protocolError := by
    unfold commit
    simp only
    split <;> rfl
  refine ⟨arguments :: raw, _, fun prompt => ?_, ?_, ?_, replies, ?_⟩
  · unfold commit
    simp only
    split
    next held =>
      refine ⟨?_, Or.inr (barrier held)⟩
      exact Nat.le_trans prompt.written (by rw [write, List.length_append]; exact Nat.le_add_right _ _)
    · exact ⟨Nat.le_refl _, Or.inl rfl⟩
  · rw [Connection.commands, Connection.commands, noted, commit_reader, fresh, first, collects.input]
    cases collected.protocolError with
    | none => rfl
    | some error => exact (List.append_nil _).symm
  · rw [Connection.remainder, Connection.remainder, noted, commit_reader, fresh, first, collects.input]
    cases collected.protocolError <;> rfl
  · have most : maxPipelinedCommitCommands = 64 := rfl
    rw [group, List.length_map, List.length_singleton] at few
    have together := @Executes.together _ _ (arguments :: raw) [] connection.state _ [] (List.cons_ne_nil _ _)
      (by omega) pipelines ?_ (.nothing _)
    · rw [List.append_nil, List.append_nil, ← group, ← state] at together
      exact together
    · intro command member
      rcases List.mem_cons.mp member with rfl | later
      · exact written
      · exact (collects.written command later).2

theorem handle_moves (connection : Connection) (fresh : connection.bufferedProtocolError = none)
    {arguments : List String} {reader : Reader UInt8}
    (read : readCommandWithLimits clientRespLimits connection.reader = .ready (.ok (some arguments)) reader)
    (apart : (connection.state.pipelines && writes (normalize arguments)) = false)
    {next : Connection} (turn : { connection with reader := reader }.handle (normalize arguments) = .again next) :
    connection.Moves next [arguments] (react (normalize arguments) connection.state).replies := by
  have first := commandsOf_read read
  obtain ⟨stays, same⟩ := handle_again turn
  obtain ⟨state, replies, noted⟩ := after_handle { connection with reader := reader } (normalize arguments)
  rw [turn] at state replies noted
  have state : next.state = (react (normalize arguments) connection.state).state := state
  have replies : next.replies = connection.replies ++ (react (normalize arguments) connection.state).replies := replies
  have noted : next.bufferedProtocolError = none := noted.trans fresh
  refine ⟨fun prompt => ?_, ?_, ?_, replies, ?_⟩
  · unfold handle at turn
    simp only [stays] at turn
    cases turn
    split
    · exact ⟨Nat.le_refl _, Or.inl rfl⟩
    next held =>
      refine ⟨?_, Or.inr ?_⟩
      · exact Nat.le_trans prompt.written (by rw [write, List.length_append]; exact Nat.le_add_right _ _)
      · intro nothing
        have empty : reader.buffer.isEmpty = true := List.isEmpty_iff.mpr nothing
        exact held (Bool.or_eq_true_iff.mpr (Or.inr empty))
  · rw [Connection.commands, Connection.commands, noted, same, fresh, first]
    rfl
  · rw [Connection.remainder, Connection.remainder, noted, same, fresh, first]
  · have single := @Executes.single _ _ arguments [] connection.state _ [] apart stays (.nothing _)
    rw [List.append_nil, ← state] at single
    exact single

end Connection

/-- The reply with which a connection ends, if it says anything. -/
def lastWords : SessionEnding → List RESPValue
  | .protocolError error => [Connection.protocolErrorReply error]
  | _ => []

/-- The commands of a connection that stays have all been executed; one that leaves does so by a command behind those
that have been. -/
inductive Performed (connection : Connection) : Connection × SessionEnding → Prop where
  | all {last : Connection} {ending : SessionEnding} {replies : List RESPValue}
      (stays : ∀ departure, ending ≠ .left departure)
      (executes : Executes connection.commands connection.state replies last.state)
      (answers : last.replies = connection.replies ++ replies ++ lastWords ending) : Performed connection (last, ending)
  | leaves {last : Connection} {departure : Departure} {taken rest : List (List String)} {command : List String}
      {replies : List RESPValue} {middle : ClientState} (sent : connection.commands = taken ++ command :: rest)
      (executes : Executes taken connection.state replies middle)
      (departs : (react (normalize command) middle).departure = some departure)
      (same : last.state = (react (normalize command) middle).state)
      (answers : last.replies = connection.replies ++ replies ++ (react (normalize command) middle).replies) :
      Performed connection (last, .left departure)

/-- What the rounds before have executed comes first. -/
theorem Performed.later {connection next : Connection} {outcome : Connection × SessionEnding}
    {taken : List (List String)} {replies : List RESPValue} (moves : connection.Moves next taken replies)
    (performed : Performed next outcome) : Performed connection outcome := by
  cases performed with
  | all stays executes answers =>
      refine .all stays (moves.commands ▸ moves.executes.append executes) ?_
      rw [answers, moves.answers]
      simp only [List.append_assoc]
  | leaves sent executes departs same answers =>
      have whole := moves.commands
      rw [sent, ← List.append_assoc] at whole
      refine .leaves whole (moves.executes.append executes) departs same ?_
      rw [answers, moves.answers]
      simp only [List.append_assoc]

/-- A run of the command loop, by its rounds that go on and by the one that ends it. -/
theorem serve_by_moves {brings : Connection → Connection × SessionEnding → Prop}
    (goes : ∀ {connection next taken replies outcome}, connection.Moves next taken replies →
      brings next outcome → brings connection outcome)
    (ends : ∀ {connection outcome}, connection.Rounds (.ended outcome) → brings connection outcome)
    (connection : Connection) : brings connection connection.serve := by
  refine @Loop.run_of_rounds _ _ Connection.commandLoop (fun _ => True) brings ?_ ?_ connection trivial
  · intro state next _ turn
    suffices moves : ∃ taken replies, state.Moves next taken replies by
      obtain ⟨taken, replies, moves⟩ := moves
      exact ⟨trivial, fun outcome => goes moves⟩
    have rounds := Connection.round_rounds state
    change state.round = .again next at turn
    rw [turn] at rounds
    generalize again : (Turn.again next : Round) = round at rounds
    cases rounds with
    | reports => cases again
    | waits => cases again
    | rejects => cases again
    | closes => cases again
    | @skips arguments reader _ read empty =>
        rw [decodeBufferedCommand_read read] at empty
        cases empty
    | @commits arguments reader fresh read _ pipelines written =>
        cases again
        exact Connection.commit_moves state fresh read pipelines written
    | @handles arguments reader fresh read _ apart =>
        exact ⟨_, _, Connection.handle_moves state fresh read apart again.symm⟩
  · intro state outcome _ turn
    have rounds := Connection.round_rounds state
    change state.round = .ended outcome at turn
    rw [turn] at rounds
    exact ends rounds

theorem serve_performed (connection : Connection) : Performed connection connection.serve := by
  refine serve_by_moves (fun moves performed => performed.later moves) ?_ connection
  intro state outcome rounds
  have nothing {last : Connection} {ending : SessionEnding} (spent : state.commands = [])
      (stays : ∀ departure, ending ≠ .left departure) (same : last.state = state.state)
      (answers : last.replies = state.replies ++ lastWords ending) : Performed state (last, ending) := by
    have executes : Executes state.commands state.state [] last.state := by
      rw [spent, same]
      exact .nothing _
    exact .all stays executes (by rw [List.append_nil, answers])
  generalize ended : (Turn.ended outcome : Round) = round at rounds
  cases rounds with
  | reports noted =>
      cases ended
      exact nothing (by rw [Connection.commands, noted]) (fun _ => SessionEnding.noConfusion) rfl rfl
  | waits fresh read =>
      cases ended
      exact nothing (Connection.commands_spent fresh read (fun _ _ same => by cases same))
        (fun _ => SessionEnding.noConfusion) rfl (List.append_nil _).symm
  | rejects fresh read =>
      cases ended
      exact nothing (Connection.commands_spent fresh read (fun _ _ same => by cases same))
        (fun _ => SessionEnding.noConfusion) rfl rfl
  | closes fresh read =>
      cases ended
      exact nothing (Connection.commands_spent fresh read (fun _ _ same => by cases same))
        (fun _ => SessionEnding.noConfusion) rfl (List.append_nil _).symm
  | skips => cases ended
  | commits => cases ended
  | @handles arguments reader fresh read =>
      obtain ⟨after, replied, _⟩ := Connection.after_handle { state with reader := reader } (normalize arguments)
      rw [← ended] at after replied
      unfold Connection.handle at ended
      simp only at ended
      split at ended
      next departure left =>
        cases ended
        have sent : state.commands = [] ++ arguments :: (commandsOf reader.stream).1 := by
          rw [Connection.commands, fresh, commandsOf_read read]
          rfl
        exact .leaves sent (.nothing _) left after (by rw [List.append_nil]; exact replied)
      · cases ended

/-- Whatever a client sends and however it arrives, its commands are executed in the order in which they stand in the
input, each once, by itself or in a group of at most 64 consecutive writes, and the replies stand in that order. -/
theorem commands_executed_in_order (connection : Connection) : Performed connection connection.serve :=
  serve_performed connection

end Order

end OnyxDB.Server
