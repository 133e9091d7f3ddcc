import OnyxDB.Server.SessionOrder

/-! What holds of every connection, whatever its client sends and however it arrives: a queued transaction stays within
its limits, a client that has not authenticated changes nothing, and a reply is held back only while a part of a
command is at hand. -/

namespace OnyxDB.Server
open OnyxDB.Library OnyxDB.Library.Arrival OnyxDB.Engine OnyxDB.Engine.Value OnyxDB.Store OnyxDB.Protocol
  OnyxDB.Command OnyxDB.Coordinator OnyxDB.Persistence.Model

variable [Platform] [Surroundings]

section Queues

/-- What commands and pipelines keep holds of the client's state at the end. -/
theorem Performed.keeps {holds : ClientState → Prop}
    (reacts : ∀ arguments state, holds state → holds (react arguments state).state)
    (commits : ∀ commands state, holds state → holds (commitPipeline commands state).2)
    {connection : Connection} {outcome : Connection × SessionEnding} (performed : Performed connection outcome)
    (start : holds connection.state) : holds outcome.1.state := by
  cases performed with
  | all _ executes _ => exact executes.keeps reacts commits start
  | leaves _ executes _ same _ =>
      rw [same]
      exact reacts _ _ (executes.keeps reacts commits start)

/-- What a session has queued, if anything, is within the limits. -/
def Orderly (state : ClientState) : Prop := ∀ queue, state.transaction = some queue → queue.Sound

omit [Platform] [Surroundings] in
theorem sound_empty : TransactionQueue.Sound {} := ⟨TransactionQueue.fits_nil, rfl⟩

theorem react_orderly (arguments : List String) (state : ClientState) (orderly : Orderly state) :
    Orderly (react arguments state).state := by
  have reacts := react_reacts arguments state
  generalize react arguments state = reaction at reacts
  intro queue queued
  cases reacts with
  | auth =>
      apply orderly queue
      rcases authenticate_cases arguments state with ⟨_, _, admitted⟩ | ⟨message, _, refused⟩
      · rw [admitted] at queued
        exact queued
      · rw [refused] at queued
        exact queued
  | stranger => exact orderly queue queued
  | multi =>
      unfold multi at queued
      split at queued
      · exact orderly queue queued
      · cases queued
        exact sound_empty
  | discard =>
      unfold discard at queued
      split at queued
      · cases queued
      · exact orderly queue queued
  | exec =>
      unfold exec at queued
      split at queued
      · exact orderly queue queued
      · simp only at queued
        split at queued <;> cases queued
  | @queue held _ here =>
      have kept := (orderly held here).enqueue arguments
      unfold enqueueCommand at queued
      simp only at queued
      split at queued <;> cases queued <;> exact kept
  | command _ _ _ same =>
      rw [same] at queued
      cases queued

/-- Whatever a client sends, what its session has queued is within the limits of a transaction, and the commit
coordinator would not refuse it for its size. -/
theorem queued_transactions_accepted (connection : Connection) (start : Orderly connection.state)
    (queue : TransactionQueue) (queued : connection.serve.1.state.transaction = some queue) :
    queue.commands.length ≤ maxTransactionCommands ∧
      TransactionQueue.total queue.commands ≤ maxTransactionBytes ∧
      queue.encodedBytes = TransactionQueue.total queue.commands ∧
      ∃ units, (MasterCommitOperation.transaction queue.commands).check = .ok units := by
  have orderly : Orderly connection.serve.1.state :=
    (serve_performed connection).keeps react_orderly (fun _ _ orderly => orderly) start
  have sound := orderly queue queued
  exact ⟨sound.fits.count, sound.fits.bytes, sound.counted, sound.fits.accepted⟩

/-- A connection of a client, with this input. -/
def opened (authenticated : Bool) (input : String) : Connection :=
  ⟨⟨authenticated, none, freshNode⟩, arrived (utf8Bytes input), [], 0, none⟩

omit [Platform] [Surroundings] in
theorem queued_transactions_accepted_get :
    letI := Reference.platform (fun _ => .error "unsupported")
    letI := quietSurroundings
    (opened true "MULTI\r\nGET a\r\n").serve.1.state.transaction = some (.holding [["GET", "a"]]) ∧
      ∃ units, (MasterCommitOperation.transaction [["GET", "a"]]).check = .ok units := by
  let platform := Reference.platform (fun _ => .error "unsupported")
  let surroundings := quietSurroundings
  have queued : (opened true "MULTI\r\nGET a\r\n").serve.1.state.transaction = some (.holding [["GET", "a"]]) := by
    with_unfolding_all rfl
  exact ⟨queued, (@queued_transactions_accepted platform surroundings (opened true "MULTI\r\nGET a\r\n")
    (fun _ held => by cases held) _ queued).2.2.2⟩

end Queues

section Strangers

/-- A reply that grants nothing. -/
def Refusal (reply : RESPValue) : Prop :=
  (∃ message, message ∈ [noAuth, wrongPass, noPassword] ∧ reply = .error message) ∨
    ∃ error, reply = Connection.protocolErrorReply error

/-- A command that makes a client known. -/
def Authenticates (command : List String) : Prop :=
  Named "AUTH" (normalize command) ∧ authRequired users = true ∧ Admits (normalize command)

/-- A command of a client that is not known. -/
theorem react_stranger (arguments : List String) {state : ClientState} (unknown : state.authenticated = false) :
    (Named "AUTH" arguments ∧ authRequired users = true ∧ Admits arguments ∧
        react arguments state = answered (.simpleString "OK") { state with authenticated := true }) ∨
      ∃ message, message ∈ [noAuth, wrongPass, noPassword] ∧
        react arguments state = answered (.error message) state := by
  have reacts := react_reacts arguments state
  have absurd {conclusion : Prop} (known : state.authenticated = true) : conclusion := by
    rw [unknown] at known
    cases known
  generalize react arguments state = reaction at reacts
  cases reacts with
  | auth named =>
      rcases authenticate_cases arguments state with ⟨required, admits, admitted⟩ | ⟨message, one, refused⟩
      · exact Or.inl ⟨named, required, admits, admitted⟩
      · exact Or.inr ⟨message, List.mem_cons_of_mem _ one, refused⟩
  | stranger => exact Or.inr ⟨noAuth, List.mem_cons_self, rfl⟩
  | multi known => exact absurd known
  | discard known => exact absurd known
  | exec known => exact absurd known
  | queue known => exact absurd known
  | command known => exact absurd known

/-- The commands of a client that is not known and that do not make it known. -/
theorem Executes.stranger {commands : List (List String)} {state last : ClientState} {replies : List RESPValue}
    (executes : Executes commands state replies last) (unknown : state.authenticated = false)
    (strange : ∀ command ∈ commands, ¬ Authenticates command) :
    last = state ∧ ∀ reply ∈ replies, Refusal reply := by
  induction executes with
  | nothing => exact ⟨rfl, by simp⟩
  | @single command commands state last replies apart stays rest later =>
      rcases react_stranger (normalize command) unknown with ⟨named, required, admits, _⟩ | ⟨message, one, refused⟩
      · exact absurd ⟨named, required, admits⟩ (strange command List.mem_cons_self)
      · rw [refused] at later ⊢
        obtain ⟨same, refusals⟩ := later unknown (fun other member => strange other (List.mem_cons_of_mem _ member))
        refine ⟨same, ?_⟩
        intro reply member
        rcases List.mem_append.mp member with here | there
        · rw [List.mem_singleton.mp here]
          exact Or.inl ⟨message, one, rfl⟩
        · exact refusals reply there
  | together _ _ pipelines =>
      rw [ClientState.pipelines, unknown] at pipelines
      cases pipelines

omit [Platform] [Surroundings] in
theorem commands_within (connection : Connection) {command : List String} (member : command ∈ connection.commands) :
    command ∈ (commandsOf connection.reader.stream).1 := by
  unfold Connection.commands at member
  split at member
  · cases member
  · exact member

/-- A client that has not authenticated changes nothing, whatever it sends and however its input is cut: unless one of
the commands in the input carries the credentials of a user, the session and the node stay as they are, no
subscription or replication begins, and every reply is a refusal. -/
theorem strangers_change_nothing (connection : Connection) (stranger : connection.state.authenticated = false) :
    ((∀ command ∈ (commandsOf connection.reader.stream).1, ¬ Authenticates command) →
      connection.serve.1.state = connection.state ∧ (∀ departure, connection.serve.2 ≠ .left departure) ∧
        ∃ refusals, connection.serve.1.replies = connection.replies ++ refusals ∧
          ∀ reply ∈ refusals, Refusal reply) := by
  intro none_admits
  have strange : ∀ command ∈ connection.commands, ¬ Authenticates command :=
    fun command member => none_admits command (commands_within connection member)
  have performed := serve_performed connection
  generalize connection.serve = outcome at performed
  cases performed with
  | @all last ending replies stays executes answers =>
      obtain ⟨same, refusals⟩ := executes.stranger stranger strange
      refine ⟨same, stays, replies ++ lastWords ending, by rw [answers, List.append_assoc], ?_⟩
      intro reply member
      rcases List.mem_append.mp member with here | there
      · exact refusals reply here
      · cases ending with
        | protocolError error => exact Or.inr ⟨error, List.mem_singleton.mp there⟩
        | waiting => cases there
        | closed => cases there
        | left departure => cases there
  | @leaves last departure taken rest command replies middle sent executes departs =>
      have early : ∀ other ∈ taken, ¬ Authenticates other :=
        fun other member => strange other (by rw [sent]; exact List.mem_append_left _ member)
      obtain ⟨rfl, _⟩ := executes.stranger stranger early
      rcases react_stranger (normalize command) stranger with ⟨named, required, admits, _⟩ | ⟨_, _, refused⟩
      · have here : command ∈ connection.commands := by
          rw [sent]
          exact List.mem_append_right _ List.mem_cons_self
        exact absurd ⟨named, required, admits⟩ (strange command here)
      · rw [refused] at departs
        cases departs

omit [Platform] [Surroundings] in
/-- A wrong password admits nobody. -/
theorem strangers_change_nothing_guess :
    letI := Reference.platform (fun _ => .error "unsupported")
    letI := quietSurroundings
    (opened false "GET a\r\nAUTH guess\r\n").serve.1.state = ⟨false, none, freshNode⟩ ∧
      ∀ departure, (opened false "GET a\r\nAUTH guess\r\n").serve.2 ≠ .left departure := by
  let platform := Reference.platform (fun _ => .error "unsupported")
  let surroundings := quietSurroundings
  have sent : (commandsOf (opened false "GET a\r\nAUTH guess\r\n").reader.stream).1 =
      [["GET", "a"], ["AUTH", "guess"]] := by
    with_unfolding_all rfl
  have stranger : ∀ command ∈ (commandsOf (opened false "GET a\r\nAUTH guess\r\n").reader.stream).1,
      ¬ Authenticates command := by
    rw [sent]
    intro command member
    rcases List.mem_cons.mp member with rfl | last
    · rintro ⟨named, _⟩
      exact absurd named (by unfold Named; decide)
    · rw [List.mem_singleton.mp last]
      rintro ⟨_, _, admits⟩
      exact absurd admits (by unfold Admits; decide)
  have unchanged :=
    @strangers_change_nothing platform surroundings (opened false "GET a\r\nAUTH guess\r\n") rfl stranger
  exact ⟨unchanged.1, unchanged.2.1⟩

end Strangers

section Delivery

/-- What has been flushed when the command loop waits or ends. -/
structure Flushed (connection : Connection) (outcome : Connection × SessionEnding) : Prop where
  waiting : outcome.2 = .waiting → connection.remainder = .incomplete outcome.1.reader.stream ∧
    (outcome.1.reader.stream = [] → outcome.1.flushed = outcome.1.replies.length)
  ended : outcome.2 ≠ .waiting → (∀ departure, outcome.2 = .left departure → departure = .refused) →
    outcome.1.flushed = outcome.1.replies.length

theorem serve_flushed (connection : Connection) : connection.Prompt → Flushed connection connection.serve := by
  refine @serve_by_moves _ _ (fun connection outcome => connection.Prompt → Flushed connection outcome)
    (fun moves flushed prompt => ?_) ?_ connection
  · obtain ⟨waiting, ended⟩ := flushed (moves.prompt prompt)
    rw [← moves.remainder] at waiting
    exact ⟨waiting, ended⟩
  intro state outcome rounds prompt
  generalize ended : (Turn.ended outcome : Round) = round at rounds
  cases rounds with
  | reports =>
      cases ended
      exact ⟨SessionEnding.noConfusion, fun _ _ => rfl⟩
  | waits fresh read =>
      cases ended
      refine ⟨fun _ => ⟨?_, ?_⟩, fun other => absurd rfl other⟩
      · rw [Connection.remainder, fresh, commandsOf_waits read]
      · intro nothing
        refine prompt.flushed.resolve_right fun some_left => some_left ?_
        exact (List.append_eq_nil_iff.mp nothing).1
  | rejects =>
      cases ended
      exact ⟨SessionEnding.noConfusion, fun _ _ => rfl⟩
  | closes =>
      cases ended
      exact ⟨SessionEnding.noConfusion, fun _ _ => rfl⟩
  | skips => cases ended
  | commits => cases ended
  | @handles arguments =>
      unfold Connection.handle at ended
      simp only at ended
      split at ended
      next departure left =>
        cases ended
        refine ⟨SessionEnding.noConfusion, fun _ refused => ?_⟩
        obtain rfl := refused departure rfl
        rw [if_pos ((react_answers (normalize arguments) state.state).dismisses left)]
        rfl
      · cases ended

theorem Performed.counted {connection : Connection} {outcome : Connection × SessionEnding}
    (performed : Performed connection outcome) (stays : ∀ departure, outcome.2 ≠ .left departure) :
    outcome.1.replies.length =
      connection.replies.length + connection.commands.length + (lastWords outcome.2).length := by
  cases performed with
  | all _ executes answers => rw [answers, List.length_append, List.length_append, executes.length_eq]
  | leaves => exact absurd rfl (stays _)

/-- What has been answered and flushed when the command loop waits or ends. -/
structure Delivered (connection : Connection) (outcome : Connection × SessionEnding) : Prop where
  waiting : outcome.2 = .waiting → connection.remainder = .incomplete outcome.1.reader.stream ∧
    outcome.1.replies.length = connection.replies.length + connection.commands.length ∧
      (outcome.1.reader.stream = [] → outcome.1.flushed = outcome.1.replies.length)
  closed : outcome.2 = .closed →
    outcome.1.replies.length = connection.replies.length + connection.commands.length ∧
      outcome.1.flushed = outcome.1.replies.length
  failed : ∀ error, outcome.2 = .protocolError error →
    outcome.1.replies.length = connection.replies.length + connection.commands.length + 1 ∧
      outcome.1.flushed = outcome.1.replies.length
  dismissed : outcome.2 = .left .refused → outcome.1.flushed = outcome.1.replies.length

/-- Whatever a client sends and however it arrives, every command is answered with exactly one reply. When the loop
waits it has answered all commands of the input, has only a part of a command before it, and has flushed all replies
unless there is such a part. At its end all replies are flushed, with one more for a malformed input, unless the client
is handed over to a subscription or to replication. -/
theorem replies_delivered (connection : Connection) (written : connection.flushed = connection.replies.length) :
    Delivered connection connection.serve := by
  have prompt : connection.Prompt := ⟨Nat.le_of_eq written, Or.inl written⟩
  have counted := (serve_performed connection).counted
  obtain ⟨waiting, ended⟩ := serve_flushed connection prompt
  generalize connection.serve = outcome at counted waiting ended
  obtain ⟨last, ending⟩ := outcome
  refine ⟨?_, ?_, ?_, ?_⟩
  · rintro rfl
    obtain ⟨rest, flushed⟩ := waiting rfl
    exact ⟨rest, counted (fun _ => SessionEnding.noConfusion), flushed⟩
  · rintro rfl
    exact ⟨counted (fun _ => SessionEnding.noConfusion),
      ended SessionEnding.noConfusion (fun _ => SessionEnding.noConfusion)⟩
  · rintro error rfl
    exact ⟨counted (fun _ => SessionEnding.noConfusion),
      ended SessionEnding.noConfusion (fun _ => SessionEnding.noConfusion)⟩
  · rintro rfl
    exact ended SessionEnding.noConfusion (fun departure same => (SessionEnding.left.inj same).symm)

omit [Platform] [Surroundings] in
/-- Two commands that arrive with nothing behind them. -/
theorem replies_delivered_two :
    letI := Reference.platform (fun _ => .error "unsupported")
    letI := quietSurroundings
    (opened true "GET a\r\nGET b\r\n").serve.1.replies.length = 2 ∧
      (opened true "GET a\r\nGET b\r\n").serve.1.flushed = 2 := by
  let platform := Reference.platform (fun _ => .error "unsupported")
  let surroundings := quietSurroundings
  have waits : (opened true "GET a\r\nGET b\r\n").serve.2 = .waiting := by
    with_unfolding_all rfl
  have sent : (opened true "GET a\r\nGET b\r\n").commands = [["GET", "a"], ["GET", "b"]] := by
    with_unfolding_all rfl
  have nothing : (opened true "GET a\r\nGET b\r\n").serve.1.reader.stream = [] := by
    with_unfolding_all rfl
  obtain ⟨_, counted, flushed⟩ :=
    (@replies_delivered platform surroundings (opened true "GET a\r\nGET b\r\n") rfl).waiting waits
  rw [sent] at counted
  exact ⟨counted, (flushed nothing).trans counted⟩

end Delivery

end OnyxDB.Server
