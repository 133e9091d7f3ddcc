import OnyxDB.Coordinator.QueueAccounting
import OnyxDB.Server.ClientSession

/-! A transaction of a session is all or nothing. What is queued has no effect, whatever other clients do meanwhile;
`EXEC` executes all of it, or none when the queue has met its limits once. A queue that is within its limits makes a
request that the commit coordinator does not refuse for its size. -/

namespace OnyxDB.Server
open OnyxDB.Library OnyxDB.Library.Arrival OnyxDB.Engine OnyxDB.Engine.Value OnyxDB.Store OnyxDB.Protocol
  OnyxDB.Command OnyxDB.Coordinator OnyxDB.Persistence.Model

namespace TransactionQueue

section Sizes

def argumentBytes (argument : String) : Nat := (utf8Bytes argument).length + 16

/-- What a command counts for. -/
def commandSize (command : List String) : Nat := 16 + (command.map argumentBytes).sum

def total (commands : List (List String)) : Nat := (commands.map commandSize).sum

/-- Commands that can all be queued. -/
structure Fits (commands : List (List String)) : Prop where
  count : commands.length ≤ maxTransactionCommands
  bytes : total commands ≤ maxTransactionBytes

theorem total_append (commands more : List (List String)) : total (commands ++ more) = total commands + total more := by
  rw [total, List.map_append, List.sum_append]
  rfl

theorem total_singleton (command : List String) : total [command] = commandSize command := by
  rw [total, List.map_singleton, List.sum_singleton]

theorem fits_nil : Fits [] := ⟨Nat.zero_le _, Nat.zero_le _⟩

theorem Fits.front {commands more : List (List String)} (fits : Fits (commands ++ more)) : Fits commands := by
  obtain ⟨count, bytes⟩ := fits
  rw [List.length_append] at count
  rw [total_append] at bytes
  exact ⟨by omega, by omega⟩

theorem limit_counted : maxTransactionBytes < usizeMax := by
  decide

/-- The bytes of the arguments are added up without loss while they are within the limit. -/
theorem foldlM_small (command : List String) {start : Nat}
    (small : start + (command.map argumentBytes).sum ≤ maxTransactionBytes) :
    command.foldlM (fun total argument => checkedAdd total (saturatingAdd (utf8Bytes argument).length 16)) start =
      some (start + (command.map argumentBytes).sum) := by
  have limit := limit_counted
  induction command generalizing start with
  | nil => rfl
  | cons argument command rest =>
      rw [List.map_cons, List.sum_cons] at small ⊢
      have here : argumentBytes argument = (utf8Bytes argument).length + 16 := rfl
      have exact : saturatingAdd (utf8Bytes argument).length 16 = argumentBytes argument := by
        rw [saturatingAdd, here]
        omega
      have counted : checkedAdd start (argumentBytes argument) = some (start + argumentBytes argument) := by
        rw [checkedAdd, if_pos (by omega)]
      rw [List.foldlM_cons, exact, counted]
      have later := @rest (start + argumentBytes argument) (by omega)
      change List.foldlM _ (start + argumentBytes argument) command = _
      rw [later, Nat.add_assoc]

/-- A sum within the limit is the sum of all bytes. -/
theorem foldlM_exact (command : List String) {start bytes : Nat} (within : bytes ≤ maxTransactionBytes)
    (summed : command.foldlM
      (fun total argument => checkedAdd total (saturatingAdd (utf8Bytes argument).length 16)) start = some bytes) :
    bytes = start + (command.map argumentBytes).sum := by
  have limit := limit_counted
  induction command generalizing start with
  | nil =>
      cases summed
      rfl
  | cons argument command rest =>
      rw [List.foldlM_cons] at summed
      obtain ⟨middle, counted, summed⟩ := Option.bind_eq_some_iff.mp summed
      have later := rest summed
      rw [checkedAdd] at counted
      split at counted
      next fits =>
        cases counted
        have here : argumentBytes argument = (utf8Bytes argument).length + 16 := rfl
        rw [saturatingAdd] at later fits
        rw [List.map_cons, List.sum_cons]
        omega
      · cases counted

end Sizes

section Queueing

/-- A queue that holds these commands and has refused none. -/
def holding (commands : List (List String)) : TransactionQueue := ⟨commands, total commands, false⟩

/-- What was queued fits, whether or not something has been refused. -/
structure Sound (queue : TransactionQueue) : Prop where
  fits : Fits queue.commands
  counted : queue.encodedBytes = total queue.commands

theorem sound_holding {commands : List (List String)} (fits : Fits commands) : Sound (holding commands) := ⟨fits, rfl⟩

theorem enqueue_fits {commands : List (List String)} {command : List String} (fits : Fits (commands ++ [command])) :
    (holding commands).enqueue command = (.ok (), holding (commands ++ [command])) := by
  have limit := limit_counted
  obtain ⟨count, bytes⟩ := fits
  rw [List.length_append, List.length_singleton] at count
  have whole := total_append commands [command]
  rw [total_singleton] at whole
  rw [whole] at bytes
  have counted : commandBytes command = some (commandSize command) :=
    foldlM_small command (by rw [← commandSize]; omega)
  have projected : checkedAdd (total commands) (commandSize command) = some (total commands + commandSize command) := by
    rw [checkedAdd, if_pos (by omega)]
  unfold enqueue
  rw [if_neg (by simp [holding]), if_neg (by simp only [holding]; omega), counted, Option.bind_some]
  simp only [holding, projected]
  rw [if_neg (by omega), whole]

/-- The message for what does not fit any more. -/
def limitMessage (commands : List (List String)) : String :=
  if commands.length ≥ maxTransactionCommands then countLimit else byteLimit

theorem enqueue_exceeds {commands : List (List String)} {command : List String}
    (exceeds : ¬ Fits (commands ++ [command])) :
    (holding commands).enqueue command =
      (.error (limitMessage commands), { holding commands with failed := true }) := by
  unfold enqueue limitMessage
  rw [if_neg (by simp [holding])]
  by_cases many : commands.length ≥ maxTransactionCommands
  · rw [if_pos (by simpa only [holding] using many), if_pos many]
    rfl
  · rw [if_neg (by simpa only [holding] using many), if_neg many]
    split
    · rfl
    next projectedBytes projected =>
      split
      · rfl
      next within =>
        exfalso
        obtain ⟨bytes, counted, added⟩ := Option.bind_eq_some_iff.mp projected
        rw [checkedAdd] at added
        split at added
        · cases added
          have small : bytes ≤ maxTransactionBytes := by omega
          have size : bytes = commandSize command := foldlM_exact command small counted
          have whole := total_append commands [command]
          rw [total_singleton] at whole
          have here : (holding commands).encodedBytes = total commands := rfl
          apply exceeds
          constructor
          · rw [List.length_append, List.length_singleton]
            omega
          · omega
        · cases added

theorem enqueue_failed {queue : TransactionQueue} (failed : queue.failed = true) (command : List String) :
    queue.enqueue command = (.error "ERR transaction queue is already invalid", queue) := by
  unfold enqueue
  rw [if_pos failed]

/-- Queueing keeps a queue within its limits. -/
theorem Sound.enqueue {queue : TransactionQueue} (sound : Sound queue) (command : List String) :
    Sound (queue.enqueue command).2 := by
  cases failed : queue.failed with
  | true =>
      rw [enqueue_failed failed]
      exact sound
  | false =>
      have held : queue = holding queue.commands := by
        obtain ⟨commands, encodedBytes, _⟩ := queue
        obtain ⟨_, counted⟩ := sound
        simp only at counted failed
        rw [holding, counted, failed]
      by_cases fits : Fits (queue.commands ++ [command])
      · rw [held, enqueue_fits fits]
        exact sound_holding fits
      · rw [held, enqueue_exceeds fits]
        exact ⟨sound.fits, rfl⟩

end Queueing

section Requests

theorem argumentsSize_within (arguments : List String) :
    argumentsSize arguments ≤ 48 + commandSize arguments + 8 * arguments.length := by
  have general (start : Nat) : arguments.foldl
      (fun total argument => saturatingAdd total (saturatingAdd (utf8Bytes argument).length 24)) start ≤
        start + (arguments.map argumentBytes).sum + 8 * arguments.length := by
    induction arguments generalizing start with
    | nil => exact Nat.le_refl _
    | cons argument arguments rest =>
        rw [List.foldl_cons, List.map_cons, List.sum_cons, List.length_cons]
        have later := rest (saturatingAdd start (saturatingAdd (utf8Bytes argument).length 24))
        have first : saturatingAdd start (saturatingAdd (utf8Bytes argument).length 24) ≤
            start + (argumentBytes argument + 8) := by
          rw [saturatingAdd, saturatingAdd, argumentBytes]
          omega
        omega
  have whole := general 64
  rw [commandSize]
  rw [argumentsSize]
  omega

/-- An argument counts for at least sixteen bytes. -/
theorem length_within (arguments : List String) : 16 * arguments.length ≤ commandSize arguments := by
  rw [commandSize]
  induction arguments with
  | nil => exact Nat.zero_le _
  | cons argument arguments rest =>
      rw [List.map_cons, List.sum_cons, List.length_cons, argumentBytes]
      omega

theorem estimatedBytes_within (commands : List (List String)) :
    2 * (MasterCommitOperation.transaction commands).estimatedBytes ≤
      128 + 96 * commands.length + 3 * total commands := by
  have general (start : Nat) : 2 * commands.foldl
      (fun total command => saturatingAdd total (argumentsSize command)) start ≤
        2 * start + 96 * commands.length + 3 * total commands := by
    induction commands generalizing start with
    | nil => exact Nat.le_add_right _ _
    | cons command commands rest =>
        have later := rest (saturatingAdd start (argumentsSize command))
        have size := argumentsSize_within command
        have length := length_within command
        have whole : total (command :: commands) = commandSize command + total commands := by
          rw [total, List.map_cons, List.sum_cons]
          rfl
        have first : saturatingAdd start (argumentsSize command) ≤ start + argumentsSize command := by
          rw [saturatingAdd]
          omega
        rw [List.foldl_cons, List.length_cons, whole]
        omega
  exact general 64

/-- The commit coordinator takes every transaction that could be queued. -/
theorem Fits.accepted {commands : List (List String)} (fits : Fits commands) :
    ∃ units, (MasterCommitOperation.transaction commands).check = .ok units := by
  obtain ⟨count, bytes⟩ := fits
  have estimate := estimatedBytes_within commands
  have small : max (MasterCommitOperation.transaction commands).estimatedBytes 1 ≤
      Coordinator.commitQueueMemoryBytes := by
    unfold maxTransactionCommands at count
    unfold maxTransactionBytes at bytes
    unfold Coordinator.commitQueueMemoryBytes
    omega
  exact ⟨_, check_units rfl small⟩

end Requests

end TransactionQueue

section Sessions

/-- The name of a command, in any case. -/
def Named (word : String) (arguments : List String) : Prop := eqIgnoreAsciiCase (argument arguments 0) word = true

/-- A command that a transaction queues. -/
structure Queueable (arguments : List String) : Prop where
  auth : ¬ Named "AUTH" arguments
  multi : ¬ Named "MULTI" arguments
  discard : ¬ Named "DISCARD" arguments
  exec : ¬ Named "EXEC" arguments

theorem named_iff (word : String) (arguments : List String) :
    Named word arguments ↔ makeAsciiUppercase (argument arguments 0) = makeAsciiUppercase word := beq_iff_eq

/-- A command has one name. -/
theorem Named.other {word other : String} {arguments : List String} (named : Named word arguments)
    (apart : makeAsciiUppercase word ≠ makeAsciiUppercase other) : ¬ Named other arguments := by
  intro both
  rw [named_iff] at named both
  exact apart (named.symm.trans both)

variable [Platform] [Surroundings] {state : ClientState} {arguments : List String}

theorem react_multi (authenticated : state.authenticated = true) (named : Named "MULTI" arguments) :
    react arguments state = multi state := by
  have auth : eqIgnoreAsciiCase (argument arguments 0) "AUTH" = false :=
    Bool.eq_false_iff.mpr (named.other (by decide))
  have itself : eqIgnoreAsciiCase (argument arguments 0) "MULTI" = true := named
  simp only [react, auth, authenticated, itself, Bool.not_true, Bool.false_eq_true, if_false, if_true]

theorem react_exec (authenticated : state.authenticated = true) (named : Named "EXEC" arguments) :
    react arguments state = exec state := by
  have auth : eqIgnoreAsciiCase (argument arguments 0) "AUTH" = false :=
    Bool.eq_false_iff.mpr (named.other (by decide))
  have multi : eqIgnoreAsciiCase (argument arguments 0) "MULTI" = false :=
    Bool.eq_false_iff.mpr (named.other (by decide))
  have discard : eqIgnoreAsciiCase (argument arguments 0) "DISCARD" = false :=
    Bool.eq_false_iff.mpr (named.other (by decide))
  have itself : eqIgnoreAsciiCase (argument arguments 0) "EXEC" = true := named
  simp only [react, auth, authenticated, multi, discard, itself, Bool.not_true, Bool.false_eq_true, if_false, if_true]

theorem react_queueable {queue : TransactionQueue} (authenticated : state.authenticated = true)
    (queued : state.transaction = some queue) (queueable : Queueable arguments) :
    react arguments state = enqueueCommand arguments queue state := by
  have auth := Bool.eq_false_iff.mpr queueable.auth
  have multi := Bool.eq_false_iff.mpr queueable.multi
  have discard := Bool.eq_false_iff.mpr queueable.discard
  have exec := Bool.eq_false_iff.mpr queueable.exec
  simp only [react, auth, authenticated, multi, discard, exec, queued, Bool.not_true, Bool.false_eq_true, if_false]

/-- The commands of a session, each behind what other clients do to the node before it. -/
def conduct : List ((Node → Node) × List String) → ClientState → List RESPValue × ClientState
  | [], state => ([], state)
  | (others, arguments) :: commands, state =>
      let reaction := react arguments { state with node := others state.node }
      let (replies, last) := conduct commands reaction.state
      (reaction.replies ++ replies, last)

omit [Platform] [Surroundings] in
/-- The node as the other clients leave it. -/
def othersAlone (commands : List ((Node → Node) × List String)) (node : Node) : Node :=
  commands.foldl (fun node command => command.1 node) node

theorem conduct_append (first second : List ((Node → Node) × List String)) (state : ClientState) :
    conduct (first ++ second) state =
      ((conduct first state).1 ++ (conduct second (conduct first state).2).1,
        (conduct second (conduct first state).2).2) := by
  induction first generalizing state with
  | nil => rfl
  | cons command first rest =>
      rw [List.cons_append, conduct, conduct, rest, List.append_assoc]

def queuedReply : RESPValue := .simpleString "QUEUED"
def invalidReply : RESPValue := .error "ERR transaction queue is already invalid"
def abortReply : RESPValue :=
  .error "EXECABORT transaction discarded because its queue limit was exceeded"

/-- While everything fits, it is queued behind what there is. -/
theorem conduct_fits {held : List (List String)} (commands : List ((Node → Node) × List String)) (node : Node)
    (queueable : ∀ command ∈ commands, Queueable command.2)
    (fits : TransactionQueue.Fits (held ++ commands.map Prod.snd)) :
    conduct commands ⟨true, some (.holding held), node⟩ =
      (List.replicate commands.length queuedReply,
        ⟨true, some (.holding (held ++ commands.map Prod.snd)), othersAlone commands node⟩) := by
  induction commands generalizing held node with
  | nil =>
      rw [List.map_nil, List.append_nil]
      rfl
  | cons command commands rest =>
      obtain ⟨others, arguments⟩ := command
      have whole : held ++ ((others, arguments) :: commands).map Prod.snd =
          (held ++ [arguments]) ++ commands.map Prod.snd := by
        rw [List.map_cons, List.append_assoc, List.singleton_append]
      rw [whole] at fits ⊢
      have later := rest (others node) (fun command member => queueable command (List.mem_cons_of_mem _ member)) fits
      have here : react arguments ⟨true, some (.holding held), others node⟩ =
          answered queuedReply ⟨true, some (.holding (held ++ [arguments])), others node⟩ := by
        rw [react_queueable rfl rfl (queueable _ List.mem_cons_self), enqueueCommand,
          TransactionQueue.enqueue_fits fits.front]
        rfl
      simp only [conduct, here, answered, later]
      rfl

/-- Once a queue has refused a command, it refuses all, and stays as it is. -/
theorem conduct_failed {queue : TransactionQueue} (failed : queue.failed = true)
    (commands : List ((Node → Node) × List String)) (node : Node)
    (queueable : ∀ command ∈ commands, Queueable command.2) :
    conduct commands ⟨true, some queue, node⟩ =
      (List.replicate commands.length invalidReply, ⟨true, some queue, othersAlone commands node⟩) := by
  induction commands generalizing node with
  | nil => rfl
  | cons command commands rest =>
      obtain ⟨others, arguments⟩ := command
      have later := rest (others node) (fun command member => queueable command (List.mem_cons_of_mem _ member))
      have here : react arguments ⟨true, some queue, others node⟩ =
          answered invalidReply ⟨true, some queue, others node⟩ := by
        rw [react_queueable rfl rfl (queueable _ List.mem_cons_self), enqueueCommand,
          TransactionQueue.enqueue_failed failed]
        rfl
      simp only [conduct, here, answered, later]
      rfl

omit [Platform] [Surroundings] in
/-- Where some commands do not fit, there is a first one that does not. -/
theorem first_exceeding (commands : List ((Node → Node) × List String)) {held : List (List String)}
    (fits : TransactionQueue.Fits held) (exceeds : ¬ TransactionQueue.Fits (held ++ commands.map Prod.snd)) :
    ∃ taken limit refused, commands = taken ++ limit :: refused ∧
      TransactionQueue.Fits (held ++ taken.map Prod.snd) ∧
      ¬ TransactionQueue.Fits (held ++ taken.map Prod.snd ++ [limit.2]) := by
  induction commands generalizing held with
  | nil =>
      rw [List.map_nil, List.append_nil] at exceeds
      exact absurd fits exceeds
  | cons command commands rest =>
      by_cases more : TransactionQueue.Fits (held ++ [command.2])
      · rw [List.map_cons, ← List.singleton_append, ← List.append_assoc] at exceeds
        obtain ⟨taken, limit, refused, rfl, within, beyond⟩ := rest more exceeds
        refine ⟨command :: taken, limit, refused, rfl, ?_, ?_⟩
        · rw [List.map_cons, ← List.singleton_append, ← List.append_assoc]
          exact within
        · rw [List.map_cons, ← List.singleton_append, ← List.append_assoc]
          exact beyond
      · refine ⟨[], command, commands, rfl, ?_, ?_⟩
        · rw [List.map_nil, List.append_nil]
          exact fits
        · rw [List.map_nil, List.append_nil]
          exact more

omit [Platform] [Surroundings] in
theorem othersAlone_append (first second : List ((Node → Node) × List String)) (node : Node) :
    othersAlone (first ++ second) node = othersAlone second (othersAlone first node) := List.foldl_append

/-- A transaction between `MULTI` and `EXEC`, with other clients at work before each of its commands. If all of it
fits, everything is queued without effect and executed by `EXEC` on the node that the others have left. If not, the
commands up to the limit are queued, the first beyond it and all behind it are refused, and `EXEC` executes
nothing. -/
theorem transaction_all_or_nothing {begin finish : (Node → Node) × List String}
    (commands : List ((Node → Node) × List String)) (node : Node) (begins : Named "MULTI" begin.2)
    (finishes : Named "EXEC" finish.2) (queueable : ∀ command ∈ commands, Queueable command.2) :
    (TransactionQueue.Fits (commands.map Prod.snd) →
      conduct (begin :: commands ++ [finish]) ⟨true, none, node⟩ =
        ([.simpleString "OK"] ++ List.replicate commands.length queuedReply ++
            [(executeTransaction (commands.map Prod.snd)
              (othersAlone (begin :: commands ++ [finish]) node)).1],
          ⟨true, none, (executeTransaction (commands.map Prod.snd)
            (othersAlone (begin :: commands ++ [finish]) node)).2⟩)) ∧
    (¬ TransactionQueue.Fits (commands.map Prod.snd) →
      ∃ taken limit refused, commands = taken ++ limit :: refused ∧
        TransactionQueue.Fits (taken.map Prod.snd) ∧
        ¬ TransactionQueue.Fits (taken.map Prod.snd ++ [limit.2]) ∧
        conduct (begin :: commands ++ [finish]) ⟨true, none, node⟩ =
          ([.simpleString "OK"] ++ List.replicate taken.length queuedReply ++
              [.error (TransactionQueue.limitMessage (taken.map Prod.snd))] ++
              List.replicate refused.length invalidReply ++ [abortReply],
            ⟨true, none, othersAlone (begin :: commands ++ [finish]) node⟩)) := by
  obtain ⟨others, opening⟩ := begin
  obtain ⟨others', closing⟩ := finish
  have opens (node : Node) : react opening ⟨true, none, node⟩ =
      answered (.simpleString "OK") ⟨true, some (.holding []), node⟩ := by
    rw [react_multi rfl begins]
    rfl
  have whole : othersAlone ((others, opening) :: commands ++ [(others', closing)]) node =
      others' (othersAlone commands (others node)) := by
    rw [List.cons_append, othersAlone, List.foldl_cons]
    exact othersAlone_append commands _ _
  rw [whole]
  constructor
  · intro fits
    have queues := conduct_fits commands (others node) queueable (by rw [List.nil_append]; exact fits)
    rw [List.nil_append] at queues
    have closes (node : Node) : react closing ⟨true, some (.holding (commands.map Prod.snd)), node⟩ =
        answered (executeTransaction (commands.map Prod.snd) node).1
          ⟨true, none, (executeTransaction (commands.map Prod.snd) node).2⟩ := by
      rw [react_exec rfl finishes]
      rfl
    rw [List.cons_append, conduct, opens, answered]
    simp only
    rw [conduct_append, queues]
    simp only [conduct, closes, answered, List.append_nil, List.append_assoc]
  · intro exceeds
    obtain ⟨taken, limit, refused, rfl, within, beyond⟩ :=
      @first_exceeding commands [] TransactionQueue.fits_nil (by rw [List.nil_append]; exact exceeds)
    rw [List.nil_append] at within beyond
    refine ⟨taken, limit, refused, rfl, within, beyond, ?_⟩
    have behind : ∀ command ∈ refused, Queueable command.2 := fun command member =>
      queueable command (List.mem_append_right _ (List.mem_cons_of_mem _ member))
    have queues := conduct_fits taken (others node)
      (fun command member => queueable command (List.mem_append_left _ member)) (by rw [List.nil_append]; exact within)
    rw [List.nil_append] at queues
    have refuses (node : Node) : react limit.2 ⟨true, some (.holding (taken.map Prod.snd)), node⟩ =
        answered (.error (TransactionQueue.limitMessage (taken.map Prod.snd)))
          ⟨true, some { TransactionQueue.holding (taken.map Prod.snd) with failed := true }, node⟩ := by
      rw [react_queueable rfl rfl (queueable _ (List.mem_append_right _ List.mem_cons_self)), enqueueCommand,
        TransactionQueue.enqueue_exceeds beyond]
    have aborts (node : Node) :
        react closing ⟨true, some { TransactionQueue.holding (taken.map Prod.snd) with failed := true }, node⟩ =
          answered abortReply ⟨true, none, node⟩ := by
      rw [react_exec rfl finishes, exec]
      rfl
    have shape : ((others, opening) :: (taken ++ limit :: refused)) ++ [(others', closing)] =
        (others, opening) :: (taken ++ (limit :: (refused ++ [(others', closing)]))) := by
      rw [List.cons_append, List.append_assoc, List.cons_append]
    rw [shape, conduct, opens, answered]
    simp only
    rw [conduct_append, queues]
    simp only [conduct, refuses, answered]
    rw [conduct_append, conduct_failed rfl refused _ behind]
    simp only [conduct, aborts, answered, othersAlone_append, List.append_assoc, List.cons_append, List.nil_append]
    rfl

/-- A master that has just started with nothing stored. -/
def freshNode : Node := ⟨Coordinator.emptyServer 0, false, 0, 0, 0, 0, 0, [], ∅, []⟩

/-- A server with one user, whose storage accepts everything. -/
@[reducible]
def quietSurroundings : Surroundings where
  users := AList.insert "default" "secret" ∅
  append := acceptEverything
  compactStore := fun node => (.ok (), node)
  prepareReplicaPromotion := fun node => (.ok (), node)
  percentText := fun _ _ => "0.0"

omit [Platform] [Surroundings] in
/-- Another client sets the key before it is read, and is ahead of `EXEC`. -/
theorem transaction_all_or_nothing_get :
    letI := Reference.platform (fun _ => .error "unsupported")
    letI := quietSurroundings
    let set : Node → Node := fun node => (executeCommandOn ["SET", "a", "1"] node).2
    (conduct [(id, ["multi"]), (set, ["GET", "a"]), (id, ["EXEC"])] ⟨true, none, freshNode⟩).1 =
      [.simpleString "OK", queuedReply, .array [.bulkString (some "1")]] := by
  let platform := Reference.platform (fun _ => .error "unsupported")
  let surroundings := quietSurroundings
  let set : Node → Node := fun node => (executeCommandOn ["SET", "a", "1"] node).2
  have queueable : ∀ command ∈ [(set, ["GET", "a"])], Queueable command.2 := by
    intro command member
    rw [List.mem_singleton.mp member]
    exact ⟨by unfold Named; decide, by unfold Named; decide, by unfold Named; decide, by unfold Named; decide⟩
  have fits : TransactionQueue.Fits [["GET", "a"]] := ⟨by decide, by decide⟩
  have whole := (@transaction_all_or_nothing platform surroundings (id, ["multi"]) (id, ["EXEC"])
    [(set, ["GET", "a"])] freshNode (by unfold Named; decide) (by unfold Named; decide) queueable).1 fits
  have answer : (executeTransaction [["GET", "a"]] (set freshNode)).1 = .array [.bulkString (some "1")] := by
    with_unfolding_all rfl
  refine (congrArg Prod.fst whole).trans ?_
  exact congrArg (fun reply => [RESPValue.simpleString "OK", queuedReply, reply]) answer

end Sessions

end OnyxDB.Server
