import OnyxDB.Protocol.RespAgreement

/-! Pipelined writes: when a connection has read a write command, it takes the complete write commands
behind it out of its buffer and commits all of them as one group. The commands it executes are those it
would have executed one at a time. -/

namespace OnyxDB.Protocol
open OnyxDB.Library.Arrival OnyxDB.Engine.Value

section Model

def isWriteCommand (command : String) : Bool :=
  decide (command ∈ ["SET", "GETSET", "SETNX", "MSET", "DEL", "EXPIRE", "EXPIREAT", "LPUSH", "RPUSH", "LPOP",
    "RPOP", "HSET", "SADD", "RENAME", "INCR", "INCRBY", "DECRBY", "APPEND", "HDEL", "SREM", "COPY", "JSON.SET",
    "JSON.DEL", "JSON.NUMINCRBY", "JSON.ARRAPPEND"])

def makeAsciiUppercase (text : String) : String := String.ofList (text.toList.map Char.toUpper)

/-- The command with its name in upper case. -/
def normalize : List String → List String
  | [] => []
  | name :: arguments => makeAsciiUppercase name :: arguments

def writes (command : List String) : Bool := command.head?.any isWriteCommand

def maxPipelinedCommitCommands : Nat := 64

/-- The rest of the connection loop: in which states of the session write commands reach the commit
group (authenticated, outside a transaction, on a master), and what any other command makes of the
state. There is no next state when the command ends the loop. -/
structure Session (σ : Type) where
  pipelines : σ → Bool
  dispatch : σ → List String → Option σ

inductive Ending where
  | waiting
  | closed
  | protocolError
  | left
  deriving DecidableEq, Repr

/-- The grouping loop over the buffer, with room for `slots` more commands. -/
def groupBuffered : Nat → List (List String) → Reader UInt8 →
    List (List String) × Reader UInt8 × Option IoError
  | 0, commands, reader => (commands, reader, none)
  | slots + 1, commands, reader =>
      match decodeBufferedCommand reader.buffer clientRespLimits with
      | .error error => (commands, reader, some error)
      | .ok none => (commands, reader, none)
      | .ok (some (next, consumed)) =>
          if next.isEmpty then (commands, reader, none)
          else if !writes (normalize next) then (commands, reader, none)
          else groupBuffered slots (commands ++ [normalize next]) (reader.consume consumed)

theorem clientRespLimits_bounded : clientRespLimits.Bounded :=
  ⟨by decide, by decide, by decide, by decide⟩

theorem readCommand_shortens {reader next : Reader UInt8} {command : List String}
    (returned : readCommandWithLimits clientRespLimits reader = .ready (.ok (some command)) next) :
    next.stream.length < reader.stream.length := by
  obtain ⟨length, decoded, left, _⟩ := readCommand_some clientRespLimits_bounded returned
  obtain ⟨positive, within⟩ := decodeBufferedCommand_some clientRespLimits_bounded decoded
  rw [left, List.length_drop]
  omega

theorem groupBuffered_shortens (slots : Nat) (commands : List (List String)) (reader : Reader UInt8) :
    (groupBuffered slots commands reader).2.1.stream.length ≤ reader.stream.length := by
  induction slots generalizing commands reader with
  | zero => exact Nat.le_refl _
  | succ slots rest =>
      unfold groupBuffered
      split
      · exact Nat.le_refl _
      · exact Nat.le_refl _
      next command consumed decoded =>
        split
        · exact Nat.le_refl _
        · split
          · exact Nat.le_refl _
          · have within := (decodeBufferedCommand_some clientRespLimits_bounded decoded).2
            refine Nat.le_trans (rest _ _) ?_
            rw [Reader.consume_stream within, List.length_drop]
            omega

set_option linter.unusedVariables false in
/-- The connection loop: the commands it executes, in order, and how it ends. -/
def serve {σ : Type} (session : Session σ) (state : σ) (reader : Reader UInt8) :
    List (List String) × Ending :=
  match read : readCommandWithLimits clientRespLimits reader with
  | .pending => ([], .waiting)
  | .ready (.error _) _ => ([], .protocolError)
  | .ready (.ok none) _ => ([], .closed)
  | .ready (.ok (some arguments)) next =>
      if arguments.isEmpty then serve session state next
      else if session.pipelines state && writes (normalize arguments) then
        let group := groupBuffered (maxPipelinedCommitCommands - 1) [normalize arguments] next
        match group.2.2 with
        | some _ => (group.1, .protocolError)
        | none =>
            let rest := serve session state group.2.1
            (group.1 ++ rest.1, rest.2)
      else
        match session.dispatch state (normalize arguments) with
        | none => ([normalize arguments], .left)
        | some state =>
            let rest := serve session state next
            (normalize arguments :: rest.1, rest.2)
termination_by reader.stream.length
decreasing_by
  all_goals
    have shorter := readCommand_shortens read
  · exact shorter
  · exact Nat.lt_of_le_of_lt (groupBuffered_shortens _ _ _) shorter
  · exact shorter

set_option linter.unusedVariables false in
/-- The same loop, reading one command at a time. -/
def serveSingly {σ : Type} (session : Session σ) (state : σ) (reader : Reader UInt8) :
    List (List String) × Ending :=
  match read : readCommandWithLimits clientRespLimits reader with
  | .pending => ([], .waiting)
  | .ready (.error _) _ => ([], .protocolError)
  | .ready (.ok none) _ => ([], .closed)
  | .ready (.ok (some arguments)) next =>
      if arguments.isEmpty then serveSingly session state next
      else if session.pipelines state && writes (normalize arguments) then
        let rest := serveSingly session state next
        (normalize arguments :: rest.1, rest.2)
      else
        match session.dispatch state (normalize arguments) with
        | none => ([normalize arguments], .left)
        | some state =>
            let rest := serveSingly session state next
            (normalize arguments :: rest.1, rest.2)
termination_by reader.stream.length
decreasing_by all_goals exact readCommand_shortens read

end Model

section Grouping
variable {σ : Type} (session : Session σ) (state : σ)

/-- One round of the loop that reads one command at a time. -/
theorem serveSingly_eq (reader : Reader UInt8) :
    serveSingly session state reader =
      match readCommandWithLimits clientRespLimits reader with
      | .pending => ([], .waiting)
      | .ready (.error _) _ => ([], .protocolError)
      | .ready (.ok none) _ => ([], .closed)
      | .ready (.ok (some arguments)) next =>
          if arguments.isEmpty then serveSingly session state next
          else if session.pipelines state && writes (normalize arguments) then
            (normalize arguments :: (serveSingly session state next).1, (serveSingly session state next).2)
          else
            match session.dispatch state (normalize arguments) with
            | none => ([normalize arguments], .left)
            | some state =>
                (normalize arguments :: (serveSingly session state next).1,
                  (serveSingly session state next).2) := by
  rw [serveSingly]
  split <;> rename_i outcome <;> rw [outcome]

theorem serve_eq (reader : Reader UInt8) :
    serve session state reader =
      match readCommandWithLimits clientRespLimits reader with
      | .pending => ([], .waiting)
      | .ready (.error _) _ => ([], .protocolError)
      | .ready (.ok none) _ => ([], .closed)
      | .ready (.ok (some arguments)) next =>
          if arguments.isEmpty then serve session state next
          else if session.pipelines state && writes (normalize arguments) then
            match (groupBuffered (maxPipelinedCommitCommands - 1) [normalize arguments] next).2.2 with
            | some _ =>
                ((groupBuffered (maxPipelinedCommitCommands - 1) [normalize arguments] next).1, .protocolError)
            | none =>
                ((groupBuffered (maxPipelinedCommitCommands - 1) [normalize arguments] next).1 ++
                  (serve session state
                    (groupBuffered (maxPipelinedCommitCommands - 1) [normalize arguments] next).2.1).1,
                  (serve session state
                    (groupBuffered (maxPipelinedCommitCommands - 1) [normalize arguments] next).2.1).2)
          else
            match session.dispatch state (normalize arguments) with
            | none => ([normalize arguments], .left)
            | some state =>
                (normalize arguments :: (serve session state next).1, (serve session state next).2) := by
  rw [serve]
  split <;> rename_i outcome <;> rw [outcome]

/-- How the input is cut makes no difference. -/
theorem serveSingly_recut {first second : Reader UInt8} (same : Recut first second) :
    serveSingly session state second = serveSingly session state first := by
  induction size : first.stream.length using Nat.strongRecOn generalizing state first second with
  | ind size rest =>
      rw [serveSingly_eq session state first, serveSingly_eq session state second]
      have early := readCommand_cases clientRespLimits_bounded first
      have late := readCommand_cases clientRespLimits_bounded second
      rw [same.stream, same.closed] at late
      cases decoded : decodeBufferedCommand first.stream clientRespLimits with
      | error failure =>
          rw [decoded] at early late
          obtain ⟨_, _, before⟩ := early
          obtain ⟨_, _, after⟩ := late
          rw [before, after]
      | ok found =>
          rw [decoded] at early late
          cases found with
          | none =>
              cases closed : first.closed with
              | false => rw [early.1 closed, late.1 closed]
              | true =>
                  rcases early.2 closed with ⟨nothing, before⟩ | ⟨something, _, _, before⟩
                  · rcases late.2 closed with ⟨_, after⟩ | ⟨other, _⟩
                    · rw [before, after]
                    · exact absurd nothing other
                  · rcases late.2 closed with ⟨other, _⟩ | ⟨_, _, _, after⟩
                    · exact absurd other something
                    · rw [before, after]
          | some pair =>
              obtain ⟨command, length⟩ := pair
              obtain ⟨firstNext, before, firstLeft, firstClosed⟩ := early
              obtain ⟨secondNext, after, secondLeft, secondClosed⟩ := late
              have shorter := readCommand_shortens before
              have again (state : σ) : serveSingly session state secondNext =
                  serveSingly session state firstNext :=
                rest firstNext.stream.length (by rw [← size]; exact shorter) state
                  ⟨secondLeft.trans firstLeft.symm, secondClosed.trans firstClosed.symm⟩ rfl
              rw [before, after]
              simp only [again]

/-- The commands of a group are those that are read one at a time. -/
theorem groupBuffered_singly (pipelining : session.pipelines state = true) (slots : Nat)
    (commands : List (List String)) (reader : Reader UInt8) :
    ∃ added, (groupBuffered slots commands reader).1 = commands ++ added ∧
      serveSingly session state reader =
        match (groupBuffered slots commands reader).2.2 with
        | some _ => (added, .protocolError)
        | none => (added ++ (serveSingly session state (groupBuffered slots commands reader).2.1).1,
            (serveSingly session state (groupBuffered slots commands reader).2.1).2) := by
  induction slots generalizing commands reader with
  | zero => exact ⟨[], (List.append_nil _).symm, rfl⟩
  | succ slots rest =>
      have stops (ended : groupBuffered (slots + 1) commands reader = (commands, reader, none)) :
          ∃ added, (groupBuffered (slots + 1) commands reader).1 = commands ++ added ∧
            serveSingly session state reader =
              match (groupBuffered (slots + 1) commands reader).2.2 with
              | some _ => (added, .protocolError)
              | none => (added ++
                  (serveSingly session state (groupBuffered (slots + 1) commands reader).2.1).1,
                (serveSingly session state (groupBuffered (slots + 1) commands reader).2.1).2) := by
        rw [ended]
        exact ⟨[], (List.append_nil _).symm, rfl⟩
      cases decoded : decodeBufferedCommand reader.buffer clientRespLimits with
      | error failure =>
          have group : groupBuffered (slots + 1) commands reader = (commands, reader, some failure) := by
            rw [groupBuffered, decoded]
          have begun : reader.buffer ≠ [] := by
            intro nothing
            rw [nothing] at decoded
            cases decoded
          have follows := decodeBufferedCommand_follows begun clientRespLimits_bounded
          rw [decoded] at follows
          obtain ⟨other, after, failed⟩ := follows reader.chunks.flatten reader rfl
          rw [group]
          refine ⟨[], (List.append_nil _).symm, ?_⟩
          rw [serveSingly_eq, failed]
      | ok found =>
          cases found with
          | none =>
              apply stops
              rw [groupBuffered, decoded]
          | some pair =>
              obtain ⟨next, consumed⟩ := pair
              by_cases empty : next.isEmpty = true
              · apply stops
                rw [groupBuffered, decoded]
                simp only [empty, if_true]
              · by_cases written : writes (normalize next) = true
                · have group : groupBuffered (slots + 1) commands reader =
                      groupBuffered slots (commands ++ [normalize next]) (reader.consume consumed) := by
                    rw [groupBuffered, decoded]
                    simp only [empty, written, Bool.not_true, Bool.false_eq_true, if_false]
                  have within := (decodeBufferedCommand_some clientRespLimits_bounded decoded).2
                  have begun : reader.buffer ≠ [] := by
                    intro nothing
                    rw [nothing] at decoded
                    cases decoded
                  have follows := decodeBufferedCommand_follows begun clientRespLimits_bounded
                  rw [decoded] at follows
                  obtain ⟨after, returned, left, closed⟩ := follows.2 reader.chunks.flatten reader rfl
                  have same : Recut (reader.consume consumed) after :=
                    ⟨left.trans (Reader.consume_stream within).symm, closed⟩
                  obtain ⟨added, commandsAfter, served⟩ :=
                    rest (commands ++ [normalize next]) (reader.consume consumed)
                  rw [group]
                  refine ⟨normalize next :: added, ?_, ?_⟩
                  · rw [commandsAfter, List.append_assoc, List.singleton_append]
                  · rw [serveSingly_eq, returned]
                    simp only [empty, pipelining, written, Bool.and_self, if_true, Bool.false_eq_true, if_false]
                    rw [serveSingly_recut session state same, served]
                    split <;> rfl
                · apply stops
                  rw [groupBuffered, decoded]
                  simp only [empty, written, Bool.not_false, Bool.false_eq_true, if_false, if_true]

/-- Grouping does not change what is executed. -/
theorem serve_eq_serveSingly (reader : Reader UInt8) :
    serve session state reader = serveSingly session state reader := by
  induction size : reader.stream.length using Nat.strongRecOn generalizing state reader with
  | ind size rest =>
      rw [serve_eq, serveSingly_eq]
      split
      · rfl
      · rfl
      · rfl
      next arguments next returned =>
        have shorter := readCommand_shortens returned
        have again (state : σ) : serve session state next = serveSingly session state next :=
          rest next.stream.length (by rw [← size]; exact shorter) state next rfl
        split
        · exact again state
        · split
          next grouped =>
            have pipelining : session.pipelines state = true := (Bool.and_eq_true_iff.mp grouped).1
            obtain ⟨added, commands, served⟩ := groupBuffered_singly session state pipelining
              (maxPipelinedCommitCommands - 1) [normalize arguments] next
            have within := groupBuffered_shortens (maxPipelinedCommitCommands - 1) [normalize arguments] next
            generalize groupBuffered (maxPipelinedCommitCommands - 1) [normalize arguments] next = group at *
            rw [served]
            cases failed : group.2.2 with
            | some failure =>
                simp only [commands, List.singleton_append]
            | none =>
                have later := rest group.2.1.stream.length
                  (by rw [← size]; exact Nat.lt_of_le_of_lt within shorter) state group.2.1 rfl
                simp only [commands, later, List.cons_append, List.nil_append]
          · simp only [again]

end Grouping

section Agreement

/-- An open connection on which everything has arrived. -/
def arrived (input : Bytes) : Reader UInt8 := ⟨input, [], by simp, false⟩

theorem arrived_stream (input : Bytes) : (arrived input).stream = input := List.append_nil input

/-- Where nothing complete is found, nothing is found in any part of it. -/
theorem decodeBufferedCommand_front {limits : RESPReadLimits} (bounded : limits.Bounded) {input front : Bytes}
    (incomplete : decodeBufferedCommand input limits = .ok none) (begins : front <+: input) :
    decodeBufferedCommand front limits = .ok none := by
  obtain ⟨more, rfl⟩ := begins
  have waits : readCommandWithLimits limits (arrived (front ++ more)) = .pending := by
    have outcome := readCommand_cases bounded (arrived (front ++ more))
    rw [arrived_stream, incomplete] at outcome
    exact outcome.1 rfl
  by_cases begun : front = []
  · rw [begun]
    rfl
  · have follows := decodeBufferedCommand_follows begun bounded
    cases decoded : decodeBufferedCommand front limits with
    | error failure =>
        rw [decoded] at follows
        obtain ⟨_, _, failed⟩ := follows more (arrived (front ++ more)) (arrived_stream _)
        rw [waits] at failed
        cases failed
    | ok found =>
        cases found with
        | none => rfl
        | some pair =>
            rw [decoded] at follows
            obtain ⟨_, returned, _⟩ := follows.2 more (arrived (front ++ more)) (arrived_stream _)
            rw [waits] at returned
            cases returned

/-- What one decoder finds in the bytes that have arrived is what the other one does on every
continuation of them, and grouping executes the commands that reading one at a time executes. -/
theorem decoders_agree (limits : RESPReadLimits) (bounded : limits.Bounded) (input : Bytes) :
    (∀ command length, decodeBufferedCommand input limits = .ok (some (command, length)) →
      ∀ reader : Reader UInt8, input <+: reader.stream → ∃ after,
        readCommandWithLimits limits reader = .ready (.ok (some command)) after ∧
          after.stream = reader.stream.drop length ∧
          after.stream.length + length = reader.stream.length) ∧
    (∀ failure, decodeBufferedCommand input limits = .error failure →
      ∀ reader : Reader UInt8, input <+: reader.stream → ∃ other after,
        readCommandWithLimits limits reader = .ready (.error other) after) ∧
    (decodeBufferedCommand input limits = .ok none → ∀ front, front <+: input →
      decodeBufferedCommand front limits = .ok none ∧
      ∀ reader : Reader UInt8, reader.stream = front →
        (reader.closed = false → readCommandWithLimits limits reader = .pending) ∧
        ∀ command after, readCommandWithLimits limits reader ≠ .ready (.ok (some command)) after) ∧
    ∀ (σ : Type) (session : Session σ) (state : σ) (reader : Reader UInt8),
      serve session state reader = serveSingly session state reader := by
  refine ⟨?_, ?_, ?_, ?_⟩
  · intro command length decoded reader begins
    obtain ⟨more, whole⟩ := begins
    obtain ⟨positive, within⟩ := decodeBufferedCommand_some bounded decoded
    have begun : input ≠ [] := by
      rintro rfl
      cases decoded
    have follows := decodeBufferedCommand_follows begun bounded
    rw [decoded] at follows
    obtain ⟨after, returned, left, _⟩ := follows.2 more reader whole.symm
    rw [whole] at left
    refine ⟨after, returned, left, ?_⟩
    rw [left, List.length_drop, ← whole, List.length_append]
    omega
  · intro failure decoded reader begins
    obtain ⟨more, whole⟩ := begins
    have begun : input ≠ [] := by
      rintro rfl
      cases decoded
    have follows := decodeBufferedCommand_follows begun bounded
    rw [decoded] at follows
    exact follows more reader whole.symm
  · intro incomplete front begins
    have nothing := decodeBufferedCommand_front bounded incomplete begins
    refine ⟨nothing, ?_⟩
    intro reader same
    have outcome := readCommand_cases bounded reader
    rw [same, nothing] at outcome
    refine ⟨outcome.1, ?_⟩
    intro command after returned
    obtain ⟨length, decoded, _⟩ := readCommand_some bounded returned
    rw [same, nothing] at decoded
    cases decoded
  · intro σ session state reader
    exact serve_eq_serveSingly session state reader

/-- Two commands of which the second is cut. -/
theorem decoders_agree_ping :
    decodeBufferedCommand (utf8Bytes "PING\r\n*1\r") clientRespLimits = .ok (some (["PING"], 6)) ∧
      ∃ after, readCommandWithLimits clientRespLimits
          ⟨utf8Bytes "PI", [utf8Bytes "NG\r", utf8Bytes "\n*1\r\n$1"], by decide, false⟩ =
        .ready (.ok (some ["PING"])) after ∧ after.stream = utf8Bytes "*1\r\n$1" := by
  have decoded : decodeBufferedCommand (utf8Bytes "PING\r\n*1\r") clientRespLimits =
      .ok (some (["PING"], 6)) := by decide +kernel
  obtain ⟨after, returned, left, _⟩ := (decoders_agree clientRespLimits clientRespLimits_bounded
    (utf8Bytes "PING\r\n*1\r")).1 _ _ decoded
    ⟨utf8Bytes "PI", [utf8Bytes "NG\r", utf8Bytes "\n*1\r\n$1"], by decide, false⟩ (by decide)
  refine ⟨decoded, after, returned, ?_⟩
  rw [left]
  decide

end Agreement

end OnyxDB.Protocol
