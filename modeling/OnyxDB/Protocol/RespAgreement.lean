import OnyxDB.Protocol.Resp

/-! The two decoders agree. What the buffered one says about some bytes is what the other one does on
every input that begins with them, however the input arrives. -/

namespace OnyxDB.Protocol
open OnyxDB.Library.Arrival OnyxDB.Engine.Value

section Lines

theorem findIdx_newline_none {bytes : Bytes} :
    bytes.findIdx? (fun byte => byte == newline) = none ↔ newline ∉ bytes := by
  rw [List.findIdx?_eq_none_iff]
  constructor
  · intro absent member
    have differ := absent newline member
    simp at differ
  · intro absent byte member
    rw [beq_eq_false_iff_ne]
    rintro rfl
    exact absent member

/-- A newline that has arrived decides the line. -/
theorem bufferedLine_here {available : Bytes} {position : Nat}
    (found : available.findIdx? (fun byte => byte == newline) = some position) (tail : Bytes)
    (maximumSize : Nat) :
    bufferedLine (available ++ tail) maximumSize =
      if position + 1 > maximumSize then .error (invalidData lineTooLong) else .ok (some (position + 1)) := by
  rw [bufferedLine, List.findIdx?_append, found]
  rfl

/-- Bytes without a newline only use up room. -/
theorem bufferedLine_append {available : Bytes} (absent : newline ∉ available) (tail : Bytes)
    {maximumSize : Nat} (room : available.length ≤ maximumSize) :
    bufferedLine (available ++ tail) maximumSize =
      (bufferedLine tail (maximumSize - available.length)).map
        (Option.map (fun length => length + available.length)) := by
  rw [bufferedLine, bufferedLine, List.findIdx?_append, findIdx_newline_none.mpr absent, Option.none_or]
  cases found : tail.findIdx? (fun byte => byte == newline) with
  | none =>
      simp only [Option.map_none, List.length_append]
      by_cases long : tail.length > maximumSize - available.length
      · rw [if_pos long, if_pos (by omega)]
        rfl
      · rw [if_neg long, if_neg (by omega)]
        rfl
  | some position =>
      simp only [Option.map_some]
      by_cases long : position + 1 > maximumSize - available.length
      · rw [if_pos long, if_pos (by omega)]
        rfl
      · rw [if_neg long, if_neg (by omega)]
        simp only [Except.map, Option.map_some]
        congr 2
        omega

theorem bufferedLine_long {available : Bytes} (absent : newline ∉ available) (tail : Bytes)
    {maximumSize : Nat} (long : maximumSize < available.length) :
    bufferedLine (available ++ tail) maximumSize = .error (invalidData lineTooLong) := by
  rw [bufferedLine, List.findIdx?_append, findIdx_newline_none.mpr absent, Option.none_or]
  cases found : tail.findIdx? (fun byte => byte == newline) with
  | none =>
      simp only [Option.map_none, List.length_append]
      rw [if_pos (by omega)]
  | some position =>
      simp only [Option.map_some]
      rw [if_pos (by omega)]

/-- A line that is complete, or too long, stays so when more bytes arrive. -/
theorem bufferedLine_extend {input : Bytes} {maximumSize : Nat}
    (decided : bufferedLine input maximumSize ≠ .ok none) (more : Bytes) :
    bufferedLine (input ++ more) maximumSize = bufferedLine input maximumSize := by
  cases found : input.findIdx? (fun byte => byte == newline) with
  | some position =>
      rw [bufferedLine_here found, bufferedLine, found]
  | none =>
      have absent := findIdx_newline_none.mp found
      have long : maximumSize < input.length := by
        by_contra short
        apply decided
        rw [bufferedLine, found]
        simp only [gt_iff_lt, short, if_false]
      rw [bufferedLine_long absent more long, bufferedLine, found]
      simp only [gt_iff_lt, long, if_true]

theorem bufferedLine_some {input : Bytes} {maximumSize length : Nat}
    (complete : bufferedLine input maximumSize = .ok (some length)) :
    0 < length ∧ length ≤ input.length ∧ length ≤ maximumSize := by
  unfold bufferedLine at complete
  split at complete
  · split at complete <;> cases complete
  next position found =>
    split at complete
    · cases complete
    next short =>
      cases complete
      have inside := (List.findIdx?_eq_some_iff_findIdx_eq.mp found).1
      omega

theorem remaining_room {maximumSize : Nat} {scratch : Bytes} (bounded : maximumSize < usizeMax)
    (short : scratch.length ≤ maximumSize) :
    (checkedAdd maximumSize 1).bind (checkedSub · scratch.length) =
      some (maximumSize + 1 - scratch.length) := by
  rw [checkedAdd, if_pos (by omega), Option.bind_some, checkedSub, if_pos (by omega)]

/-- One round of the loop over lines. -/
theorem readBoundedLineFrom_round {maximumSize : Nat} {scratch available : Bytes}
    {reader next : Reader UInt8} (bounded : maximumSize < usizeMax) (short : scratch.length ≤ maximumSize)
    (filled : (fillBuf : Reading UInt8 IoError Bytes) reader = .ready (.ok available) next)
    (some_left : available ≠ []) :
    readBoundedLineFrom maximumSize scratch reader =
      let copied := min (lineLength available) (maximumSize + 1 - scratch.length)
      if (scratch ++ available.take copied).length > maximumSize then
        .ready (.error (invalidData lineTooLong)) (next.consume copied)
      else if copied = lineLength available ∧
          (scratch ++ available.take copied).getLast? = some newline then
        .ready (.ok (scratch ++ available.take copied)) (next.consume copied)
      else readBoundedLineFrom maximumSize (scratch ++ available.take copied) (next.consume copied) := by
  rw [readBoundedLineFrom]
  split
  next waits =>
    rw [filled] at waits
    cases waits
  next error after failed =>
    rw [filled] at failed
    cases failed
  next found after returned =>
    rw [filled] at returned
    cases returned
    rw [dif_neg some_left]
    split
    next none_left =>
      rw [remaining_room bounded short] at none_left
      cases none_left
    next remaining room =>
      rw [remaining_room bounded short] at room
      cases room
      simp only [dite_eq_ite]

theorem lineLength_le (available : Bytes) : lineLength available ≤ available.length := by
  unfold lineLength
  split
  next position found =>
    have inside := (List.findIdx?_eq_some_iff_findIdx_eq.mp found).1
    omega
  · exact Nat.le_refl _

theorem round_long {maximumSize : Nat} {scratch available : Bytes} {reader next : Reader UInt8}
    (bounded : maximumSize < usizeMax) (short : scratch.length ≤ maximumSize)
    (filled : (fillBuf : Reading UInt8 IoError Bytes) reader = .ready (.ok available) next)
    (some_left : available ≠ []) (long : maximumSize < scratch.length + lineLength available) :
    ∃ after, readBoundedLineFrom maximumSize scratch reader =
      .ready (.error (invalidData lineTooLong)) after := by
  have inside := lineLength_le available
  rw [readBoundedLineFrom_round bounded short filled some_left]
  refine ⟨next.consume (min (lineLength available) (maximumSize + 1 - scratch.length)), if_pos ?_⟩
  rw [List.length_append, List.length_take]
  omega

theorem round_complete {maximumSize position : Nat} {scratch available : Bytes} {reader next : Reader UInt8}
    (bounded : maximumSize < usizeMax) (short : scratch.length ≤ maximumSize)
    (filled : (fillBuf : Reading UInt8 IoError Bytes) reader = .ready (.ok available) next)
    (found : available.findIdx? (fun byte => byte == newline) = some position)
    (room : scratch.length + (position + 1) ≤ maximumSize) :
    readBoundedLineFrom maximumSize scratch reader =
      .ready (.ok (scratch ++ available.take (position + 1))) (next.consume (position + 1)) := by
  have length : lineLength available = position + 1 := by rw [lineLength, found]
  have inside := (List.findIdx?_eq_some_iff_findIdx_eq.mp found).1
  have some_left : available ≠ [] := by
    rintro rfl
    cases found
  have ends : (scratch ++ available.take (position + 1)).getLast? = some newline := by
    obtain ⟨_, here, _⟩ := List.findIdx?_eq_some_iff_getElem.mp found
    rw [beq_iff_eq] at here
    rw [List.take_succ_eq_append_getElem inside, here, ← List.append_assoc, List.getLast?_append]
    rfl
  have copied : min (position + 1) (maximumSize + 1 - scratch.length) = position + 1 := by omega
  have within : ¬ (scratch ++ available.take (position + 1)).length > maximumSize := by
    rw [List.length_append, List.length_take]
    omega
  rw [readBoundedLineFrom_round bounded short filled some_left]
  simp only [length, copied, within, ends, and_self, if_true, if_false]

theorem round_unfinished {maximumSize : Nat} {scratch available : Bytes} {reader next : Reader UInt8}
    (bounded : maximumSize < usizeMax)
    (filled : (fillBuf : Reading UInt8 IoError Bytes) reader = .ready (.ok available) next)
    (some_left : available ≠ []) (absent : newline ∉ available)
    (room : scratch.length + available.length ≤ maximumSize) :
    readBoundedLineFrom maximumSize scratch reader =
      readBoundedLineFrom maximumSize (scratch ++ available) (next.consume available.length) := by
  have length : lineLength available = available.length := by
    rw [lineLength, findIdx_newline_none.mpr absent]
  have copied : min (lineLength available) (maximumSize + 1 - scratch.length) = available.length := by omega
  have ends : (scratch ++ available).getLast? ≠ some newline := by
    rw [List.getLast?_append, List.getLast?_eq_some_getLast some_left, Option.some_or]
    intro last
    apply absent
    rw [← Option.some.inj last]
    exact List.getLast_mem some_left
  have within : ¬ (scratch ++ available).length > maximumSize := by
    rw [List.length_append]
    omega
  rw [readBoundedLineFrom_round bounded (by omega) filled some_left]
  simp only [copied, List.take_length, within, ends, and_false, if_false]

/-- How `bufferedLine` on the whole input describes a reader. -/
theorem readBoundedLineFrom_eq {maximumSize : Nat} (bounded : maximumSize < usizeMax) (scratch : Bytes)
    (short : scratch.length ≤ maximumSize) (reader : Reader UInt8) :
    match bufferedLine reader.stream (maximumSize - scratch.length) with
    | .error _ => ∃ after, readBoundedLineFrom maximumSize scratch reader =
        .ready (.error (invalidData lineTooLong)) after
    | .ok (some length) => ∃ after, readBoundedLineFrom maximumSize scratch reader =
        .ready (.ok (scratch ++ reader.stream.take length)) after ∧
          after.stream = reader.stream.drop length ∧ after.closed = reader.closed
    | .ok none => (reader.closed = false → readBoundedLineFrom maximumSize scratch reader = .pending) ∧
        (reader.closed = true → ∃ after, readBoundedLineFrom maximumSize scratch reader =
          .ready (.ok (scratch ++ reader.stream)) after) := by
  induction size : reader.stream.length using Nat.strongRecOn generalizing scratch reader with
  | ind size rest =>
      by_cases nothing : reader.stream = []
      · rw [nothing]
        have filled := @fillBuf_empty UInt8 IoError reader nothing
        constructor
        · intro waiting
          rw [waiting] at filled
          rw [readBoundedLineFrom]
          split
          · rfl
          next error after failed =>
            rw [filled] at failed
            cases failed
          next available after returned =>
            rw [filled] at returned
            cases returned
        · intro ended
          rw [ended] at filled
          refine ⟨reader, ?_⟩
          rw [readBoundedLineFrom]
          split
          next waits =>
            rw [filled] at waits
            cases waits
          next error after failed =>
            rw [filled] at failed
            cases failed
          next available after returned =>
            rw [filled] at returned
            cases returned
            rw [dif_pos rfl, List.append_nil]
      · obtain ⟨next, filled, some_left, same⟩ := @fillBuf_ready UInt8 IoError reader nothing
        have split : reader.stream = next.buffer ++ next.chunks.flatten := same.stream.symm
        cases found : next.buffer.findIdx? (fun byte => byte == newline) with
        | some position =>
            rw [split, bufferedLine_here found]
            by_cases long : position + 1 > maximumSize - scratch.length
            · rw [if_pos long]
              exact round_long bounded short filled some_left (by rw [lineLength, found]; simp only; omega)
            · rw [if_neg long]
              have inside := (List.findIdx?_eq_some_iff_findIdx_eq.mp found).1
              refine ⟨next.consume (position + 1), ?_, ?_, same.closed⟩
              · rw [round_complete bounded short filled found (by omega),
                  List.take_append_of_le_length (by omega)]
              · exact Reader.consume_stream (by omega)
        | none =>
            have absent := findIdx_newline_none.mp found
            have length : lineLength next.buffer = next.buffer.length := by rw [lineLength, found]
            rw [split]
            by_cases long : maximumSize - scratch.length < next.buffer.length
            · rw [bufferedLine_long absent _ long]
              exact round_long bounded short filled some_left (by omega)
            · rw [bufferedLine_append absent _ (by omega), round_unfinished bounded filled some_left absent (by omega)]
              have later : (next.consume next.buffer.length).stream = next.chunks.flatten := by
                rw [Reader.consume_stream (Nat.le_refl _), Reader.stream, List.drop_left]
              have induct := rest (next.consume next.buffer.length).stream.length
                (by rw [← size]; exact consume_shortens filled some_left (List.length_pos_iff.mpr some_left))
                (scratch ++ next.buffer) (by rw [List.length_append]; omega)
                (next.consume next.buffer.length) rfl
              rw [later, List.length_append,
                show maximumSize - (scratch.length + next.buffer.length) =
                  maximumSize - scratch.length - next.buffer.length by omega] at induct
              cases ahead : bufferedLine next.chunks.flatten
                  (maximumSize - scratch.length - next.buffer.length) with
              | error failure =>
                  rw [ahead] at induct
                  exact induct
              | ok line =>
                  cases line with
                  | none =>
                      rw [ahead] at induct
                      refine ⟨fun waiting => induct.1 (same.closed.trans waiting), ?_⟩
                      intro ended
                      obtain ⟨after, returned⟩ := induct.2 (same.closed.trans ended)
                      refine ⟨after, ?_⟩
                      rw [returned, List.append_assoc]
                  | some length =>
                      rw [ahead] at induct
                      obtain ⟨after, returned, left, closed⟩ := induct
                      refine ⟨after, ?_, ?_, closed.trans same.closed⟩
                      · rw [returned, List.append_assoc]
                        dsimp only
                        rw [Nat.add_comm, List.take_length_add_append]
                      · rw [left]
                        dsimp only
                        rw [Nat.add_comm, List.drop_length_add_append]

variable {maximumSize : Nat} {input more : Bytes} {reader : Reader UInt8}

theorem readBoundedLine_ready {length : Nat} (bounded : maximumSize < usizeMax)
    (begins : reader.stream = input ++ more)
    (complete : bufferedLine input maximumSize = .ok (some length)) :
    ∃ after, readBoundedLine maximumSize reader = .ready (.ok (input.take length)) after ∧
      after.stream = (input ++ more).drop length ∧ after.closed = reader.closed := by
  have inside := (bufferedLine_some complete).2.1
  have extended := bufferedLine_extend (by rw [complete]; simp) more
  have outcome := readBoundedLineFrom_eq bounded [] (Nat.zero_le _) reader
  rw [List.length_nil, Nat.sub_zero, begins, extended, complete] at outcome
  dsimp only at outcome
  rw [List.take_append_of_le_length inside, List.nil_append] at outcome
  exact outcome

theorem readBoundedLine_failed {failure : IoError} (bounded : maximumSize < usizeMax)
    (begins : reader.stream = input ++ more) (refused : bufferedLine input maximumSize = .error failure) :
    ∃ after, readBoundedLine maximumSize reader = .ready (.error (invalidData lineTooLong)) after := by
  have extended := bufferedLine_extend (by rw [refused]; simp) more
  have outcome := readBoundedLineFrom_eq bounded [] (Nat.zero_le _) reader
  rw [List.length_nil, Nat.sub_zero, begins, extended, refused] at outcome
  exact outcome

theorem readBoundedLine_pending (bounded : maximumSize < usizeMax) (begins : reader.stream = input)
    (incomplete : bufferedLine input maximumSize = .ok none) (waiting : reader.closed = false) :
    readBoundedLine maximumSize reader = .pending := by
  have outcome := readBoundedLineFrom_eq bounded [] (Nat.zero_le _) reader
  rw [List.length_nil, Nat.sub_zero, begins, incomplete] at outcome
  exact outcome.1 waiting

/-- The rest of an input that ends within a line. -/
theorem readBoundedLine_ended (bounded : maximumSize < usizeMax) (begins : reader.stream = input)
    (incomplete : bufferedLine input maximumSize = .ok none) (ended : reader.closed = true) :
    ∃ after, readBoundedLine maximumSize reader = .ready (.ok input) after ∧ newline ∉ input := by
  have outcome := readBoundedLineFrom_eq bounded [] (Nat.zero_le _) reader
  rw [List.length_nil, Nat.sub_zero, begins, incomplete] at outcome
  obtain ⟨after, returned⟩ := outcome.2 ended
  refine ⟨after, returned, ?_⟩
  cases found : input.findIdx? (fun byte => byte == newline) with
  | none => exact findIdx_newline_none.mp found
  | some position =>
      rw [bufferedLine, found] at incomplete
      simp only at incomplete
      split at incomplete <;> cases incomplete

theorem lineContent_unfinished {line : Bytes} (absent : newline ∉ line) :
    lineContent line = .error (invalidData "RESP line is missing its CRLF terminator") := by
  rw [lineContent, if_neg]
  rw [List.isSuffixOf_iff_suffix]
  rintro ⟨front, rfl⟩
  apply absent
  simp [crlf, newline]

end Lines

section Arguments

/-- What a reader does on an input that begins with `input`, given what was found there. -/
def Follows {α β : Type} (input : Bytes) (found : Except IoError (Option (α × Nat)))
    (result : α → Nat → β) (start : Nat) (reading : Reading UInt8 IoError β) : Prop :=
  match found with
  | .error _ => ∀ (more : Bytes) reader, reader.stream = (input ++ more).drop start →
      ∃ failure after, reading reader = .ready (.error failure) after
  | .ok (some (value, finish)) => finish ≤ input.length ∧
      ∀ (more : Bytes) reader, reader.stream = (input ++ more).drop start →
        ∃ after, reading reader = .ready (.ok (result value finish)) after ∧
          after.stream = (input ++ more).drop finish ∧ after.closed = reader.closed
  | .ok none => ∀ reader : Reader UInt8, reader.stream = input.drop start →
      (reader.closed = false → reading reader = .pending) ∧
      (reader.closed = true → ∃ failure after, reading reader = .ready (.error failure) after)

theorem header_bounded : maxRespHeaderLineSize < usizeMax := by decide

theorem decodePayload_follows (input : Bytes) (limits : RESPReadLimits) {start : Nat} (bulk : Nat)
    (inside : start ≤ input.length) :
    Follows input (decodePayload input limits start (start + bulk) (start + bulk + 2))
      (fun range finish => (rangeText input range, finish)) start
      (readPayload limits bulk (start + bulk + 2)) := by
  have size (more : Bytes) : ((input ++ more).drop start).length = input.length + more.length - start := by
    rw [List.length_drop, List.length_append]
  by_cases long : start + bulk + 2 > limits.maxFrameLen
  · rw [decodePayload, if_pos long]
    intro more reader begins
    rw [readPayload, if_pos long]
    exact ⟨frameTooLong, reader, rfl⟩
  · rw [decodePayload, if_neg long, readPayload, if_neg long]
    by_cases short : start + bulk + 2 > input.length
    · rw [if_pos short]
      intro reader begins
      have left : reader.stream.length = input.length - start := by rw [begins, List.length_drop]
      by_cases missing : reader.stream.length < bulk
      · refine ⟨fun waiting => bind_pending (readExact_pending earlyEof missing waiting), ?_⟩
        intro ended
        obtain ⟨after, failed⟩ := readExact_ended earlyEof missing ended
        exact ⟨earlyEof, after, bind_failed failed⟩
      · obtain ⟨after, returned, rest, closed⟩ := readExact_ready earlyEof (Nat.le_of_not_lt missing)
        have unfinished : after.stream.length < 2 := by
          rw [rest, List.length_drop]
          omega
        rw [bind_ready returned, ← closed]
        refine ⟨fun waiting => bind_pending (readExact_pending earlyEof unfinished waiting), ?_⟩
        intro ended
        obtain ⟨last, failed⟩ := readExact_ended earlyEof unfinished ended
        exact ⟨earlyEof, last, bind_failed failed⟩
    · rw [if_neg short]
      have payload (more : Bytes) : ((input ++ more).drop start).take bulk = slice input start (start + bulk) := by
        rw [slice, List.drop_append_of_le_length inside, List.take_append_of_le_length
          (by rw [List.length_drop]; omega), List.drop_take, Nat.add_sub_cancel_left]
      have terminator (more : Bytes) : (((input ++ more).drop start).drop bulk).take 2 =
          slice input (start + bulk) (start + bulk + 2) := by
        rw [slice, List.drop_drop, List.drop_append_of_le_length (by omega), List.take_append_of_le_length
          (by rw [List.length_drop]; omega), List.drop_take, Nat.add_sub_cancel_left]
      have reads (more : Bytes) (reader : Reader UInt8) (begins : reader.stream = (input ++ more).drop start) :
          ∃ after : Reader UInt8, after.stream = (input ++ more).drop (start + bulk + 2) ∧
            after.closed = reader.closed ∧ (do
              let payload ← readExact earlyEof bulk
              let terminator ← readExact earlyEof 2
              if terminator ≠ crlf then Reading.fail missingTerminator
              else do
                let argument ← Reading.lift (orInvalid invalidArgument (fromUtf8 payload))
                pure (argument, start + bulk + 2) : Reading UInt8 IoError (String × Nat)) reader =
              (if slice input (start + bulk) (start + bulk + 2) ≠ crlf then Reading.fail missingTerminator
              else do
                let argument ← Reading.lift (orInvalid invalidArgument
                  (fromUtf8 (slice input start (start + bulk))))
                pure (argument, start + bulk + 2) : Reading UInt8 IoError (String × Nat)) after := by
        obtain ⟨middle, first, rest, open_⟩ := @readExact_ready UInt8 IoError earlyEof bulk reader
          (by rw [begins, size]; omega)
        obtain ⟨after, second, last, closed⟩ := @readExact_ready UInt8 IoError earlyEof 2 middle
          (by rw [rest, begins, List.length_drop, size]; omega)
        refine ⟨after, ?_, closed.trans open_, ?_⟩
        · rw [last, rest, begins, List.drop_drop, List.drop_drop, Nat.add_assoc]
        · rw [bind_ready first, bind_ready second, rest, begins, payload, terminator]
      by_cases ends : slice input (start + bulk) (start + bulk + 2) ≠ crlf
      · rw [if_pos ends]
        intro more reader begins
        obtain ⟨after, _, _, same⟩ := reads more reader begins
        refine ⟨missingTerminator, after, ?_⟩
        rw [same, if_pos ends]
        rfl
      · rw [if_neg ends]
        cases text : fromUtf8 (slice input start (start + bulk)) with
        | none =>
            intro more reader begins
            obtain ⟨after, _, _, same⟩ := reads more reader begins
            refine ⟨invalidData invalidArgument, after, ?_⟩
            rw [same, if_neg ends, text]
            rfl
        | some argument =>
            have value : rangeText input (start, start + bulk) = argument := by
              simp only [rangeText, text, Option.getD_some]
            refine ⟨by omega, ?_⟩
            intro more reader begins
            obtain ⟨after, left, closed, same⟩ := reads more reader begins
            refine ⟨after, ?_, left, closed⟩
            dsimp only
            rw [same, if_neg ends, text, value]
            rfl

theorem checkedAdd_some {first second : Nat} (fits : first + second ≤ usizeMax) :
    checkedAdd first second = some (first + second) := if_pos fits

theorem checkedAdd_none {first second : Nat} (large : usizeMax < first + second) :
    checkedAdd first second = none := if_neg (Nat.not_le.mpr large)

theorem lift_bind_ok {α β : Type} {value : α} {next : α → Reading UInt8 IoError β} {reader : Reader UInt8} :
    (Reading.lift (.ok value) >>= next) reader = next value reader := rfl

theorem lift_bind_error {α β : Type} {failure : IoError} {next : α → Reading UInt8 IoError β}
    {reader : Reader UInt8} :
    (Reading.lift (.error failure) >>= next) reader = .ready (.error failure) reader := rfl

/-- The sums of the two loops overflow together. -/
theorem readBulk_overflow {limits : RESPReadLimits} {cursor bulk : Nat} {line : Bytes}
    (announced : bulkLength line limits = .ok bulk)
    (large : usizeMax < cursor + line.length + bulk + 2) (reader : Reader UInt8) :
    ∃ failure, readBulk limits cursor line reader = .ready (.error failure) reader := by
  rw [readBulk, announced, lift_bind_ok]
  by_cases encoded : bulk + 2 ≤ usizeMax
  · rw [checkedAdd_some encoded]
    by_cases headed : cursor + line.length ≤ usizeMax
    · refine ⟨invalidData "RESP frame length overflow", ?_⟩
      rw [checkedAdd_some headed, orInvalid, lift_bind_ok, Option.bind_some, checkedAdd_none (by omega)]
      rfl
    · refine ⟨invalidData "RESP frame length overflow", ?_⟩
      rw [checkedAdd_none (Nat.lt_of_not_le headed), orInvalid, lift_bind_ok]
      rfl
  · rw [checkedAdd_none (Nat.lt_of_not_le encoded)]
    exact ⟨_, rfl⟩

theorem decodeSums_overflow {cursor header bulk : Nat} (large : usizeMax < cursor + header + bulk + 2)
    (next : Nat → Nat → Nat → Except IoError (Option ((Nat × Nat) × Nat))) :
    ∃ failure, (do
      let payloadStart ← orInvalid "RESP frame length overflow" (checkedAdd cursor header)
      let payloadEnd ← orInvalid "RESP bulk string length overflow" (checkedAdd payloadStart bulk)
      let frameEnd ← orInvalid "RESP bulk string length overflow" (checkedAdd payloadEnd 2)
      next payloadStart payloadEnd frameEnd) = .error failure := by
  by_cases headed : cursor + header ≤ usizeMax
  · rw [checkedAdd_some headed]
    by_cases payload : cursor + header + bulk ≤ usizeMax
    · refine ⟨invalidData "RESP bulk string length overflow", ?_⟩
      simp only [orInvalid, bind, Except.bind, checkedAdd_some payload, checkedAdd_none large]
    · refine ⟨invalidData "RESP bulk string length overflow", ?_⟩
      simp only [orInvalid, bind, Except.bind, checkedAdd_none (Nat.lt_of_not_le payload)]
  · rw [checkedAdd_none (Nat.lt_of_not_le headed)]
    exact ⟨_, rfl⟩

/-- A reading that begins by moving from one place of the input to another. -/
theorem Follows.of_move {α β : Type} {input : Bytes} {found : Except IoError (Option (α × Nat))}
    {result : α → Nat → β} {start middle : Nat} {first second : Reading UInt8 IoError β}
    (follows : Follows input found result middle second)
    (moves : ∀ (more : Bytes) reader, reader.stream = (input ++ more).drop start →
      ∃ next : Reader UInt8, next.stream = (input ++ more).drop middle ∧ next.closed = reader.closed ∧
        first reader = second next) : Follows input found result start first := by
  unfold Follows at *
  split
  next =>
    intro more reader begins
    obtain ⟨next, later, _, same⟩ := moves more reader begins
    rw [same]
    exact follows more next later
  next =>
    refine ⟨follows.1, ?_⟩
    intro more reader begins
    obtain ⟨next, later, closed, same⟩ := moves more reader begins
    obtain ⟨after, returned, left, kept⟩ := follows.2 more next later
    exact ⟨after, same.trans returned, left, kept.trans closed⟩
  next =>
    intro reader begins
    obtain ⟨next, later, closed, same⟩ := moves [] reader (by rw [List.append_nil]; exact begins)
    rw [List.append_nil] at later
    rw [same, ← closed]
    exact follows next later

theorem decodeArgument_follows (input : Bytes) (limits : RESPReadLimits) {cursor : Nat}
    (inside : cursor ≤ input.length) :
    Follows input (decodeArgument input limits cursor) (fun range finish => (rangeText input range, finish))
      cursor (readArgument limits cursor) := by
  have front (more : Bytes) : (input ++ more).drop cursor = input.drop cursor ++ more :=
    List.drop_append_of_le_length inside
  cases line : bufferedLine (input.drop cursor) maxRespHeaderLineSize with
  | error failure =>
      have refused : decodeArgument input limits cursor = .error failure := by
        simp only [decodeArgument, line, bind, Except.bind]
      rw [refused]
      intro more reader begins
      rw [front] at begins
      obtain ⟨after, failed⟩ := readBoundedLine_failed header_bounded begins line
      exact ⟨_, after, bind_failed failed⟩
  | ok found =>
      cases found with
      | none =>
          have incomplete : decodeArgument input limits cursor = .ok none := by
            simp only [decodeArgument, line, bind, Except.bind, pure, Except.pure]
          rw [incomplete]
          intro reader begins
          refine ⟨fun waiting => bind_pending (readBoundedLine_pending header_bounded begins line waiting), ?_⟩
          intro ended
          obtain ⟨after, returned, absent⟩ := readBoundedLine_ended header_bounded begins line ended
          rw [readArgument, bind_ready returned]
          by_cases nothing : (input.drop cursor).length = 0
          · rw [if_pos nothing]
            exact ⟨_, after, rfl⟩
          · refine ⟨invalidData "RESP line is missing its CRLF terminator", after, ?_⟩
            rw [if_neg nothing, readBulk, bulkLength, lineContent_unfinished absent]
            rfl
      | some header =>
          obtain ⟨positive, held, _⟩ := bufferedLine_some line
          rw [List.length_drop] at held
          have length : ((input.drop cursor).take header).length = header := by
            rw [List.length_take, List.length_drop]
            omega
          have moves (more : Bytes) (reader : Reader UInt8)
              (begins : reader.stream = (input ++ more).drop cursor) :
              ∃ next : Reader UInt8, next.stream = (input ++ more).drop (cursor + header) ∧
                next.closed = reader.closed ∧ readArgument limits cursor reader =
                  readBulk limits cursor ((input.drop cursor).take header) next := by
            rw [front] at begins
            obtain ⟨next, returned, left, closed⟩ := readBoundedLine_ready header_bounded begins line
            refine ⟨next, ?_, closed, ?_⟩
            · rw [left, ← front, List.drop_drop]
            · rw [readArgument, bind_ready returned, length, if_neg (by omega)]
          refine Follows.of_move ?_ moves
          cases announced : bulkLength ((input.drop cursor).take header) limits with
          | error failure =>
              have refused : decodeArgument input limits cursor = .error failure := by
                simp only [decodeArgument, line, announced, bind, Except.bind]
              rw [refused]
              intro more reader _
              refine ⟨failure, reader, ?_⟩
              rw [readBulk, announced, lift_bind_error]
          | ok bulk =>
              by_cases large : usizeMax < cursor + header + bulk + 2
              · obtain ⟨failure, overflow⟩ := decodeSums_overflow large (decodePayload input limits)
                have refused : decodeArgument input limits cursor = .error failure := by
                  rw [← overflow]
                  simp only [decodeArgument, line, announced, bind, Except.bind]
                rw [refused]
                intro more reader _
                obtain ⟨other, failed⟩ := @readBulk_overflow limits cursor bulk _ announced
                  (by rw [length]; exact large) reader
                exact ⟨other, reader, failed⟩
              · have sums : decodeArgument input limits cursor =
                    decodePayload input limits (cursor + header) (cursor + header + bulk)
                      (cursor + header + bulk + 2) := by
                  simp only [decodeArgument, line, announced, bind, Except.bind, orInvalid,
                    @checkedAdd_some cursor header (by omega),
                    @checkedAdd_some (cursor + header) bulk (by omega),
                    @checkedAdd_some (cursor + header + bulk) 2 (by omega)]
                have same : readBulk limits cursor ((input.drop cursor).take header) =
                    readPayload limits bulk (cursor + header + bulk + 2) := by
                  funext reader
                  rw [readBulk, announced, lift_bind_ok, checkedAdd_some (by omega), orInvalid, lift_bind_ok,
                    length, checkedAdd_some (by omega), Option.bind_some, checkedAdd_some (by omega),
                    orInvalid, lift_bind_ok, Nat.add_assoc (cursor + header)]
                rw [sums, same]
                exact decodePayload_follows input limits bulk (by omega)

theorem decodeArguments_follows (input : Bytes) (limits : RESPReadLimits) (count : Nat) {cursor : Nat}
    (ranges : List (Nat × Nat)) (inside : cursor ≤ input.length) :
    Follows input (decodeArguments input limits count cursor ranges)
      (fun ranges _ => ranges.map (rangeText input)) cursor
      (readArguments limits count cursor (ranges.map (rangeText input))) := by
  induction count generalizing cursor ranges with
  | zero => exact ⟨inside, fun more reader begins => ⟨reader, rfl, begins, rfl⟩⟩
  | succ count rest =>
      have follows := decodeArgument_follows input limits inside
      cases here : decodeArgument input limits cursor with
      | error failure =>
          have refused : decodeArguments input limits (count + 1) cursor ranges = .error failure := by
            simp only [decodeArguments, here, bind, Except.bind]
          rw [here] at follows
          rw [refused]
          intro more reader begins
          obtain ⟨other, after, failed⟩ := follows more reader begins
          exact ⟨other, after, bind_failed failed⟩
      | ok found =>
          cases found with
          | none =>
              have incomplete : decodeArguments input limits (count + 1) cursor ranges = .ok none := by
                simp only [decodeArguments, here, bind, Except.bind, pure, Except.pure]
              rw [here] at follows
              rw [incomplete]
              intro reader begins
              obtain ⟨waits, ends⟩ := follows reader begins
              refine ⟨fun waiting => bind_pending (waits waiting), ?_⟩
              intro ended
              obtain ⟨failure, after, failed⟩ := ends ended
              exact ⟨failure, after, bind_failed failed⟩
          | some argument =>
              obtain ⟨range, finish⟩ := argument
              have next : decodeArguments input limits (count + 1) cursor ranges =
                  decodeArguments input limits count finish (ranges ++ [range]) := by
                rw [decodeArguments, here]
                rfl
              rw [here] at follows
              rw [next]
              refine Follows.of_move (rest (ranges ++ [range]) follows.1) ?_
              intro more reader begins
              obtain ⟨after, returned, left, closed⟩ := follows.2 more reader begins
              refine ⟨after, left, closed, ?_⟩
              rw [readArguments, bind_ready returned, List.map_append]
              rfl

end Arguments

section Commands

/-- Each limit leaves room for one more byte in a `usize`. -/
structure RESPReadLimits.Bounded (limits : RESPReadLimits) : Prop where
  maxArrayLen : limits.maxArrayLen < usizeMax
  maxBulkLen : limits.maxBulkLen < usizeMax
  maxInlineLen : limits.maxInlineLen < usizeMax
  maxFrameLen : limits.maxFrameLen < usizeMax

theorem RESPReadLimits.Bounded.firstLine {limits : RESPReadLimits} (bounded : limits.Bounded)
    (firstByte : UInt8) : maximumFirstLineSize firstByte limits < usizeMax := by
  have inline := bounded.maxInlineLen
  have frame := bounded.maxFrameLen
  have header := header_bounded
  unfold maximumFirstLineSize
  split <;> omega

theorem readCommand_first {limits : RESPReadLimits} {firstByte : UInt8} {rest : Bytes}
    {reader : Reader UInt8} (begins : reader.stream = firstByte :: rest) :
    ∃ next : Reader UInt8, next.stream = firstByte :: rest ∧ next.closed = reader.closed ∧
      readCommandWithLimits limits reader = readCommandFrom limits firstByte next := by
  obtain ⟨next, filled, some_left, same⟩ := @fillBuf_ready UInt8 IoError reader (by rw [begins]; simp)
  refine ⟨next, same.stream.trans begins, same.closed, ?_⟩
  rw [readCommandWithLimits, bind_ready filled]
  cases held : next.buffer with
  | nil => exact absurd held some_left
  | cons byte others =>
      have first := same.stream
      rw [begins, Reader.stream, held, List.cons_append] at first
      rw [(List.cons.inj first).1]

theorem Follows.map {α β γ : Type} {input : Bytes} {found : Except IoError (Option (α × Nat))}
    {result : α → Nat → β} {start : Nat} {reading : Reading UInt8 IoError β}
    (follows : Follows input found result start reading) (change : β → γ) :
    Follows input found (fun value finish => change (result value finish)) start
      (reading >>= fun value => pure (change value)) := by
  unfold Follows at *
  split
  next =>
    intro more reader begins
    obtain ⟨failure, after, failed⟩ := follows more reader begins
    exact ⟨failure, after, bind_failed failed⟩
  next =>
    refine ⟨follows.1, ?_⟩
    intro more reader begins
    obtain ⟨after, returned, left, closed⟩ := follows.2 more reader begins
    exact ⟨after, bind_ready returned, left, closed⟩
  next =>
    intro reader begins
    obtain ⟨waits, ends⟩ := follows reader begins
    refine ⟨fun waiting => bind_pending (waits waiting), ?_⟩
    intro ended
    obtain ⟨failure, after, failed⟩ := ends ended
    exact ⟨failure, after, bind_failed failed⟩

/-- On an input that has not begun, a reader waits or finds the end. -/
theorem readCommand_nothing {limits : RESPReadLimits} {reader : Reader UInt8} (nothing : reader.stream = []) :
    readCommandWithLimits limits reader =
      if reader.closed then .ready (.ok none) reader else .pending := by
  have filled := @fillBuf_empty UInt8 IoError reader nothing
  cases closed : reader.closed with
  | false =>
      rw [closed] at filled
      exact bind_pending filled
  | true =>
      rw [closed] at filled
      exact bind_ready filled

theorem decodeBufferedCommand_follows {input : Bytes} (begun : input ≠ []) {limits : RESPReadLimits}
    (bounded : limits.Bounded) :
    Follows input (decodeBufferedCommand input limits) (fun command _ => some command) 0
      (readCommandWithLimits limits) := by
  cases input with
  | nil => exact absurd rfl begun
  | cons firstByte rest =>
      have first (more : Bytes) (reader : Reader UInt8)
          (begins : reader.stream = ((firstByte :: rest) ++ more).drop 0) :
          ∃ next : Reader UInt8, next.stream = ((firstByte :: rest) ++ more).drop 0 ∧
            next.closed = reader.closed ∧
            readCommandWithLimits limits reader = readCommandFrom limits firstByte next := by
        rw [List.drop_zero, List.cons_append] at *
        exact readCommand_first begins
      refine Follows.of_move ?_ first
      have room := bounded.firstLine firstByte
      cases line : bufferedLine (firstByte :: rest) (maximumFirstLineSize firstByte limits) with
      | error failure =>
          have refused : decodeBufferedCommand (firstByte :: rest) limits = .error failure := by
            simp only [decodeBufferedCommand, line, bind, Except.bind]
          rw [refused]
          intro more reader begins
          rw [List.drop_zero] at begins
          obtain ⟨after, failed⟩ := readBoundedLine_failed room begins line
          exact ⟨_, after, bind_failed failed⟩
      | ok found =>
          cases found with
          | none =>
              have incomplete : decodeBufferedCommand (firstByte :: rest) limits = .ok none := by
                simp only [decodeBufferedCommand, line, bind, Except.bind, pure, Except.pure]
              rw [incomplete]
              intro reader begins
              rw [List.drop_zero] at begins
              refine ⟨fun waiting => bind_pending (readBoundedLine_pending room begins line waiting), ?_⟩
              intro ended
              obtain ⟨after, returned, absent⟩ := readBoundedLine_ended room begins line ended
              refine ⟨invalidData "RESP line is missing its CRLF terminator", after, ?_⟩
              rw [readCommandFrom, bind_ready returned, if_neg (by simp), readCommandLine]
              by_cases inline : firstByte ≠ 42
              · rw [if_pos inline, inlineCommand, lineContent_unfinished absent]
                rfl
              · rw [if_neg inline, argumentCount, lineContent_unfinished absent]
                rfl
          | some firstLineEnd =>
              obtain ⟨positive, held, _⟩ := bufferedLine_some line
              have length : ((firstByte :: rest).take firstLineEnd).length = firstLineEnd := by
                rw [List.length_take]
                omega
              have moves (more : Bytes) (reader : Reader UInt8)
                  (begins : reader.stream = ((firstByte :: rest) ++ more).drop 0) :
                  ∃ next : Reader UInt8, next.stream = ((firstByte :: rest) ++ more).drop firstLineEnd ∧
                    next.closed = reader.closed ∧ readCommandFrom limits firstByte reader =
                      readCommandLine limits firstByte ((firstByte :: rest).take firstLineEnd) next := by
                rw [List.drop_zero] at begins
                obtain ⟨next, returned, left, closed⟩ := readBoundedLine_ready room begins line
                refine ⟨next, left, closed, ?_⟩
                rw [readCommandFrom, bind_ready returned, length, if_neg (by omega)]
              refine Follows.of_move ?_ moves
              by_cases inline : firstByte ≠ 42
              · have decoded : decodeBufferedCommand (firstByte :: rest) limits =
                    (inlineCommand ((firstByte :: rest).take firstLineEnd) limits).map
                      (fun parts => some (parts, firstLineEnd)) := by
                  simp only [decodeBufferedCommand, line, bind, Except.bind, inline, if_true, ne_eq,
                    not_false_eq_true]
                  cases inlineCommand ((firstByte :: rest).take firstLineEnd) limits <;> rfl
                rw [decoded, readCommandLine, if_pos inline]
                cases inlineCommand ((firstByte :: rest).take firstLineEnd) limits with
                | error failure => exact fun more reader _ => ⟨failure, reader, rfl⟩
                | ok parts => exact ⟨held, fun more reader begins => ⟨reader, rfl, begins, rfl⟩⟩
              · rw [readCommandLine, if_neg inline, length]
                cases announced : argumentCount ((firstByte :: rest).take firstLineEnd) limits with
                | error failure =>
                    have refused : decodeBufferedCommand (firstByte :: rest) limits = .error failure := by
                      simp only [decodeBufferedCommand, line, bind, Except.bind, inline, if_false, announced]
                    rw [refused]
                    exact fun more reader _ => ⟨failure, reader, rfl⟩
                | ok count =>
                    have decoded : decodeBufferedCommand (firstByte :: rest) limits =
                        (decodeArguments (firstByte :: rest) limits count firstLineEnd []).map
                          (Option.map (fun found => (found.1.map (rangeText (firstByte :: rest)), found.2))) := by
                      simp only [decodeBufferedCommand, line, bind, Except.bind, inline, if_false, announced]
                      cases decodeArguments (firstByte :: rest) limits count firstLineEnd [] with
                      | error failure => rfl
                      | ok found => cases found <;> rfl
                    have follows := (decodeArguments_follows (firstByte :: rest) limits count [] held).map
                      (fun command => some command)
                    rw [decoded]
                    cases found : decodeArguments (firstByte :: rest) limits count firstLineEnd [] with
                    | error failure =>
                        rw [found] at follows
                        exact follows
                    | ok result =>
                        rw [found] at follows
                        cases result with
                        | none => exact follows
                        | some pair => exact follows

theorem bind_ok {α β : Type} {first : Except IoError α} {next : α → Except IoError β} {result : β}
    (succeeds : first >>= next = .ok result) : ∃ value, first = .ok value ∧ next value = .ok result := by
  cases first with
  | error failure => cases succeeds
  | ok value => exact ⟨value, rfl, succeeds⟩

theorem checkedAdd_le {message : String} {first second sum : Nat}
    (added : orInvalid message (checkedAdd first second) = .ok sum) : first ≤ sum := by
  unfold checkedAdd at added
  split at added
  · cases added
    omega
  · cases added

theorem decodeArgument_advances {input : Bytes} {limits : RESPReadLimits} {cursor finish : Nat}
    {range : Nat × Nat} (decoded : decodeArgument input limits cursor = .ok (some (range, finish))) :
    cursor ≤ finish := by
  obtain ⟨line, _, decoded⟩ := bind_ok decoded
  cases line with
  | none => cases decoded
  | some header =>
      obtain ⟨bulk, _, decoded⟩ := bind_ok decoded
      obtain ⟨payloadStart, first, decoded⟩ := bind_ok decoded
      obtain ⟨payloadEnd, second, decoded⟩ := bind_ok decoded
      obtain ⟨frameEnd, third, decoded⟩ := bind_ok decoded
      have last : finish = frameEnd := by
        unfold decodePayload at decoded
        split at decoded
        · cases decoded
        · split at decoded
          · cases decoded
          · split at decoded
            · cases decoded
            · split at decoded
              · cases decoded
              · cases decoded
                rfl
      have start := checkedAdd_le first
      have middle := checkedAdd_le second
      have ends := checkedAdd_le third
      omega

theorem decodeArguments_advances {input : Bytes} {limits : RESPReadLimits} {count cursor finish : Nat}
    {ranges found : List (Nat × Nat)}
    (decoded : decodeArguments input limits count cursor ranges = .ok (some (found, finish))) :
    cursor ≤ finish := by
  induction count generalizing cursor ranges with
  | zero =>
      cases decoded
      exact Nat.le_refl _
  | succ count rest =>
      obtain ⟨argument, here, decoded⟩ := bind_ok decoded
      cases argument with
      | none => cases decoded
      | some argument => exact Nat.le_trans (decodeArgument_advances here) (rest decoded)

/-- A command takes something of the input, and no more than there is. -/
theorem decodeBufferedCommand_some {input : Bytes} {limits : RESPReadLimits} {command : List String}
    {length : Nat} (bounded : limits.Bounded)
    (decoded : decodeBufferedCommand input limits = .ok (some (command, length))) :
    0 < length ∧ length ≤ input.length := by
  cases input with
  | nil => cases decoded
  | cons firstByte rest =>
      have follows := decodeBufferedCommand_follows (List.cons_ne_nil firstByte rest) bounded
      rw [decoded] at follows
      refine ⟨?_, follows.1⟩
      obtain ⟨line, complete, decoded⟩ := bind_ok decoded
      cases line with
      | none => cases decoded
      | some firstLineEnd =>
          have positive := (bufferedLine_some complete).1
          by_cases inline : firstByte ≠ 42
          · simp only [inline, ne_eq, not_false_eq_true, if_true] at decoded
            obtain ⟨parts, _, done⟩ := bind_ok decoded
            cases done
            exact positive
          · simp only [inline, if_false] at decoded
            obtain ⟨count, _, decoded⟩ := bind_ok decoded
            obtain ⟨found, arguments, done⟩ := bind_ok decoded
            cases found with
            | none => cases done
            | some pair =>
                cases done
                exact Nat.lt_of_lt_of_le positive (decodeArguments_advances arguments)

/-- What a reader does, by what is found in everything it will see. -/
theorem readCommand_cases {limits : RESPReadLimits} (bounded : limits.Bounded) (reader : Reader UInt8) :
    match decodeBufferedCommand reader.stream limits with
    | .error _ => ∃ failure after, readCommandWithLimits limits reader = .ready (.error failure) after
    | .ok (some (command, length)) => ∃ after,
        readCommandWithLimits limits reader = .ready (.ok (some command)) after ∧
          after.stream = reader.stream.drop length ∧ after.closed = reader.closed
    | .ok none => (reader.closed = false → readCommandWithLimits limits reader = .pending) ∧
        (reader.closed = true →
          (reader.stream = [] ∧ readCommandWithLimits limits reader = .ready (.ok none) reader) ∨
          (reader.stream ≠ [] ∧
            ∃ failure after, readCommandWithLimits limits reader = .ready (.error failure) after)) := by
  by_cases nothing : reader.stream = []
  · have outcome := @readCommand_nothing limits reader nothing
    rw [nothing]
    refine ⟨?_, ?_⟩
    · intro waiting
      rw [outcome, waiting]
      rfl
    · intro ended
      refine Or.inl ⟨rfl, ?_⟩
      rw [outcome, ended]
      rfl
  · have follows := decodeBufferedCommand_follows nothing bounded
    cases decoded : decodeBufferedCommand reader.stream limits with
    | error failure =>
        rw [decoded] at follows
        exact follows [] reader (List.append_nil _).symm
    | ok found =>
        cases found with
        | none =>
            rw [decoded] at follows
            obtain ⟨waits, ends⟩ := follows reader rfl
            exact ⟨waits, fun ended => Or.inr ⟨nothing, ends ended⟩⟩
        | some pair =>
            rw [decoded] at follows
            obtain ⟨after, returned, left, closed⟩ := follows.2 [] reader (List.append_nil _).symm
            rw [List.append_nil] at left
            exact ⟨after, returned, left, closed⟩

/-- A command that is read was complete, and has been taken from the input. -/
theorem readCommand_some {limits : RESPReadLimits} (bounded : limits.Bounded) {reader next : Reader UInt8}
    {command : List String}
    (returned : readCommandWithLimits limits reader = .ready (.ok (some command)) next) :
    ∃ length, decodeBufferedCommand reader.stream limits = .ok (some (command, length)) ∧
      next.stream = reader.stream.drop length ∧ next.closed = reader.closed := by
  have outcome := readCommand_cases bounded reader
  cases decoded : decodeBufferedCommand reader.stream limits with
  | error failure =>
      rw [decoded] at outcome
      obtain ⟨other, after, failed⟩ := outcome
      rw [returned] at failed
      cases failed
  | ok found =>
      cases found with
      | none =>
          rw [decoded] at outcome
          obtain ⟨waits, ends⟩ := outcome
          cases closed : reader.closed with
          | false =>
              rw [waits closed] at returned
              cases returned
          | true =>
              rcases ends closed with ⟨_, ended⟩ | ⟨_, failure, after, failed⟩
              · rw [ended] at returned
                cases returned
              · rw [failed] at returned
                cases returned
      | some pair =>
          obtain ⟨other, length⟩ := pair
          rw [decoded] at outcome
          obtain ⟨after, read, left, closed⟩ := outcome
          rw [read] at returned
          cases returned
          exact ⟨length, rfl, left, closed⟩

end Commands

end OnyxDB.Protocol
