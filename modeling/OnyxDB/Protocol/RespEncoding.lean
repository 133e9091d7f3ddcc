import OnyxDB.Protocol.RespAgreement

/-! The frames of RESP commands. What the encoder writes, the buffered decoder reads back, whatever
follows it; and a frame that has not arrived as a whole is waited for. -/

namespace OnyxDB.Protocol
open OnyxDB.Library.Decimal OnyxDB.Engine.Value

section Model

/-- A header line: its kind and a length, as `format!` writes them. -/
def headerLine (kind : UInt8) (length : Nat) : Bytes := kind :: digitBytes length ++ crlf

/-- An argument with its header and its terminator. -/
def bulkFrame (argument : Bytes) : Bytes := headerLine 36 argument.length ++ argument ++ crlf

def commandFrame (arguments : List Bytes) : Bytes :=
  headerLine 42 arguments.length ++ arguments.flatMap bulkFrame

def decimalLength (value : Nat) : Nat := (digitBytes value).length

/-- The loop of `encode_command` that adds up the length of the frame. -/
def commandFrameLength (limits : RESPReadLimits) : List Bytes → Nat → Except IoError Nat
  | [], frameLength => .ok frameLength
  | argument :: arguments, frameLength =>
      if argument.length > limits.maxBulkLen then
        .error (invalidData "RESP bulk string exceeds the protocol limit")
      else do
        let frameLength ← orInvalid "RESP frame length overflow"
          (((((checkedAdd frameLength 1).bind (checkedAdd · (decimalLength argument.length))).bind
            (checkedAdd · 2)).bind (checkedAdd · argument.length)).bind (checkedAdd · 2))
        commandFrameLength limits arguments frameLength

/-- `encode_command`; the state is its output. -/
def encodeCommand (arguments : List Bytes) (limits : RESPReadLimits) : EStateM IoError Bytes Unit := do
  if arguments.isEmpty then throw (invalidData "RESP command must not be empty")
  else if arguments.length > limits.maxArrayLen then
    throw (invalidData "RESP command has too many arguments")
  else do
    let headerLength ← liftExcept (orInvalid "RESP frame length overflow"
      ((checkedAdd 1 (decimalLength arguments.length)).bind (checkedAdd · 2)))
    let frameLength ← liftExcept (commandFrameLength limits arguments headerLength)
    if frameLength > limits.maxFrameLen then throw frameTooLong
    else do
      modify (fun output => output ++ headerLine 42 arguments.length)
      arguments.forM (fun argument => modify (fun output => output ++ bulkFrame argument))
where
  liftExcept {α : Type} : Except IoError α → EStateM IoError Bytes α
    | .ok value => pure value
    | .error error => throw error

/-- Commands behind one another in one buffer, as a pipeline writes them. -/
def encodeCommands (limits : RESPReadLimits) : List (List Bytes) → EStateM IoError Bytes Unit
  | [] => pure ()
  | command :: commands => do
      encodeCommand command limits
      encodeCommands limits commands

/-- The buffer holds nothing but frames, and these are the commands in them. -/
inductive Decodes (limits : RESPReadLimits) : Bytes → List (List String) → Prop where
  | nil : Decodes limits [] []
  | cons {input : Bytes} {command : List String} {commands : List (List String)} {length : Nat}
      (first : decodeBufferedCommand input limits = .ok (some (command, length)))
      (rest : Decodes limits (input.drop length) commands) : Decodes limits input (command :: commands)

end Model

section Headers

theorem digitBytes_decimal (value : Nat) : (digitBytes value).any (fun byte => !isAsciiDigit byte) = false := by
  rw [List.any_eq_false]
  intro byte member
  simp [isAsciiDigit, mem_digitBytes member]

/-- One more digit. -/
theorem accumulate_digit {tens digit : Nat} (small : digit < 10) (fits : tens * 10 + digit ≤ usizeMax)
    (field : String) :
    orInvalid field ((checkedMul tens 10).bind
      (fun value => checkedAdd value ((UInt8.ofNat (48 + digit)).toNat - 48))) = .ok (tens * 10 + digit) := by
  have last : (UInt8.ofNat (48 + digit)).toNat - 48 = digit := by
    rw [UInt8.toNat_ofNat']
    omega
  rw [checkedMul, if_pos (by omega), Option.bind_some, last, checkedAdd, if_pos fits]
  rfl

/-- The loop over the digits of a number comes back to the number. -/
theorem foldlM_digitBytes {value : Nat} (fits : value ≤ usizeMax) (field : String) :
    (digitBytes value).foldlM (fun value byte => orInvalid field
      ((checkedMul value 10).bind (fun value => checkedAdd value (byte.toNat - 48)))) 0 = .ok value := by
  induction value using Nat.strongRecOn with
  | ind value smaller =>
      rcases Nat.lt_or_ge value 10 with small | large
      · have only := accumulate_digit (Nat.lt_of_lt_of_le small le_rfl)
          (by omega : 0 * 10 + value ≤ usizeMax) field
        rw [digitBytes_small small, List.foldlM_cons, only, Nat.zero_mul, Nat.zero_add]
        rfl
      · have front := smaller (value / 10) (by omega) (by omega)
        have last := accumulate_digit (Nat.mod_lt value (by decide : 0 < 10))
          (by omega : value / 10 * 10 + value % 10 ≤ usizeMax) field
        rw [digitBytes_large large, List.foldlM_append, front]
        simp only [bind, Except.bind, List.foldlM_cons, last, Nat.div_add_mod']
        rfl

/-- The digits of a number are read back. -/
theorem parseDecimal_digitBytes {value : Nat} (fits : value ≤ usizeMax) (field : String) :
    parseDecimal (digitBytes value) field = .ok value := by
  have nonempty : (digitBytes value).isEmpty = false := by simp [digitBytes_ne_nil]
  rw [parseDecimal, nonempty, digitBytes_decimal, Bool.or_false, if_neg (by simp)]
  exact foldlM_digitBytes fits field

theorem headerLine_length (kind : UInt8) (length : Nat) :
    (headerLine kind length).length = 1 + decimalLength length + 2 := by
  simp only [headerLine, decimalLength, crlf, List.length_append, List.length_cons, List.length_nil]
  omega

/-- The header of any length fits the limit for header lines. -/
theorem headerLine_short {kind : UInt8} {length : Nat} (fits : length ≤ usizeMax) :
    (headerLine kind length).length ≤ maxRespHeaderLineSize := by
  have digits : decimalLength length ≤ 20 := by
    apply digitBytes_length_le (by decide)
    apply Nat.lt_of_le_of_lt fits
    decide
  rw [headerLine_length, maxRespHeaderLineSize]
  omega

theorem newline_not_mem_digitBytes (value : Nat) : newline ∉ digitBytes value := by
  intro member
  exact absurd (mem_digitBytes member).1 (by decide)

section Line
variable {kind : UInt8} {content : Bytes}

/-- The newline of a line is its last byte. -/
theorem line_front (plain : kind ≠ newline) (single : newline ∉ content) :
    kind :: content ++ crlf = (kind :: content ++ [13]) ++ [newline] ∧ newline ∉ kind :: content ++ [13] := by
  refine ⟨by simp [crlf, newline], ?_⟩
  intro member
  simp only [List.cons_append, List.mem_cons, List.mem_append, List.not_mem_nil, or_false] at member
  rcases member with same | inside | carriage
  · exact plain same.symm
  · exact single inside
  · exact absurd carriage (by decide)

/-- A line that has arrived is found. -/
theorem bufferedLine_line (plain : kind ≠ newline) (single : newline ∉ content) {maximumSize : Nat}
    (fits : (kind :: content ++ crlf).length ≤ maximumSize) (rest : Bytes) :
    bufferedLine (kind :: content ++ crlf ++ rest) maximumSize =
      .ok (some (kind :: content ++ crlf).length) := by
  obtain ⟨shape, absent⟩ := line_front plain single
  have size : (kind :: content ++ crlf).length = (kind :: content ++ [13]).length + 1 := by
    rw [shape, List.length_append, List.length_singleton]
  have found : (kind :: content ++ crlf).findIdx? (fun byte => byte == newline) =
      some (kind :: content ++ [13]).length := by
    rw [shape, List.findIdx?_append, findIdx_newline_none.mpr absent]
    simp
  rw [bufferedLine_here found, ← size, if_neg (Nat.not_lt.mpr fits)]

theorem lineContent_line (kind : UInt8) (content : Bytes) :
    lineContent (kind :: content ++ crlf) = .ok (kind :: content) := by
  have ending : crlf.isSuffixOf (kind :: content ++ crlf) = true := by
    rw [List.isSuffixOf_iff_suffix]
    exact List.suffix_append _ _
  have front : (kind :: content ++ crlf).length - crlf.length = (kind :: content).length := by
    rw [List.length_append, Nat.add_sub_cancel]
  rw [lineContent, if_pos ending, front, List.take_left]

end Line

/-- A header that has arrived is a line. -/
theorem bufferedLine_header {kind : UInt8} (plain : kind ≠ newline) {length maximumSize : Nat}
    (fits : (headerLine kind length).length ≤ maximumSize) (rest : Bytes) :
    bufferedLine (headerLine kind length ++ rest) maximumSize =
      .ok (some (headerLine kind length).length) :=
  bufferedLine_line plain (newline_not_mem_digitBytes length) fits rest

/-- A header that has not arrived as a whole is waited for. -/
theorem bufferedLine_part {kind : UInt8} (plain : kind ≠ newline) {length maximumSize : Nat}
    (fits : (headerLine kind length).length ≤ maximumSize) {part : Bytes}
    (begins : part <+: headerLine kind length) (strict : part.length < (headerLine kind length).length) :
    bufferedLine part maximumSize = .ok none := by
  obtain ⟨shape, absent⟩ := line_front plain (newline_not_mem_digitBytes length)
  have inside : part <+: kind :: digitBytes length ++ [13] := by
    rw [headerLine, shape] at begins strict
    rw [List.length_append, List.length_singleton] at strict
    exact List.prefix_of_prefix_length_le begins (List.prefix_append _ _) (by omega)
  have missing : newline ∉ part := fun member => absent (inside.subset member)
  rw [bufferedLine, findIdx_newline_none.mpr missing]
  exact if_neg (by omega)

theorem lineContent_header (kind : UInt8) (length : Nat) :
    lineContent (headerLine kind length) = .ok (kind :: digitBytes length) :=
  lineContent_line kind (digitBytes length)

theorem bulkLength_header {limits : RESPReadLimits} {length : Nat} (fits : length ≤ usizeMax)
    (allowed : length ≤ limits.maxBulkLen) : bulkLength (headerLine 36 length) limits = .ok length := by
  unfold bulkLength
  rw [lineContent_header]
  simp only [bind, Except.bind, stripByte, if_true, orInvalid, parseDecimal_digitBytes fits]
  exact if_neg (Nat.not_lt.mpr allowed)

theorem argumentCount_header {limits : RESPReadLimits} {count : Nat} (fits : count ≤ usizeMax)
    (positive : count ≠ 0) (allowed : count ≤ limits.maxArrayLen) :
    argumentCount (headerLine 42 count) limits = .ok count := by
  unfold argumentCount
  rw [lineContent_header]
  simp only [bind, Except.bind, stripByte, if_true, orInvalid, parseDecimal_digitBytes fits]
  rw [if_neg positive]
  exact if_neg (Nat.not_lt.mpr allowed)

end Headers

section Arguments

theorem slice_middle (front middle rest : Bytes) :
    slice (front ++ middle ++ rest) front.length (front.length + middle.length) = middle := by
  rw [slice, ← List.length_append, List.take_left, List.drop_left]

theorem fromUtf8_utf8Bytes (text : String) : fromUtf8 (utf8Bytes text) = some text := by
  rw [fromUtf8, utf8Bytes, decodeUtf8_encode, Option.map_some, String.ofList_toList]

theorem bulkFrame_length (argument : Bytes) :
    (bulkFrame argument).length = (headerLine 36 argument.length).length + argument.length + 2 := by
  rw [bulkFrame, List.length_append, List.length_append]
  rfl

variable {limits : RESPReadLimits} {input : Bytes}

/-- After a header the payload is looked at. -/
theorem decodeArgument_header {cursor length : Nat} {tail : Bytes}
    (here : input.drop cursor = headerLine 36 length ++ tail) (allowed : length ≤ limits.maxBulkLen)
    (fits : cursor + (headerLine 36 length).length + length + 2 ≤ usizeMax) :
    decodeArgument input limits cursor = decodePayload input limits
      (cursor + (headerLine 36 length).length) (cursor + (headerLine 36 length).length + length)
      (cursor + (headerLine 36 length).length + length + 2) := by
  have small : length ≤ usizeMax := by omega
  have line := bufferedLine_header (by decide : (36 : UInt8) ≠ newline) (headerLine_short small) tail
  unfold decodeArgument
  simp only [here, line, bind, Except.bind, List.take_left, bulkLength_header small allowed]
  rw [checkedAdd_some (by omega)]
  simp only [orInvalid]
  rw [checkedAdd_some (by omega)]
  simp only
  rw [checkedAdd_some fits]

/-- An argument that has arrived is read back. -/
theorem decodeArgument_frame {front rest : Bytes} {text : String}
    (shape : input = front ++ bulkFrame (utf8Bytes text) ++ rest)
    (allowed : (utf8Bytes text).length ≤ limits.maxBulkLen)
    (within : front.length + (bulkFrame (utf8Bytes text)).length ≤ limits.maxFrameLen)
    (fits : front.length + (bulkFrame (utf8Bytes text)).length ≤ usizeMax) :
    ∃ range, decodeArgument input limits front.length =
        .ok (some (range, front.length + (bulkFrame (utf8Bytes text)).length)) ∧
      rangeText input range = text := by
  have size := bulkFrame_length (utf8Bytes text)
  have here : input.drop front.length =
      headerLine 36 (utf8Bytes text).length ++ (utf8Bytes text ++ crlf ++ rest) := by
    rw [shape, List.append_assoc, List.drop_left, bulkFrame]
    simp only [List.append_assoc]
  have payload := slice_middle (front ++ headerLine 36 (utf8Bytes text).length) (utf8Bytes text) (crlf ++ rest)
  have terminator := slice_middle (front ++ headerLine 36 (utf8Bytes text).length ++ utf8Bytes text) crlf rest
  have whole : front ++ headerLine 36 (utf8Bytes text).length ++ utf8Bytes text ++ crlf ++ rest = input := by
    rw [shape, bulkFrame]
    simp only [List.append_assoc]
  have total : input.length = front.length + (bulkFrame (utf8Bytes text)).length + rest.length := by
    rw [shape, List.length_append, List.length_append]
  rw [← List.append_assoc, whole, List.length_append] at payload
  rw [whole, List.length_append, List.length_append, show crlf.length = 2 from rfl] at terminator
  refine ⟨(front.length + (headerLine 36 (utf8Bytes text).length).length,
    front.length + (headerLine 36 (utf8Bytes text).length).length + (utf8Bytes text).length), ?_, ?_⟩
  · rw [decodeArgument_header here allowed (by omega), decodePayload, if_neg (by omega), if_neg (by omega),
      if_neg (not_not_intro terminator), payload, fromUtf8_utf8Bytes, if_neg (by simp), size]
    simp only [Nat.add_assoc]
  · rw [rangeText, payload, fromUtf8_utf8Bytes, Option.getD_some]

/-- An argument that has not arrived as a whole is waited for. -/
theorem decodeArgument_part {front part argument : Bytes} (shape : input = front ++ part)
    (begins : part <+: bulkFrame argument) (strict : part.length < (bulkFrame argument).length)
    (allowed : argument.length ≤ limits.maxBulkLen)
    (within : front.length + (bulkFrame argument).length ≤ limits.maxFrameLen)
    (fits : front.length + (bulkFrame argument).length ≤ usizeMax) :
    decodeArgument input limits front.length = .ok none := by
  have size := bulkFrame_length argument
  have small : argument.length ≤ usizeMax := by omega
  have here : input.drop front.length = part := by rw [shape, List.drop_left]
  have total : input.length = front.length + part.length := by rw [shape, List.length_append]
  have header : headerLine 36 argument.length <+: bulkFrame argument := by
    rw [bulkFrame, List.append_assoc]
    exact List.prefix_append _ _
  rcases Nat.lt_or_ge part.length (headerLine 36 argument.length).length with short | long
  · have inside := List.prefix_of_prefix_length_le begins header (Nat.le_of_lt short)
    have line := bufferedLine_part (by decide : (36 : UInt8) ≠ newline) (headerLine_short small) inside short
    unfold decodeArgument
    simp only [here, line, bind, Except.bind]
    rfl
  · obtain ⟨tail, rfl⟩ := List.prefix_of_prefix_length_le header begins long
    rw [decodeArgument_header here allowed (by omega), decodePayload, if_neg (by omega),
      if_pos (by omega)]

/-- The frames of the arguments of a command, behind one another. -/
abbrev argumentFrames (texts : List String) : Bytes := (texts.map utf8Bytes).flatMap bulkFrame

theorem argumentFrames_cons (text : String) (texts : List String) :
    argumentFrames (text :: texts) = bulkFrame (utf8Bytes text) ++ argumentFrames texts := by
  rw [argumentFrames, List.map_cons, List.flatMap_cons]

theorem decodeArguments_frames {texts : List String} {front rest : Bytes}
    (shape : input = front ++ argumentFrames texts ++ rest)
    (allowed : ∀ text ∈ texts, (utf8Bytes text).length ≤ limits.maxBulkLen)
    (within : front.length + (argumentFrames texts).length ≤ limits.maxFrameLen)
    (fits : front.length + (argumentFrames texts).length ≤ usizeMax) (ranges : List (Nat × Nat)) :
    ∃ found, decodeArguments input limits texts.length front.length ranges =
        .ok (some (ranges ++ found, front.length + (argumentFrames texts).length)) ∧
      found.map (rangeText input) = texts := by
  induction texts generalizing front ranges with
  | nil => exact ⟨[], by simp [decodeArguments, argumentFrames], rfl⟩
  | cons text texts following =>
      rw [argumentFrames_cons] at shape within fits ⊢
      rw [List.length_append] at within fits ⊢
      have first : input = front ++ bulkFrame (utf8Bytes text) ++ (argumentFrames texts ++ rest) := by
        rw [shape]
        simp only [List.append_assoc]
      obtain ⟨range, decoded, here⟩ := decodeArgument_frame first (allowed text List.mem_cons_self)
        (by omega) (by omega)
      have moved : input = (front ++ bulkFrame (utf8Bytes text)) ++ argumentFrames texts ++ rest := by
        rw [shape]
        simp only [List.append_assoc]
      have later := @following (front ++ bulkFrame (utf8Bytes text)) moved
        (fun other member => allowed other (List.mem_cons_of_mem _ member))
      rw [List.length_append] at later
      obtain ⟨found, decodedRest, texts_eq⟩ := later (by omega) (by omega) (ranges ++ [range])
      refine ⟨range :: found, ?_, by rw [List.map_cons, here, texts_eq]⟩
      rw [List.length_cons, decodeArguments, decoded]
      simp only [bind, Except.bind]
      rw [decodedRest, List.append_assoc, Nat.add_assoc]
      rfl

theorem decodeArguments_part {texts : List String} {front part : Bytes} (shape : input = front ++ part)
    (begins : part <+: argumentFrames texts) (strict : part.length < (argumentFrames texts).length)
    (allowed : ∀ text ∈ texts, (utf8Bytes text).length ≤ limits.maxBulkLen)
    (within : front.length + (argumentFrames texts).length ≤ limits.maxFrameLen)
    (fits : front.length + (argumentFrames texts).length ≤ usizeMax) (ranges : List (Nat × Nat)) :
    decodeArguments input limits texts.length front.length ranges = .ok none := by
  induction texts generalizing front part ranges with
  | nil => cases strict
  | cons text texts following =>
      rw [argumentFrames_cons] at begins strict within fits
      rw [List.length_append] at strict within fits
      have permitted := allowed text List.mem_cons_self
      rw [List.length_cons, decodeArguments]
      rcases Nat.lt_or_ge part.length (bulkFrame (utf8Bytes text)).length with short | long
      · have inside := List.prefix_of_prefix_length_le begins (List.prefix_append _ _) (Nat.le_of_lt short)
        rw [decodeArgument_part shape inside short permitted (by omega) (by omega)]
        rfl
      · obtain ⟨piece, rfl⟩ := List.prefix_of_prefix_length_le (List.prefix_append _ _) begins long
        rw [List.length_append] at strict
        have first : input = front ++ bulkFrame (utf8Bytes text) ++ piece := by
          rw [shape, List.append_assoc]
        obtain ⟨range, decoded, _⟩ := decodeArgument_frame first permitted (by omega) (by omega)
        have later := @following (front ++ bulkFrame (utf8Bytes text)) piece first
          ((List.prefix_append_right_inj _).mp begins) (by omega)
          (fun other member => allowed other (List.mem_cons_of_mem _ member))
        rw [List.length_append] at later
        rw [decoded]
        simp only [bind, Except.bind]
        exact later (by omega) (by omega) _

end Arguments

section RoundTrip
variable {limits : RESPReadLimits}

/-- What the encoder has checked of a command. -/
structure Framed (texts : List String) (limits : RESPReadLimits) : Prop where
  some_left : texts ≠ []
  count : texts.length ≤ limits.maxArrayLen
  allowed : ∀ text ∈ texts, (utf8Bytes text).length ≤ limits.maxBulkLen
  within : (commandFrame (texts.map utf8Bytes)).length ≤ limits.maxFrameLen
  fits : (commandFrame (texts.map utf8Bytes)).length ≤ usizeMax

theorem length_le_flatMap_bulkFrame (arguments : List Bytes) :
    arguments.length ≤ (arguments.flatMap bulkFrame).length := by
  induction arguments with
  | nil => exact Nat.le_refl _
  | cons argument arguments shorter =>
      have size := bulkFrame_length argument
      rw [List.flatMap_cons, List.length_append, List.length_cons]
      omega

theorem commandFrame_length (arguments : List Bytes) : (commandFrame arguments).length =
    (headerLine 42 arguments.length).length + (arguments.flatMap bulkFrame).length := by
  rw [commandFrame, List.length_append]

/-- The sums of the encoder come to the length of the frame. -/
theorem commandFrameLength_ok {arguments : List Bytes} {start total : Nat}
    (summed : commandFrameLength limits arguments start = .ok total) :
    total = start + (arguments.flatMap bulkFrame).length ∧
      (∀ argument ∈ arguments, argument.length ≤ limits.maxBulkLen) ∧ (arguments ≠ [] → total ≤ usizeMax) := by
  induction arguments generalizing start with
  | nil =>
      cases summed
      simp
  | cons argument arguments following =>
      unfold commandFrameLength at summed
      split at summed
      · cases summed
      next allowed =>
        obtain ⟨middle, added, summed⟩ := bind_ok summed
        have sum : middle = start + (bulkFrame argument).length ∧ middle ≤ usizeMax := by
          simp only [checkedAdd, orInvalid] at added
          split at added
          next value found =>
            cases added
            simp only [Option.bind_eq_some_iff, Option.ite_none_right_eq_some, Option.some.injEq] at found
            obtain ⟨_, ⟨_, ⟨_, ⟨_, ⟨_, rfl⟩, _, rfl⟩, _, rfl⟩, _, rfl⟩, fits, rfl⟩ := found
            rw [bulkFrame_length, headerLine_length]
            omega
          next => cases added
        obtain ⟨total_eq, rest, bounded⟩ := following summed
        refine ⟨?_, ?_, ?_⟩
        · rw [List.flatMap_cons, List.length_append]
          omega
        · intro other member
          rcases List.mem_cons.mp member with rfl | later
          · omega
          · exact rest other later
        · intro _
          cases arguments with
          | nil =>
              cases summed
              exact sum.2
          | cons next arguments => exact bounded (by simp)

theorem forM_append (arguments : List Bytes) (output : Bytes) :
    (arguments.forM (fun argument => modify (fun output => output ++ bulkFrame argument)) :
      EStateM IoError Bytes Unit) output = .ok () (output ++ arguments.flatMap bulkFrame) := by
  induction arguments generalizing output with
  | nil =>
      rw [List.flatMap_nil, List.append_nil]
      rfl
  | cons argument arguments following =>
      rw [List.flatMap_cons, ← List.append_assoc, ← following]
      rfl

/-- The encoder writes the frame of the command, or fails and writes nothing. -/
theorem encodeCommand_cases (texts : List String) (limits : RESPReadLimits) (output : Bytes) :
    (∃ error, encodeCommand (texts.map utf8Bytes) limits output = .error error output) ∨
      (encodeCommand (texts.map utf8Bytes) limits output =
        .ok () (output ++ commandFrame (texts.map utf8Bytes)) ∧ Framed texts limits) := by
  by_cases empty : texts = []
  · subst empty
    exact Or.inl ⟨_, rfl⟩
  have filled : (texts.map utf8Bytes).isEmpty = false := by simp [empty]
  unfold encodeCommand
  rw [filled, if_neg (by simp)]
  by_cases many : (texts.map utf8Bytes).length > limits.maxArrayLen
  · rw [if_pos many]
    exact Or.inl ⟨_, rfl⟩
  rw [if_neg many]
  simp only [bind, EStateM.bind]
  cases begun : orInvalid "RESP frame length overflow"
      ((checkedAdd 1 (decimalLength (texts.map utf8Bytes).length)).bind (checkedAdd · 2)) with
  | error error => exact Or.inl ⟨error, rfl⟩
  | ok header =>
      simp only [encodeCommand.liftExcept, pure, EStateM.pure]
      cases summed : commandFrameLength limits (texts.map utf8Bytes) header with
      | error error => exact Or.inl ⟨error, rfl⟩
      | ok total =>
          simp only [EStateM.pure]
          by_cases long : total > limits.maxFrameLen
          · rw [if_pos long]
            exact Or.inl ⟨_, rfl⟩
          rw [if_neg long]
          refine Or.inr ⟨?_, ?_⟩
          · show (List.forM _ _ : EStateM IoError Bytes Unit) (output ++ headerLine 42 _) = _
            rw [forM_append, commandFrame, List.append_assoc]
          · obtain ⟨total_eq, allowed, bounded⟩ := commandFrameLength_ok summed
            have start : header = (headerLine 42 (texts.map utf8Bytes).length).length := by
              simp only [checkedAdd, orInvalid] at begun
              split at begun
              next value found =>
                cases begun
                simp only [Option.bind_eq_some_iff, Option.ite_none_right_eq_some,
                  Option.some.injEq] at found
                obtain ⟨_, ⟨_, rfl⟩, _, rfl⟩ := found
                rw [headerLine_length]
              next => cases begun
            have size := commandFrame_length (texts.map utf8Bytes)
            have fits := bounded (by simp [empty])
            refine ⟨empty, ?_, ?_, by omega, by omega⟩
            · rw [List.length_map] at many
              omega
            · intro text member
              exact allowed _ (List.mem_map_of_mem member)

variable {texts : List String}

theorem Framed.count_fits (framed : Framed texts limits) : (texts.map utf8Bytes).length ≤ usizeMax := by
  have fits := framed.fits
  have size := commandFrame_length (texts.map utf8Bytes)
  have below := length_le_flatMap_bulkFrame (texts.map utf8Bytes)
  omega

theorem Framed.header_fits (framed : Framed texts limits) :
    (headerLine 42 (texts.map utf8Bytes).length).length ≤ maximumFirstLineSize 42 limits := by
  have short := @headerLine_short 42 _ framed.count_fits
  have within := framed.within
  rw [commandFrame_length] at within
  rw [maximumFirstLineSize, if_pos rfl]
  omega

/-- What the buffered decoder does once it has the header of a command. -/
theorem Framed.decodes_header (framed : Framed texts limits) (tail : Bytes) :
    decodeBufferedCommand (headerLine 42 (texts.map utf8Bytes).length ++ tail) limits =
      (decodeArguments (headerLine 42 (texts.map utf8Bytes).length ++ tail) limits texts.length
        (headerLine 42 (texts.map utf8Bytes).length).length []).map (Option.map fun found =>
          (found.1.map (rangeText (headerLine 42 (texts.map utf8Bytes).length ++ tail)), found.2)) := by
  have some_left : texts.length ≠ 0 := by
    intro none_left
    exact framed.some_left (List.length_eq_zero_iff.mp none_left)
  have count := @argumentCount_header limits (texts.map utf8Bytes).length framed.count_fits
    (by rw [List.length_map]; exact some_left) (by rw [List.length_map]; exact framed.count)
  have line := bufferedLine_header (by decide : (42 : UInt8) ≠ newline) framed.header_fits tail
  have first : headerLine 42 (texts.map utf8Bytes).length ++ tail =
      42 :: (digitBytes (texts.map utf8Bytes).length ++ crlf ++ tail) := rfl
  unfold decodeBufferedCommand
  rw [first]
  simp only
  rw [← first, line]
  simp only [bind, Except.bind, List.take_left, List.length_map]
  rw [if_neg (by simp)]
  rw [List.length_map] at count
  rw [count]
  simp only
  cases decodeArguments (headerLine 42 texts.length ++ tail) limits texts.length
      (headerLine 42 texts.length).length [] with
  | error error => rfl
  | ok found => cases found <;> rfl

/-- A frame that has arrived is read back, whatever follows it. -/
theorem Framed.decodes (framed : Framed texts limits) (rest : Bytes) :
    decodeBufferedCommand (commandFrame (texts.map utf8Bytes) ++ rest) limits =
      .ok (some (texts, (commandFrame (texts.map utf8Bytes)).length)) := by
  have size : (commandFrame (texts.map utf8Bytes)).length =
      (headerLine 42 (texts.map utf8Bytes).length).length + (argumentFrames texts).length :=
    commandFrame_length _
  have within := framed.within
  have fits := framed.fits
  obtain ⟨found, decoded, texts_eq⟩ := @decodeArguments_frames limits
    (headerLine 42 (texts.map utf8Bytes).length ++ (argumentFrames texts ++ rest)) texts
    (headerLine 42 (texts.map utf8Bytes).length) rest (List.append_assoc _ _ _).symm framed.allowed
    (by omega) (by omega) []
  rw [size, commandFrame, List.append_assoc, framed.decodes_header, decoded, List.nil_append]
  exact congrArg (fun texts => Except.ok (some (texts, _))) texts_eq

/-- A frame that has not arrived as a whole is waited for. -/
theorem Framed.waits (framed : Framed texts limits) {part : Bytes}
    (begins : part <+: commandFrame (texts.map utf8Bytes))
    (strict : part.length < (commandFrame (texts.map utf8Bytes)).length) :
    decodeBufferedCommand part limits = .ok none := by
  have size : (commandFrame (texts.map utf8Bytes)).length =
      (headerLine 42 (texts.map utf8Bytes).length).length + (argumentFrames texts).length :=
    commandFrame_length _
  have within := framed.within
  have fits := framed.fits
  rcases Nat.lt_or_ge part.length (headerLine 42 (texts.map utf8Bytes).length).length with short | long
  · have inside := List.prefix_of_prefix_length_le begins (List.prefix_append _ _) (Nat.le_of_lt short)
    have line := bufferedLine_part (by decide : (42 : UInt8) ≠ newline) framed.header_fits inside short
    cases part with
    | nil => rfl
    | cons first part =>
        obtain rfl : first = 42 := (List.cons_prefix_cons.mp inside).1
        unfold decodeBufferedCommand
        simp only [line, bind, Except.bind]
        rfl
  · obtain ⟨tail, rfl⟩ := List.prefix_of_prefix_length_le (List.prefix_append _ _) begins long
    rw [List.length_append] at strict
    have inside : tail <+: argumentFrames texts := (List.prefix_append_right_inj _).mp begins
    have later := @decodeArguments_part limits _ texts (headerLine 42 (texts.map utf8Bytes).length) tail rfl
      inside (by omega) framed.allowed (by omega) (by omega) []
    rw [framed.decodes_header, later]
    rfl

/-- A pipeline of encoded commands holds the commands, in order. -/
theorem encodeCommands_decodes {commands : List (List String)} {output after : Bytes}
    (encoded : encodeCommands limits (commands.map (List.map utf8Bytes)) output = .ok () after) :
    ∃ frames, after = output ++ frames ∧ Decodes limits frames commands := by
  induction commands generalizing output with
  | nil =>
      cases encoded
      exact ⟨[], (List.append_nil _).symm, .nil⟩
  | cons command commands following =>
      rw [List.map_cons, encodeCommands] at encoded
      simp only [bind, EStateM.bind] at encoded
      rcases encodeCommand_cases command limits output with ⟨error, failed⟩ | ⟨written, framed⟩
      · rw [failed] at encoded
        cases encoded
      · rw [written] at encoded
        obtain ⟨frames, rfl, decodes⟩ := following encoded
        refine ⟨commandFrame (command.map utf8Bytes) ++ frames, List.append_assoc _ _ _,
          .cons (framed.decodes frames) ?_⟩
        rw [List.drop_left]
        exact decodes

/-- What the encoder accepts, the buffered decoder reads back under the same limits. -/
theorem encodeCommand_roundTrips (limits : RESPReadLimits) :
    (∀ (texts : List String) (output : Bytes),
      (∃ error, encodeCommand (texts.map utf8Bytes) limits output = .error error output) ∨
      ∃ frame, encodeCommand (texts.map utf8Bytes) limits output = .ok () (output ++ frame) ∧
        (∀ rest, decodeBufferedCommand (frame ++ rest) limits = .ok (some (texts, frame.length))) ∧
        ∀ part, part <+: frame → part ≠ frame → decodeBufferedCommand part limits = .ok none) ∧
    ∀ (commands : List (List String)) (frames : Bytes),
      encodeCommands limits (commands.map (List.map utf8Bytes)) [] = .ok () frames →
        Decodes limits frames commands := by
  refine ⟨?_, ?_⟩
  · intro texts output
    rcases encodeCommand_cases texts limits output with failed | ⟨written, framed⟩
    · exact Or.inl failed
    · refine Or.inr ⟨_, written, framed.decodes, ?_⟩
      intro part begins differs
      apply framed.waits begins
      apply Nat.lt_of_le_of_ne begins.length_le
      intro same
      exact differs (begins.eq_of_length same)
  · intro commands frames encoded
    obtain ⟨written, rfl, decodes⟩ := encodeCommands_decodes encoded
    exact decodes

/-- Two commands of a pipeline, the second with an argument that holds a line end. -/
theorem pipelined_set_decodes :
    ∃ frames, encodeCommands clientRespLimits
        ([["PING"], ["SET", "k", "\r\n"]].map (List.map utf8Bytes)) [] = .ok () frames ∧
      Decodes clientRespLimits frames [["PING"], ["SET", "k", "\r\n"]] :=
  ⟨_, rfl, (encodeCommand_roundTrips clientRespLimits).2 _ _ rfl⟩

end RoundTrip

end OnyxDB.Protocol
