import OnyxDB.Engine.Value
import OnyxDB.Library.Arrival
import OnyxDB.Library.Decimal

/-! The two decoders of RESP commands: one looks at a buffer and never waits, the other reads from a
connection. Sizes are `usize` of 64 bits. -/

namespace OnyxDB.Protocol
open OnyxDB.Library.Arrival OnyxDB.Library.Decimal OnyxDB.Engine.Value

def usizeMax : Nat := 2 ^ 64 - 1

def checkedAdd (first second : Nat) : Option Nat :=
  if first + second ≤ usizeMax then some (first + second) else none

def checkedMul (first second : Nat) : Option Nat :=
  if first * second ≤ usizeMax then some (first * second) else none

def checkedSub (first second : Nat) : Option Nat :=
  if second ≤ first then some (first - second) else none

def maxRespHeaderLineSize : Nat := 64

structure RESPReadLimits where
  maxArrayLen : Nat
  maxBulkLen : Nat
  maxInlineLen : Nat
  maxFrameLen : Nat
  deriving DecidableEq, Repr

def clientRespLimits : RESPReadLimits where
  maxArrayLen := 1024
  maxBulkLen := 8 * 1024 * 1024
  maxInlineLen := 64 * 1024
  maxFrameLen := 16 * 1024 * 1024

inductive ErrorKind where
  | invalidData
  | unexpectedEof
  deriving DecidableEq, Repr

structure IoError where
  kind : ErrorKind
  message : String
  deriving DecidableEq, Repr

def invalidData (message : String) : IoError := ⟨.invalidData, message⟩

/-- `ok_or_else` with a message of the protocol. -/
def orInvalid {α : Type} (message : String) : Option α → Except IoError α
  | some value => .ok value
  | none => .error (invalidData message)

def newline : UInt8 := 10

def crlf : Bytes := [13, 10]

def lineTooLong : String := "RESP line exceeds the protocol limit"

/-- The bytes of `available` up to and with the first newline, or all of them. -/
def lineLength (available : Bytes) : Nat :=
  match available.findIdx? (fun byte => byte == newline) with
  | some position => position + 1
  | none => available.length

theorem lineLength_pos {available : Bytes} (some_left : available ≠ []) : 0 < lineLength available := by
  unfold lineLength
  split
  · exact Nat.succ_pos _
  · exact List.length_pos_iff.mpr some_left

set_option linter.unusedVariables false in
/-- The loop of `read_bounded_line`; `scratch` is what it has read. -/
def readBoundedLineFrom (maximumSize : Nat) (scratch : Bytes) : Reading UInt8 IoError Bytes := fun reader =>
  match filled : (fillBuf : Reading UInt8 IoError Bytes) reader with
  | .pending => .pending
  | .ready (.error error) next => .ready (.error error) next
  | .ready (.ok available) next =>
      if nothing : available = [] then .ready (.ok scratch) next
      else
        match room : (checkedAdd maximumSize 1).bind (checkedSub · scratch.length) with
        | none => .ready (.error (invalidData lineTooLong)) next
        | some remaining =>
            let copied := min (lineLength available) remaining
            if tooLong : (scratch ++ available.take copied).length > maximumSize then
              .ready (.error (invalidData lineTooLong)) (next.consume copied)
            else if copied = lineLength available ∧
                (scratch ++ available.take copied).getLast? = some newline then
              .ready (.ok (scratch ++ available.take copied)) (next.consume copied)
            else readBoundedLineFrom maximumSize (scratch ++ available.take copied) (next.consume copied)
termination_by reader => reader.stream.length
decreasing_by
  apply consume_shortens filled nothing
  have long := lineLength_pos nothing
  have positive : 0 < remaining := by
    by_contra exhausted
    simp only [checkedAdd, checkedSub, Option.bind_eq_some_iff, Option.ite_none_right_eq_some,
      Option.some.injEq] at room
    obtain ⟨limit, ⟨_, rfl⟩, _, rfl⟩ := room
    rw [List.length_append] at tooLong
    omega
  exact lt_min long positive

def readBoundedLine (maximumSize : Nat) : Reading UInt8 IoError Bytes := readBoundedLineFrom maximumSize []

def lineContent (line : Bytes) : Except IoError Bytes :=
  if crlf.isSuffixOf line then .ok (line.take (line.length - crlf.length))
  else .error (invalidData "RESP line is missing its CRLF terminator")

def isAsciiDigit (byte : UInt8) : Bool := decide (48 ≤ byte ∧ byte ≤ 57)

def parseDecimal (bytes : Bytes) (field : String) : Except IoError Nat :=
  if bytes.isEmpty || bytes.any (fun byte => !isAsciiDigit byte) then .error (invalidData field)
  else
    bytes.foldlM (fun value byte => orInvalid field
      ((checkedMul value 10).bind (fun value => checkedAdd value (byte.toNat - 48)))) 0

/-- `strip_prefix` of one byte. -/
def stripByte (first : UInt8) : Bytes → Option Bytes
  | byte :: rest => if byte = first then some rest else none
  | [] => none

/-- `str::from_utf8`. -/
def fromUtf8 (bytes : Bytes) : Option String := (decodeUtf8 bytes).map String.ofList

def isAsciiWhitespace (char : Char) : Bool :=
  char == ' ' || char == '\t' || char == '\n' || char == '\x0c' || char == '\r'

def splitAsciiWhitespace (text : String) : List String :=
  ((text.toList.splitOnP isAsciiWhitespace).filter (fun part => !part.isEmpty)).map String.ofList

def maximumFirstLineSize (firstByte : UInt8) (limits : RESPReadLimits) : Nat :=
  if firstByte = 42 then min maxRespHeaderLineSize limits.maxFrameLen
  else min limits.maxInlineLen limits.maxFrameLen

/-- The command on an inline line, as both decoders read it. -/
def inlineCommand (line : Bytes) (limits : RESPReadLimits) : Except IoError (List String) := do
  let content ← lineContent line
  let inlineText ← orInvalid "RESP inline command is not valid UTF-8" (fromUtf8 content)
  let parts := splitAsciiWhitespace inlineText
  if parts.isEmpty then throw (invalidData "RESP inline command is empty")
  else if parts.length > limits.maxArrayLen then
    throw (invalidData "RESP command has too many arguments")
  else return parts

/-- The number of arguments an array header announces, as both decoders read it. -/
def argumentCount (line : Bytes) (limits : RESPReadLimits) : Except IoError Nat := do
  let content ← lineContent line
  let digits ← orInvalid "RESP array header is malformed" (stripByte 42 content)
  let count ← parseDecimal digits "RESP array length is invalid"
  if count = 0 then throw (invalidData "RESP command array must not be empty")
  else if count > limits.maxArrayLen then throw (invalidData "RESP command has too many arguments")
  else return count

/-- The length a bulk header announces, as both decoders read it. -/
def bulkLength (line : Bytes) (limits : RESPReadLimits) : Except IoError Nat := do
  let content ← lineContent line
  let digits ← orInvalid "RESP command arguments must be bulk strings" (stripByte 36 content)
  let length ← parseDecimal digits "RESP bulk string length is invalid"
  if length > limits.maxBulkLen then
    throw (invalidData "RESP bulk string exceeds the protocol limit")
  else return length

def frameTooLong : IoError := invalidData "RESP frame exceeds the aggregate protocol limit"

def missingTerminator : IoError := invalidData "RESP bulk string is missing its CRLF terminator"

def invalidArgument : String := "RESP command argument is not valid UTF-8"

/-- The length of the first line of `input`, if it is complete. -/
def bufferedLine (input : Bytes) (maximumSize : Nat) : Except IoError (Option Nat) :=
  match input.findIdx? (fun byte => byte == newline) with
  | none => if input.length > maximumSize then .error (invalidData lineTooLong) else .ok none
  | some position =>
      if position + 1 > maximumSize then .error (invalidData lineTooLong) else .ok (some (position + 1))

def slice (input : Bytes) (start finish : Nat) : Bytes := (input.take finish).drop start

/-- The checks on the payload of an argument and on its terminator. -/
def decodePayload (input : Bytes) (limits : RESPReadLimits) (payloadStart payloadEnd frameEnd : Nat) :
    Except IoError (Option ((Nat × Nat) × Nat)) :=
  if frameEnd > limits.maxFrameLen then .error frameTooLong
  else if frameEnd > input.length then .ok none
  else if slice input payloadEnd frameEnd ≠ crlf then .error missingTerminator
  else if (fromUtf8 (slice input payloadStart payloadEnd)).isNone then .error (invalidData invalidArgument)
  else .ok (some ((payloadStart, payloadEnd), frameEnd))

/-- One round of the argument loop of `decode_buffered_command`: the range of the argument at `cursor`
and the end of its frame. -/
def decodeArgument (input : Bytes) (limits : RESPReadLimits) (cursor : Nat) :
    Except IoError (Option ((Nat × Nat) × Nat)) := do
  match ← bufferedLine (input.drop cursor) maxRespHeaderLineSize with
  | none => return none
  | some headerLength =>
      let bulk ← bulkLength ((input.drop cursor).take headerLength) limits
      let payloadStart ← orInvalid "RESP frame length overflow" (checkedAdd cursor headerLength)
      let payloadEnd ← orInvalid "RESP bulk string length overflow" (checkedAdd payloadStart bulk)
      let frameEnd ← orInvalid "RESP bulk string length overflow" (checkedAdd payloadEnd 2)
      decodePayload input limits payloadStart payloadEnd frameEnd

/-- The argument loop of `decode_buffered_command`. -/
def decodeArguments (input : Bytes) (limits : RESPReadLimits) :
    Nat → Nat → List (Nat × Nat) → Except IoError (Option (List (Nat × Nat) × Nat))
  | 0, cursor, ranges => .ok (some (ranges, cursor))
  | count + 1, cursor, ranges => do
      match ← decodeArgument input limits cursor with
      | none => return none
      | some (range, frameEnd) => decodeArguments input limits count frameEnd (ranges ++ [range])

/-- The text of a range; the loop has checked that there is one. -/
def rangeText (input : Bytes) (range : Nat × Nat) : String :=
  (fromUtf8 (slice input range.1 range.2)).getD ""

def decodeBufferedCommand (input : Bytes) (limits : RESPReadLimits) :
    Except IoError (Option (List String × Nat)) :=
  match input with
  | [] => .ok none
  | firstByte :: _ => do
      match ← bufferedLine input (maximumFirstLineSize firstByte limits) with
      | none => return none
      | some firstLineEnd =>
          if firstByte ≠ 42 then do
            let parts ← inlineCommand (input.take firstLineEnd) limits
            return some (parts, firstLineEnd)
          else do
            let count ← argumentCount (input.take firstLineEnd) limits
            match ← decodeArguments input limits count firstLineEnd [] with
            | none => return none
            | some (ranges, cursor) => return some (ranges.map (rangeText input), cursor)

/-- `read_exact` of the connection. -/
def earlyEof : IoError := ⟨.unexpectedEof, "early eof"⟩

/-- Reads the payload of an argument and its terminator. -/
def readPayload (limits : RESPReadLimits) (bulk projectedFrameLength : Nat) :
    Reading UInt8 IoError (String × Nat) :=
  if projectedFrameLength > limits.maxFrameLen then Reading.fail frameTooLong
  else do
    let payload ← readExact earlyEof bulk
    let terminator ← readExact earlyEof 2
    if terminator ≠ crlf then Reading.fail missingTerminator
    else do
      let argument ← Reading.lift (orInvalid invalidArgument (fromUtf8 payload))
      pure (argument, projectedFrameLength)

/-- What follows the header of an argument. -/
def readBulk (limits : RESPReadLimits) (frameLength : Nat) (header : Bytes) :
    Reading UInt8 IoError (String × Nat) := do
  let bulk ← Reading.lift (bulkLength header limits)
  let encodedBulkLength ←
    Reading.lift (orInvalid "RESP bulk string length overflow" (checkedAdd bulk 2))
  let projectedFrameLength ← Reading.lift (orInvalid "RESP frame length overflow"
    ((checkedAdd frameLength header.length).bind (checkedAdd · encodedBulkLength)))
  readPayload limits bulk projectedFrameLength

/-- One round of the argument loop of `read_command_with_limits`: the argument and the length of the
frame up to its end. -/
def readArgument (limits : RESPReadLimits) (frameLength : Nat) : Reading UInt8 IoError (String × Nat) := do
  let header ← readBoundedLine maxRespHeaderLineSize
  if header.length = 0 then
    Reading.fail ⟨.unexpectedEof, "RESP command ended before a bulk string header"⟩
  else readBulk limits frameLength header

/-- The argument loop of `read_command_with_limits`. -/
def readArguments (limits : RESPReadLimits) :
    Nat → Nat → List String → Reading UInt8 IoError (List String)
  | 0, _, command => pure command
  | count + 1, frameLength, command => do
      let (argument, frameLength) ← readArgument limits frameLength
      readArguments limits count frameLength (command ++ [argument])

/-- What `read_command_with_limits` makes of its first line. -/
def readCommandLine (limits : RESPReadLimits) (firstByte : UInt8) (line : Bytes) :
    Reading UInt8 IoError (Option (List String)) :=
  if firstByte ≠ 42 then do
    let parts ← Reading.lift (inlineCommand line limits)
    pure (some parts)
  else do
    let count ← Reading.lift (argumentCount line limits)
    let command ← readArguments limits count line.length []
    pure (some command)

/-- What `read_command_with_limits` does after it has seen the first byte. -/
def readCommandFrom (limits : RESPReadLimits) (firstByte : UInt8) :
    Reading UInt8 IoError (Option (List String)) := do
  let line ← readBoundedLine (maximumFirstLineSize firstByte limits)
  if line.length = 0 then pure none else readCommandLine limits firstByte line

def readCommandWithLimits (limits : RESPReadLimits) : Reading UInt8 IoError (Option (List String)) := do
  match ← fillBuf with
  | [] => pure none
  | firstByte :: _ => readCommandFrom limits firstByte

end OnyxDB.Protocol
