import OnyxDB.Protocol.RespEncoding

/-! The responses of the server and the client that reads them. The server writes a response by recursion
on it; the client reads it with a stack of unfinished arrays, under budgets for depth, elements and
bytes. -/

namespace OnyxDB.Protocol
open OnyxDB.Library.Arrival OnyxDB.Library.Decimal OnyxDB.Engine.Value

section Server

inductive RESPValue where
  | simpleString (text : String)
  | error (text : String)
  | integer (value : Int64)
  | bulkString (text : Option String)
  | array (values : List RESPValue)

/-- An `i64` as `write!` shows it. -/
def integerText (value : Int64) : String :=
  if value.toInt < 0 then String.ofList ('-' :: Nat.toDigits 10 value.toInt.natAbs)
  else String.ofList (Nat.toDigits 10 value.toInt.natAbs)

/-- A line of a kind and a text. -/
def textLine (kind : UInt8) (text : String) : Bytes := kind :: utf8Bytes text ++ crlf

mutual

/-- `encode_into`; the buffer is UTF-8 text. -/
def RESPValue.encodeInto : RESPValue → Bytes → Bytes
  | .simpleString text, buf => buf ++ textLine 43 text
  | .error text, buf => buf ++ textLine 45 text
  | .integer value, buf => buf ++ textLine 58 (integerText value)
  | .bulkString none, buf => buf ++ utf8Bytes "$-1\r\n"
  | .bulkString (some text), buf => buf ++ bulkFrame (utf8Bytes text)
  | .array values, buf => encodeAllInto values (buf ++ headerLine 42 values.length)

/-- The loop over the items of an array. -/
def encodeAllInto : List RESPValue → Bytes → Bytes
  | [], buf => buf
  | value :: values, buf => encodeAllInto values (value.encodeInto buf)

end

end Server

section Client

structure RESPResponseLimits where
  maxDepth : Nat
  maxArrayLen : Nat
  maxTotalElements : Nat
  maxBulkLen : Nat
  maxFrameLen : Nat
  deriving DecidableEq, Repr

def defaultResponseLimits : RESPResponseLimits where
  maxDepth := 64
  maxArrayLen := 1000000
  maxTotalElements := 1000000
  maxBulkLen := 16 * 1024 * 1024
  maxFrameLen := 64 * 1024 * 1024

def maxResponseHeaderSize : Nat := 64 * 1024

inductive RESPResponse where
  | simpleString (text : Bytes)
  | error (text : Bytes)
  | integer (value : Int64)
  | bulkString (text : Option Bytes)
  | array (values : Option (List RESPResponse))

inductive ResponseToken where
  | value (response : RESPResponse)
  | array (length : Nat)

structure ArrayBuilder where
  expected : Nat
  values : List RESPResponse

/-- `strip_prefix('-').unwrap_or(text)`. -/
def withoutMinus : List Char → List Char
  | '-' :: digits => digits
  | digits => digits

def parseSignedDecimal (bytes : Bytes) (field : String) : Except IoError Int64 :=
  match fromUtf8 bytes with
  | none => .error (invalidData field)
  | some text =>
      if text.toList = [] ∨ text.toList = ['-'] ∨
          (utf8Bytes (String.ofList (withoutMinus text.toList))).any (fun byte => !isAsciiDigit byte) then
        .error (invalidData field)
      else
        match parseSigned (2 ^ 63) text.toList with
        | some value => .ok (Int64.ofInt value)
        | none => .error (invalidData field)

def parseResponseLength (bytes : Bytes) (field : String) : Except IoError (Option Nat) :=
  if bytes = utf8Bytes "-1" then .ok none
  else do
    let length ← parseDecimal bytes field
    return some length

def accountFrameBytes (consumed added limit : Nat) : Except IoError Nat := do
  let consumed ← orInvalid "RESP response frame length overflow" (checkedAdd consumed added)
  if consumed > limit then throw (invalidData "RESP response exceeds the protocol limit")
  else return consumed

def saturatingAdd (first second : Nat) : Nat := min (first + second) usizeMax

/-- The payload of a bulk string that has been announced. -/
def readBulkResponse (limits : RESPResponseLimits) (consumed length : Nat) :
    Reading UInt8 IoError (ResponseToken × Nat) :=
  if length > limits.maxBulkLen then
    Reading.fail (invalidData "RESP bulk response exceeds the protocol limit")
  else do
    let consumed ← Reading.lift (accountFrameBytes consumed (saturatingAdd length 2) limits.maxFrameLen)
    let payload ← readExact earlyEof length
    let terminator ← readExact earlyEof 2
    if terminator ≠ crlf then
      Reading.fail (invalidData "RESP bulk response is missing its CRLF terminator")
    else pure (.value (.bulkString (some payload)), consumed)

/-- What a line makes of the prefix and the content of a response. -/
def responseToken (limits : RESPResponseLimits) (consumed : Nat) :
    Bytes → Reading UInt8 IoError (ResponseToken × Nat)
  | [] => Reading.fail (invalidData "RESP response header is empty")
  | kind :: content =>
      if kind = 43 then pure (.value (.simpleString content), consumed)
      else if kind = 45 then pure (.value (.error content), consumed)
      else if kind = 58 then do
        let value ← Reading.lift (parseSignedDecimal content "RESP integer response is invalid")
        pure (.value (.integer value), consumed)
      else if kind = 36 then do
        match ← Reading.lift (parseResponseLength content "RESP bulk response length is invalid") with
        | some length => readBulkResponse limits consumed length
        | none => pure (.value (.bulkString none), consumed)
      else if kind = 42 then do
        match ← Reading.lift (parseResponseLength content "RESP array response length is invalid") with
        | some length =>
            if length > limits.maxArrayLen then
              Reading.fail (invalidData "RESP array response exceeds the protocol limit")
            else pure (.array length, consumed)
        | none => pure (.value (.array none), consumed)
      else Reading.fail (invalidData "RESP response type is unsupported")

/-- What `read_response_token` makes of a line. -/
def readTokenLine (limits : RESPResponseLimits) (consumed : Nat) (line : Bytes) :
    Reading UInt8 IoError (ResponseToken × Nat) := do
  let consumed ← Reading.lift (accountFrameBytes consumed line.length limits.maxFrameLen)
  let content ← Reading.lift (lineContent line)
  responseToken limits consumed content

/-- `read_response_token`: the token, and the bytes of the response that have been read. -/
def readResponseToken (limits : RESPResponseLimits) (consumed : Nat) (root : Bool) :
    Reading UInt8 IoError (Option (ResponseToken × Nat)) := do
  let line ← readBoundedLine (min maxResponseHeaderSize limits.maxFrameLen)
  if line.length = 0 then
    if root then pure none
    else Reading.fail ⟨.unexpectedEof, "RESP response ended before the aggregate was complete"⟩
  else do
    let token ← readTokenLine limits consumed line
    pure (some token)

/-- The inner loop of `read_response`: a value is put into the innermost unfinished array, and an array
that this finishes is the next value. The innermost array is the first of the stack. -/
def completeArrays : RESPResponse → List ArrayBuilder → RESPResponse ⊕ List ArrayBuilder
  | value, [] => .inl value
  | value, builder :: stack =>
      if (builder.values ++ [value]).length < builder.expected then
        .inr (⟨builder.expected, builder.values ++ [value]⟩ :: stack)
      else completeArrays (.array (some (builder.values ++ [value]))) stack

theorem responseHeader_bounded (limits : RESPResponseLimits) :
    min maxResponseHeaderSize limits.maxFrameLen < usizeMax :=
  Nat.lt_of_le_of_lt (Nat.min_le_left _ _) (by decide)

theorem shrinks_readBulkResponse (limits : RESPResponseLimits) (consumed length : Nat) :
    Shrinks (readBulkResponse limits consumed length) := by
  unfold readBulkResponse
  split
  · exact shrinks_lift (.error _)
  · refine (shrinks_lift _).bind (fun _ => (shrinks_readExact _ _).bind (fun _ =>
      (shrinks_readExact _ _).bind (fun _ => ?_)))
    split
    · exact shrinks_lift (.error _)
    · exact shrinks_lift (.ok _)

theorem shrinks_responseToken (limits : RESPResponseLimits) (consumed : Nat) (line : Bytes) :
    Shrinks (responseToken limits consumed line) := by
  cases line with
  | nil => exact shrinks_lift (.error _)
  | cons kind content =>
      rw [responseToken]
      split
      · exact shrinks_lift (.ok _)
      split
      · exact shrinks_lift (.ok _)
      split
      · exact (shrinks_lift _).bind (fun _ => shrinks_lift (.ok _))
      split
      · refine (shrinks_lift _).bind (fun length => ?_)
        cases length with
        | none => exact shrinks_lift (.ok _)
        | some length => exact shrinks_readBulkResponse _ _ _
      split
      · refine (shrinks_lift _).bind (fun length => ?_)
        cases length with
        | none => exact shrinks_lift (.ok _)
        | some length =>
            dsimp only
            split
            · exact shrinks_lift (.error _)
            · exact shrinks_lift (.ok _)
      · exact shrinks_lift (.error _)

/-- A line that never ended is no token. -/
theorem readTokenLine_unfinished {limits : RESPResponseLimits} {consumed : Nat} {line : Bytes}
    (absent : newline ∉ line) (reader : Reader UInt8) :
    ∃ failure, readTokenLine limits consumed line reader = .ready (.error failure) reader := by
  rw [readTokenLine]
  cases accountFrameBytes consumed line.length limits.maxFrameLen with
  | error failure => exact ⟨failure, rfl⟩
  | ok consumed =>
      rw [lift_bind_ok, lineContent_unfinished absent]
      exact ⟨_, rfl⟩

/-- Every token takes something of the input. -/
theorem readResponseToken_shortens {limits : RESPResponseLimits} {consumed : Nat} {root : Bool}
    {reader next : Reader UInt8} {token : ResponseToken × Nat}
    (returned : readResponseToken limits consumed root reader = .ready (.ok (some token)) next) :
    next.stream.length < reader.stream.length := by
  have outcome := readBoundedLineFrom_eq (responseHeader_bounded limits) [] (Nat.zero_le _) reader
  rw [List.length_nil, Nat.sub_zero] at outcome
  change (readBoundedLineFrom (min maxResponseHeaderSize limits.maxFrameLen) [] >>= _) reader = _ at returned
  cases line : bufferedLine reader.stream (min maxResponseHeaderSize limits.maxFrameLen) with
  | error failure =>
      rw [line] at outcome
      obtain ⟨after, failed⟩ := outcome
      rw [bind_failed failed] at returned
      cases returned
  | ok found =>
      cases found with
      | some length =>
          rw [line] at outcome
          obtain ⟨after, complete, left, _⟩ := outcome
          obtain ⟨positive, inside, _⟩ := bufferedLine_some line
          have size : ([] ++ reader.stream.take length).length = length := by
            rw [List.nil_append, List.length_take, Nat.min_eq_left inside]
          rw [bind_ready complete, if_neg (by omega)] at returned
          have shorter : next.stream.length ≤ after.stream.length := by
            have shrinks := ((shrinks_lift _).bind fun consumed => (shrinks_lift _).bind fun content =>
              shrinks_responseToken limits consumed content :
                Shrinks (readTokenLine limits consumed ([] ++ reader.stream.take length))).bind
                  fun token => shrinks_lift (.ok (some token))
            exact shrinks _ _ _ returned
          rw [left, List.length_drop] at shorter
          omega
      | none =>
          rw [line] at outcome
          cases closed : reader.closed with
          | false =>
              rw [bind_pending (outcome.1 closed)] at returned
              cases returned
          | true =>
              obtain ⟨after, complete, absent⟩ :=
                readBoundedLine_ended (responseHeader_bounded limits) rfl line closed
              rw [readBoundedLine] at complete
              rw [bind_ready complete] at returned
              split at returned
              · split at returned <;> cases returned
              · obtain ⟨failure, failed⟩ := @readTokenLine_unfinished limits consumed _ absent after
                rw [bind_failed failed] at returned
                cases returned

set_option linter.unusedVariables false in
/-- The outer loop of `read_response`. -/
def readResponseFrom (limits : RESPResponseLimits) (consumed totalElements : Nat) (stack : List ArrayBuilder) :
    Reading UInt8 IoError (Option RESPResponse) := fun reader =>
  match token : readResponseToken limits consumed (stack.isEmpty && consumed == 0) reader with
  | .pending => .pending
  | .ready (.error error) next => .ready (.error error) next
  | .ready (.ok none) next => .ready (.ok none) next
  | .ready (.ok (some (.value value, consumed))) next =>
      match completeArrays value stack with
      | .inl value => .ready (.ok (some value)) next
      | .inr stack => readResponseFrom limits consumed totalElements stack next
  | .ready (.ok (some (.array 0, consumed))) next =>
      match completeArrays (.array (some [])) stack with
      | .inl value => .ready (.ok (some value)) next
      | .inr stack => readResponseFrom limits consumed totalElements stack next
  | .ready (.ok (some (.array (expected + 1), consumed))) next =>
      if stack.length ≥ limits.maxDepth then
        .ready (.error (invalidData "RESP response nesting exceeds the protocol limit")) next
      else
        match checkedAdd totalElements (expected + 1) with
        | none => .ready (.error (invalidData "RESP response element count overflow")) next
        | some totalElements =>
            if totalElements > limits.maxTotalElements then
              .ready (.error (invalidData "RESP response element count exceeds the protocol limit")) next
            else readResponseFrom limits consumed totalElements (⟨expected + 1, []⟩ :: stack) next
termination_by reader => reader.stream.length
decreasing_by all_goals exact readResponseToken_shortens token

def readResponse (limits : RESPResponseLimits) : Reading UInt8 IoError (Option RESPResponse) :=
  readResponseFrom limits 0 0 []

end Client

end OnyxDB.Protocol
