import OnyxDB.Protocol.Response

/-! The client reads what the server has written. A value is read in whatever state the stack of unfinished
arrays is; the stack goes on with the value as if it had been a single token. -/

namespace OnyxDB.Protocol
open OnyxDB.Library.Arrival OnyxDB.Library.Decimal OnyxDB.Engine.Value

section Values

mutual

/-- The response a client sees for a value of the server. -/
def RESPValue.response : RESPValue → RESPResponse
  | .simpleString text => .simpleString (utf8Bytes text)
  | .error text => .error (utf8Bytes text)
  | .integer value => .integer value
  | .bulkString text => .bulkString (text.map utf8Bytes)
  | .array values => .array (some (responses values))

def responses : List RESPValue → List RESPResponse
  | [] => []
  | value :: values => value.response :: responses values

end

mutual

/-- How many arrays that are not empty lie within one another. -/
def RESPValue.depth : RESPValue → Nat
  | .array (value :: values) => depths (value :: values) + 1
  | _ => 0

def depths : List RESPValue → Nat
  | [] => 0
  | value :: values => max value.depth (depths values)

end

mutual

/-- The items of all arrays of a value. -/
def RESPValue.elements : RESPValue → Nat
  | .array values => values.length + elementsOf values
  | _ => 0

def elementsOf : List RESPValue → Nat
  | [] => 0
  | value :: values => value.elements + elementsOf values

end

mutual

/-- Simple texts are single lines that fit a header, bulk strings and arrays are not too long. -/
def RESPValue.Readable (limits : RESPResponseLimits) : RESPValue → Prop
  | .simpleString text => '\n' ∉ text.toList ∧ (textLine 43 text).length ≤ maxResponseHeaderSize
  | .error text => '\n' ∉ text.toList ∧ (textLine 45 text).length ≤ maxResponseHeaderSize
  | .integer _ => True
  | .bulkString none => True
  | .bulkString (some text) => (utf8Bytes text).length ≤ limits.maxBulkLen
  | .array values => values.length ≤ limits.maxArrayLen ∧ AllReadable limits values

def AllReadable (limits : RESPResponseLimits) : List RESPValue → Prop
  | [] => True
  | value :: values => value.Readable limits ∧ AllReadable limits values

end

mutual

/-- What `encode_into` appends. -/
def RESPValue.bytes : RESPValue → Bytes
  | .simpleString text => textLine 43 text
  | .error text => textLine 45 text
  | .integer value => textLine 58 (integerText value)
  | .bulkString none => utf8Bytes "$-1\r\n"
  | .bulkString (some text) => bulkFrame (utf8Bytes text)
  | .array values => headerLine 42 values.length ++ bytesOf values

def bytesOf : List RESPValue → Bytes
  | [] => []
  | value :: values => value.bytes ++ bytesOf values

end

mutual

theorem encodeInto_eq (value : RESPValue) (buf : Bytes) : value.encodeInto buf = buf ++ value.bytes := by
  match value with
  | .simpleString _ => rfl
  | .error _ => rfl
  | .integer _ => rfl
  | .bulkString none => rfl
  | .bulkString (some _) => rfl
  | .array values =>
      rw [RESPValue.encodeInto, encodeAllInto_eq, RESPValue.bytes, List.append_assoc]

theorem encodeAllInto_eq (values : List RESPValue) (buf : Bytes) :
    encodeAllInto values buf = buf ++ bytesOf values := by
  match values with
  | [] => exact (List.append_nil _).symm
  | value :: values =>
      rw [encodeAllInto, encodeAllInto_eq, encodeInto_eq, bytesOf, List.append_assoc]

end

/-- Every budget of the client covers the value. -/
structure RESPValue.Within (value : RESPValue) (limits : RESPResponseLimits) : Prop where
  readable : value.Readable limits
  depth : value.depth ≤ limits.maxDepth
  elements : value.elements ≤ limits.maxTotalElements
  bytes : value.bytes.length ≤ limits.maxFrameLen

/-- The limits are numbers of type `usize`. -/
structure RESPResponseLimits.Bounded (limits : RESPResponseLimits) : Prop where
  maxTotalElements : limits.maxTotalElements ≤ usizeMax
  maxFrameLen : limits.maxFrameLen ≤ usizeMax

end Values

section Lines

theorem newline_not_mem_utf8Bytes {text : String} (single : '\n' ∉ text.toList) : newline ∉ utf8Bytes text := by
  intro member
  obtain ⟨char, listed, encoded⟩ := List.mem_flatMap.mp member
  have same := ascii_of_mem_utf8EncodeChar encoded (by decide)
  have found : char = '\n' := Char.ext (UInt32.toNat_inj.mp same)
  rw [found] at listed
  exact single listed

theorem utf8Bytes_digits (value : Nat) : utf8Bytes (String.ofList (Nat.toDigits 10 value)) = digitBytes value := by
  rw [utf8Bytes, String.toList_ofList, digitBytes]

theorem utf8Bytes_minus (value : Nat) :
    utf8Bytes (String.ofList ('-' :: Nat.toDigits 10 value)) = 45 :: digitBytes value := by
  rw [utf8Bytes, String.toList_ofList, List.flatMap_cons, digitBytes]
  rfl

/-- An integer takes a line of at most 23 bytes. -/
theorem integerText_line (value : Int64) : newline ∉ utf8Bytes (integerText value) ∧
    (utf8Bytes (integerText value)).length ≤ 20 := by
  have low := value.le_toInt
  have high := value.toInt_lt
  have digits : (digitBytes value.toInt.natAbs).length ≤ 19 := by
    apply digitBytes_length_le (by decide)
    omega
  have plain := newline_not_mem_digitBytes value.toInt.natAbs
  unfold integerText
  split
  · rw [utf8Bytes_minus]
    refine ⟨?_, by rw [List.length_cons]; omega⟩
    intro member
    rcases List.mem_cons.mp member with minus | digit
    · exact absurd minus (by decide)
    · exact plain digit
  · rw [utf8Bytes_digits]
    exact ⟨plain, by omega⟩

theorem withoutMinus_digits (value : Nat) : withoutMinus (Nat.toDigits 10 value) = Nat.toDigits 10 value := by
  unfold withoutMinus
  split
  next digits written =>
    have digit := Nat.isDigit_of_mem_toDigits (b := 10) (n := value) (c := '-') (by decide) (by decide)
      (by rw [written]; exact List.mem_cons_self)
    exact absurd digit (by decide)
  · rfl

/-- An integer is read back. -/
theorem parseSignedDecimal_integerText (value : Int64) (field : String) :
    parseSignedDecimal (utf8Bytes (integerText value)) field = .ok value := by
  have low := value.le_toInt
  have high := value.toInt_lt
  have some_left := @Nat.toDigits_ne_nil value.toInt.natAbs 10
  have decimal : ¬ (digitBytes value.toInt.natAbs).any (fun byte => !isAsciiDigit byte) = true := by
    rw [digitBytes_decimal]
    simp
  rw [parseSignedDecimal, fromUtf8_utf8Bytes]
  simp only
  unfold integerText
  by_cases negative : value.toInt < 0
  · have back : -(value.toInt.natAbs : Int) = value.toInt := by omega
    rw [if_pos negative, String.toList_ofList, withoutMinus, utf8Bytes_digits, if_neg (by simp [some_left, decimal]),
      parseSigned_minus (by omega)]
    simp only
    rw [back, Int64.ofInt_toInt]
  · have back : (value.toInt.natAbs : Int) = value.toInt := by omega
    have unsigned : Nat.toDigits 10 value.toInt.natAbs ≠ ['-'] := by
      intro same
      have digit := Nat.isDigit_of_mem_toDigits (b := 10) (n := value.toInt.natAbs) (c := '-') (by decide)
        (by decide) (by rw [same]; exact List.mem_cons_self)
      exact absurd digit (by decide)
    rw [if_neg negative, String.toList_ofList, withoutMinus_digits, utf8Bytes_digits,
      if_neg (by simp [some_left, unsigned, decimal]), parseSigned_toDigits (by omega)]
    simp only
    rw [back, Int64.ofInt_toInt]

theorem parseResponseLength_digits {length : Nat} (fits : length ≤ usizeMax) (field : String) :
    parseResponseLength (digitBytes length) field = .ok (some length) := by
  have unsigned : digitBytes length ≠ utf8Bytes "-1" := by
    intro same
    have minus : (45 : UInt8) ∈ digitBytes length := by
      rw [same]
      decide
    exact absurd (mem_digitBytes minus).1 (by decide)
  rw [parseResponseLength, if_neg unsigned, parseDecimal_digitBytes fits]
  rfl

end Lines

section Tokens
variable {limits : RESPResponseLimits} {consumed : Nat} {reader : Reader UInt8} {rest : Bytes}

theorem accountFrameBytes_within (bounded : limits.Bounded) {added : Nat}
    (within : consumed + added ≤ limits.maxFrameLen) :
    accountFrameBytes consumed added limits.maxFrameLen = .ok (consumed + added) := by
  have frame := bounded.maxFrameLen
  unfold accountFrameBytes
  rw [checkedAdd_some (by omega)]
  simp only [orInvalid, bind, Except.bind]
  rw [if_neg (by omega)]
  rfl

/-- A line that begins the input is looked at. -/
theorem readResponseToken_line (bounded : limits.Bounded) {kind : UInt8} {content : Bytes}
    (plain : kind ≠ newline) (single : newline ∉ content)
    (begins : reader.stream = kind :: content ++ crlf ++ rest)
    (short : (kind :: content ++ crlf).length ≤ maxResponseHeaderSize)
    (within : consumed + (kind :: content ++ crlf).length ≤ limits.maxFrameLen) (root : Bool) :
    ∃ next : Reader UInt8, next.stream = rest ∧ next.closed = reader.closed ∧
      readResponseToken limits consumed root reader =
        (responseToken limits (consumed + (kind :: content ++ crlf).length) (kind :: content) >>=
          fun token => pure (some token)) next := by
  have fits : (kind :: content ++ crlf).length ≤ min maxResponseHeaderSize limits.maxFrameLen := by omega
  have line := bufferedLine_line plain single fits []
  rw [List.append_nil] at line
  obtain ⟨next, read, left, closed⟩ := readBoundedLine_ready (responseHeader_bounded limits) begins line
  rw [List.take_length] at read
  rw [List.drop_left] at left
  refine ⟨next, left, closed, ?_⟩
  change (readBoundedLine (min maxResponseHeaderSize limits.maxFrameLen) >>= _) reader = _
  rw [bind_ready read, if_neg (by simp), readTokenLine, accountFrameBytes_within bounded within, lineContent_line]
  rfl

/-- What the outer loop does with a value. -/
def resume (limits : RESPResponseLimits) (consumed totalElements : Nat) (value : RESPResponse)
    (stack : List ArrayBuilder) : Reading UInt8 IoError (Option RESPResponse) := fun reader =>
  match completeArrays value stack with
  | .inl value => .ready (.ok (some value)) reader
  | .inr stack => readResponseFrom limits consumed totalElements stack reader

variable {totalElements after : Nat} {stack : List ArrayBuilder} {next : Reader UInt8}

theorem readResponseFrom_value {value : RESPResponse}
    (token : readResponseToken limits consumed (stack.isEmpty && consumed == 0) reader =
      .ready (.ok (some (.value value, after))) next) :
    readResponseFrom limits consumed totalElements stack reader =
      resume limits after totalElements value stack next := by
  rw [readResponseFrom]
  split <;> rename_i found <;> rw [token] at found <;> cases found
  rfl

theorem readResponseFrom_empty
    (token : readResponseToken limits consumed (stack.isEmpty && consumed == 0) reader =
      .ready (.ok (some (.array 0, after))) next) :
    readResponseFrom limits consumed totalElements stack reader =
      resume limits after totalElements (.array (some [])) stack next := by
  rw [readResponseFrom]
  split <;> rename_i found <;> rw [token] at found <;> cases found
  rfl

theorem readResponseFrom_array (bounded : limits.Bounded) {length : Nat}
    (token : readResponseToken limits consumed (stack.isEmpty && consumed == 0) reader =
      .ready (.ok (some (.array (length + 1), after))) next)
    (shallow : stack.length < limits.maxDepth)
    (few : totalElements + (length + 1) ≤ limits.maxTotalElements) :
    readResponseFrom limits consumed totalElements stack reader =
      readResponseFrom limits after (totalElements + (length + 1)) (⟨length + 1, []⟩ :: stack) next := by
  have elements := bounded.maxTotalElements
  rw [readResponseFrom]
  split <;> rename_i found <;> rw [token] at found <;> cases found
  rw [if_neg (by omega), checkedAdd_some (by omega)]
  simp only
  rw [if_neg (by omega)]

/-- The lengths of bulk strings and arrays are read back, and a bulk string with its payload. -/
theorem readBulkResponse_within (bounded : limits.Bounded) {text : Bytes}
    (begins : reader.stream = text ++ crlf ++ rest) (allowed : text.length ≤ limits.maxBulkLen)
    (within : consumed + (text.length + 2) ≤ limits.maxFrameLen) :
    ∃ next : Reader UInt8, next.stream = rest ∧ next.closed = reader.closed ∧
      readBulkResponse limits consumed text.length reader =
        .ready (.ok (.value (.bulkString (some text)), consumed + (text.length + 2))) next := by
  have frame := bounded.maxFrameLen
  have sum : saturatingAdd text.length 2 = text.length + 2 := Nat.min_eq_left (by omega)
  have size : reader.stream.length = text.length + 2 + rest.length := by
    rw [begins, List.length_append, List.length_append]
    rfl
  obtain ⟨middle, payload, left, same⟩ := readExact_ready earlyEof (by omega : text.length ≤ reader.stream.length)
  rw [begins, List.append_assoc, List.take_left] at payload
  rw [begins, List.append_assoc, List.drop_left] at left
  obtain ⟨next, terminator, remaining, closed⟩ := readExact_ready earlyEof
    (by rw [left, List.length_append]; exact Nat.le_add_right 2 _ : 2 ≤ middle.stream.length)
  rw [left] at terminator remaining
  refine ⟨next, remaining, closed.trans same, ?_⟩
  rw [readBulkResponse, if_neg (by omega), sum, accountFrameBytes_within bounded within, lift_bind_ok,
    bind_ready payload, bind_ready terminator]
  rfl

end Tokens

section Agreement
variable {limits : RESPResponseLimits}

theorem headerLine_responseHeader {kind : UInt8} {length : Nat} (fits : length ≤ usizeMax) :
    (headerLine kind length).length ≤ maxResponseHeaderSize :=
  Nat.le_trans (headerLine_short fits) (by decide)

theorem length_le_bytesOf (values : List RESPValue) : values.length ≤ (bytesOf values).length := by
  induction values with
  | nil => exact Nat.le_refl _
  | cons value values shorter =>
      have positive : 0 < value.bytes.length := by
        unfold RESPValue.bytes
        split <;> first | simp [textLine, bulkFrame, headerLine] | decide
      rw [bytesOf, List.length_append, List.length_cons]
      omega

/-- A token of a value that is no array. -/
theorem readResponseFrom_line (bounded : limits.Bounded) {kind : UInt8} {content rest : Bytes}
    {value : RESPResponse} (plain : kind ≠ newline) (single : newline ∉ content)
    (short : (kind :: content ++ crlf).length ≤ maxResponseHeaderSize)
    (meaning : ∀ consumed, responseToken limits consumed (kind :: content) =
      pure (.value value, consumed)) (consumed totalElements : Nat) (stack : List ArrayBuilder)
    (reader : Reader UInt8) (begins : reader.stream = kind :: content ++ crlf ++ rest)
    (within : consumed + (kind :: content ++ crlf).length ≤ limits.maxFrameLen) :
    ∃ next : Reader UInt8, next.stream = rest ∧ next.closed = reader.closed ∧
      readResponseFrom limits consumed totalElements stack reader =
        resume limits (consumed + (kind :: content ++ crlf).length) totalElements value stack next := by
  obtain ⟨next, left, closed, token⟩ := readResponseToken_line bounded plain single begins short within
    (stack.isEmpty && consumed == 0)
  rw [meaning] at token
  exact ⟨next, left, closed, readResponseFrom_value token⟩

/-- In every state that leaves room for it, the loop reads these bytes and goes on with the value. -/
def ReadsAs (limits : RESPResponseLimits) (bytes : Bytes) (depth elements : Nat) (value : RESPResponse) : Prop :=
  ∀ (consumed totalElements : Nat) (stack : List ArrayBuilder) (reader : Reader UInt8) (rest : Bytes),
    reader.stream = bytes ++ rest → consumed + bytes.length ≤ limits.maxFrameLen →
    stack.length + depth ≤ limits.maxDepth → totalElements + elements ≤ limits.maxTotalElements →
    ∃ next : Reader UInt8, next.stream = rest ∧ next.closed = reader.closed ∧
      readResponseFrom limits consumed totalElements stack reader =
        resume limits (consumed + bytes.length) (totalElements + elements) value stack next

theorem readsAs_line (bounded : limits.Bounded) {kind : UInt8} {content : Bytes} {value : RESPResponse}
    (plain : kind ≠ newline) (single : newline ∉ content)
    (short : (kind :: content ++ crlf).length ≤ maxResponseHeaderSize)
    (meaning : ∀ consumed, responseToken limits consumed (kind :: content) = pure (.value value, consumed)) :
    ReadsAs limits (kind :: content ++ crlf) 0 0 value := by
  intro consumed totalElements stack reader rest begins within _ _
  exact readResponseFrom_line bounded plain single short meaning consumed totalElements stack reader begins within

theorem readsAs_bulk (bounded : limits.Bounded) {text : Bytes} (allowed : text.length ≤ limits.maxBulkLen) :
    ReadsAs limits (bulkFrame text) 0 0 (.bulkString (some text)) := by
  intro consumed totalElements stack reader rest begins within _ _
  have frame := bounded.maxFrameLen
  have size := bulkFrame_length text
  have small : text.length ≤ usizeMax := by omega
  have header : reader.stream = headerLine 36 text.length ++ (text ++ crlf ++ rest) := by
    rw [begins, bulkFrame]
    simp only [List.append_assoc]
  have lineWithin : consumed + (headerLine 36 text.length).length ≤ limits.maxFrameLen := by omega
  obtain ⟨middle, left, same, token⟩ := readResponseToken_line bounded (by decide : (36 : UInt8) ≠ newline)
    (newline_not_mem_digitBytes text.length) header (headerLine_responseHeader small) lineWithin
    (stack.isEmpty && consumed == 0)
  rw [← headerLine] at token
  obtain ⟨next, remaining, closed, read⟩ := @readBulkResponse_within limits
    (consumed + (headerLine 36 text.length).length) middle rest bounded text left allowed (by omega)
  have meaning : responseToken limits (consumed + (headerLine 36 text.length).length)
      (36 :: digitBytes text.length) middle =
      .ready (.ok (.value (.bulkString (some text)), consumed + (bulkFrame text).length)) next := by
    rw [responseToken, if_neg (by decide), if_neg (by decide), if_neg (by decide), if_pos rfl,
      parseResponseLength_digits small, lift_bind_ok]
    simp only
    rw [read, size]
    simp only [Nat.add_assoc]
  rw [bind_ready meaning] at token
  exact ⟨next, remaining, closed.trans same, readResponseFrom_value token⟩

/-- What the header of an array stands for. -/
theorem responseToken_array {consumed length : Nat} (fits : length ≤ usizeMax)
    (allowed : length ≤ limits.maxArrayLen) :
    responseToken limits consumed (42 :: digitBytes length) = pure (.array length, consumed) := by
  rw [responseToken, if_neg (by decide), if_neg (by decide), if_neg (by decide), if_neg (by decide), if_pos rfl,
    parseResponseLength_digits fits]
  show (if length > limits.maxArrayLen then _ else _) = _
  rw [if_neg (by omega)]

theorem readArrayHeader (bounded : limits.Bounded) {consumed length : Nat} {reader : Reader UInt8} {rest : Bytes}
    (fits : length ≤ usizeMax) (allowed : length ≤ limits.maxArrayLen)
    (begins : reader.stream = headerLine 42 length ++ rest)
    (within : consumed + (headerLine 42 length).length ≤ limits.maxFrameLen) (stack : List ArrayBuilder) :
    ∃ next : Reader UInt8, next.stream = rest ∧ next.closed = reader.closed ∧
      readResponseToken limits consumed (stack.isEmpty && consumed == 0) reader =
        .ready (.ok (some (.array length, consumed + (headerLine 42 length).length))) next := by
  obtain ⟨next, left, closed, token⟩ := readResponseToken_line bounded (by decide : (42 : UInt8) ≠ newline)
    (newline_not_mem_digitBytes length) begins (headerLine_responseHeader fits) within
    (stack.isEmpty && consumed == 0)
  rw [responseToken_array fits allowed] at token
  exact ⟨next, left, closed, token⟩

/-- The items of an array, one after another, when some have been built already. -/
theorem items_readAs (value : RESPValue) (values : List RESPValue)
    (reads : ∀ item ∈ value :: values, ReadsAs limits item.bytes item.depth item.elements item.response)
    (built : List RESPResponse)
    (consumed totalElements : Nat) (stack : List ArrayBuilder) (reader : Reader UInt8) (rest : Bytes)
    (begins : reader.stream = bytesOf (value :: values) ++ rest)
    (within : consumed + (bytesOf (value :: values)).length ≤ limits.maxFrameLen)
    (shallow : stack.length + (depths (value :: values) + 1) ≤ limits.maxDepth)
    (few : totalElements + elementsOf (value :: values) ≤ limits.maxTotalElements) :
    ∃ next : Reader UInt8, next.stream = rest ∧ next.closed = reader.closed ∧
      readResponseFrom limits consumed totalElements
          (⟨built.length + (value :: values).length, built⟩ :: stack) reader =
        resume limits (consumed + (bytesOf (value :: values)).length)
          (totalElements + elementsOf (value :: values))
          (.array (some (built ++ responses (value :: values)))) stack next := by
  rw [bytesOf, List.append_assoc] at begins
  rw [bytesOf, List.length_append] at within
  rw [depths] at shallow
  rw [elementsOf] at few
  obtain ⟨middle, left, same, read⟩ := reads value List.mem_cons_self consumed totalElements
    (⟨built.length + (value :: values).length, built⟩ :: stack) reader (bytesOf values ++ rest) begins
    (by omega) (by rw [List.length_cons]; omega) (by omega)
  have size : (built ++ [value.response]).length = built.length + 1 := by
    rw [List.length_append, List.length_singleton]
  rw [read, resume, completeArrays]
  match values with
  | [] =>
      refine ⟨middle, left, same, ?_⟩
      rw [if_neg (by simp only [size, List.length_cons, List.length_nil]; omega)]
      simp only [bytesOf, elementsOf, responses, List.append_nil, Nat.add_zero]
      rfl
  | following :: values =>
      obtain ⟨next, remaining, closed, later⟩ := items_readAs following values
        (fun item member => reads item (List.mem_cons_of_mem _ member)) (built ++ [value.response])
        (consumed + value.bytes.length) (totalElements + value.elements) stack middle rest left (by omega) (by omega) (by omega)
      refine ⟨next, remaining, closed.trans same, ?_⟩
      rw [if_pos (by simp only [size, List.length_cons]; omega)]
      simp only
      rw [size, List.length_cons] at later
      rw [List.length_cons, List.length_cons,
        show built.length + (values.length + 1 + 1) = built.length + 1 + (values.length + 1) by omega, later]
      rw [bytesOf.eq_def (value :: _), elementsOf.eq_def (value :: _), responses.eq_def (value :: _)]
      simp only [List.length_append, Nat.add_assoc, List.append_assoc, List.cons_append, List.nil_append]

mutual

theorem value_readsAs (bounded : limits.Bounded) (value : RESPValue) (readable : value.Readable limits) :
    ReadsAs limits value.bytes value.depth value.elements value.response := by
  match value with
  | .simpleString text =>
      exact readsAs_line bounded (by decide) (newline_not_mem_utf8Bytes readable.1) readable.2 (fun _ => rfl)
  | .error text =>
      exact readsAs_line bounded (by decide) (newline_not_mem_utf8Bytes readable.1) readable.2 (fun _ => rfl)
  | .integer value =>
      obtain ⟨single, short⟩ := integerText_line value
      refine readsAs_line bounded (by decide) single ?_ ?_
      · simp only [List.length_append, List.length_cons, crlf, List.length_nil, maxResponseHeaderSize]
        omega
      · intro consumed
        rw [responseToken, if_neg (by decide), if_neg (by decide), if_pos rfl, parseSignedDecimal_integerText]
        rfl
  | .bulkString none =>
      exact readsAs_line bounded (by decide : (36 : UInt8) ≠ newline) (by decide : newline ∉ utf8Bytes "-1")
        (by decide) (fun _ => rfl)
  | .bulkString (some text) => exact readsAs_bulk bounded readable
  | .array [] =>
      intro consumed totalElements stack reader rest begins within _ _
      obtain ⟨next, left, closed, token⟩ := readArrayHeader bounded (Nat.zero_le _) (Nat.zero_le _) begins within stack
      exact ⟨next, left, closed, readResponseFrom_empty token⟩
  | .array (value :: values) =>
      intro consumed totalElements stack reader rest begins within shallow few
      rw [RESPValue.bytes, List.length_append] at within
      rw [RESPValue.depth] at shallow
      rw [RESPValue.elements] at few
      rw [RESPValue.bytes, List.append_assoc] at begins
      have frame := bounded.maxFrameLen
      have count := length_le_bytesOf (value :: values)
      have lineWithin : consumed + (headerLine 42 (value :: values).length).length ≤ limits.maxFrameLen := by
        omega
      obtain ⟨middle, left, same, token⟩ :=
        readArrayHeader bounded (by omega) readable.1 begins lineWithin stack
      have pushed := @readResponseFrom_array limits _ _ totalElements _ stack middle bounded values.length token
        (by omega) (by rw [List.length_cons] at few; omega)
      obtain ⟨next, remaining, closed, read⟩ := items_readAs value values (all_readAs bounded _ readable.2) []
        (consumed + (headerLine 42 (value :: values).length).length) (totalElements + (values.length + 1)) stack
        middle rest left (by omega) shallow (by rw [List.length_cons] at few; omega)
      refine ⟨next, remaining, closed.trans same, ?_⟩
      rw [List.length_cons] at pushed
      rw [List.length_nil, Nat.zero_add, List.length_cons] at read
      rw [pushed, read, RESPValue.bytes, RESPValue.elements, List.length_append, List.length_cons]
      simp only [Nat.add_assoc]
      rfl

theorem all_readAs (bounded : limits.Bounded) (values : List RESPValue) (readable : AllReadable limits values) :
    ∀ item ∈ values, ReadsAs limits item.bytes item.depth item.elements item.response := by
  match values with
  | [] => exact fun _ member => absurd member List.not_mem_nil
  | value :: values =>
      intro item member
      rcases List.mem_cons.mp member with same | later
      · rw [same]
        exact value_readsAs bounded value readable.1
      · exact all_readAs bounded values readable.2 item later

end

/-- The client reads the response that the server has written, and nothing that follows it. -/
theorem readResponse_encodeInto (limits : RESPResponseLimits) (bounded : limits.Bounded) (value : RESPValue)
    (within : value.Within limits) (reader : Reader UInt8) (rest : Bytes)
    (begins : reader.stream = value.encodeInto [] ++ rest) :
    ∃ next : Reader UInt8, readResponse limits reader = .ready (.ok (some value.response)) next ∧
      next.stream = rest ∧ next.closed = reader.closed := by
  rw [encodeInto_eq, List.nil_append] at begins
  have bytes := within.bytes
  have depth := within.depth
  have elements := within.elements
  obtain ⟨next, left, closed, read⟩ := value_readsAs bounded value within.readable 0 0 [] reader rest begins
    (by omega) (by rw [List.length_nil]; omega) (by omega)
  exact ⟨next, read, left, closed⟩

/-- An array with an empty one in it. -/
def nestedValue : RESPValue := .array [.array [], .bulkString (some "\n"), .integer (-7)]

/-- The bytes of a nested array, cut into two pieces. -/
def nestedReader : Reader UInt8 where
  buffer := (nestedValue.encodeInto []).take 5
  chunks := [(nestedValue.encodeInto []).drop 5, [43]]
  nonempty := by decide
  closed := false

theorem nested_response_read :
    ∃ next : Reader UInt8, readResponse defaultResponseLimits nestedReader =
        .ready (.ok (some (.array (some [.array (some []), .bulkString (some [10]), .integer (-7)])))) next ∧
      next.stream = [43] := by
  have short : (utf8Bytes "\n").length ≤ defaultResponseLimits.maxBulkLen := by decide
  have readable : nestedValue.Readable defaultResponseLimits :=
    ⟨by decide, ⟨by decide, trivial⟩, short, trivial, trivial⟩
  obtain ⟨next, read, left, _⟩ := readResponse_encodeInto defaultResponseLimits ⟨by decide, by decide⟩
    nestedValue ⟨readable, by decide, by decide, by decide⟩ nestedReader [43] rfl
  exact ⟨next, read, left⟩

end Agreement

end OnyxDB.Protocol
