import OnyxDB.Library.BigEndian
import OnyxDB.Library.Interrupted
import OnyxDB.Protocol.Response

/-! The binary protocol. A frame is a header, arguments and a payload, each with its length in front; the
decoder looks at a buffer and waits for a frame that has not arrived as a whole. -/

namespace OnyxDB.Protocol.Obp
open OnyxDB.Library.BigEndian OnyxDB.Engine.Value

section Model

def obpMagic : UInt8 := 0x4F
def obpVersion : UInt8 := 0x01
def maxObpArguments : Nat := 1024
def maxObpArgumentSize : Nat := 512 * 1024
def maxObpPayloadSize : Nat := 512 * 1024
def maxObpFrameSize : Nat := 1024 * 1024
def obpFixedHeaderSize : Nat := 11
def obpPayloadLengthSize : Nat := 4

inductive OBPProtocolError where
  | invalidMagic
  | unsupportedVersion (version : UInt8)
  | tooManyArguments (count : Nat)
  | argumentTooLarge (length : Nat)
  | payloadTooLarge (length : Nat)
  | frameTooLarge
  | lengthOverflow
  deriving DecidableEq, Repr

structure OBPFrame where
  cmd : UInt8
  flags : UInt16
  correlationId : UInt32
  args : List Bytes
  payload : Option Bytes
  deriving DecidableEq, Repr

def orOverflow {α : Type} : Option α → Except OBPProtocolError α
  | some value => .ok value
  | none => .error .lengthOverflow

/-- The loop of `encode` that adds up the size of the arguments. -/
def argumentsSize : List Bytes → Nat → Except OBPProtocolError Nat
  | [], frameSize => .ok frameSize
  | argument :: arguments, frameSize =>
      if argument.length > maxObpArgumentSize then .error (.argumentTooLarge argument.length)
      else do
        let frameSize ← orOverflow ((checkedAdd frameSize 4).bind (checkedAdd · argument.length))
        argumentsSize arguments frameSize

/-- Bytes behind their length. -/
def obpField (bytes : Bytes) : Bytes := toBigEndian 4 bytes.length ++ bytes

def OBPFrame.header (frame : OBPFrame) : Bytes :=
  [obpMagic, obpVersion, frame.cmd] ++ toBigEndian 2 frame.flags.toNat ++
    toBigEndian 4 frame.correlationId.toNat ++ toBigEndian 2 frame.args.length

/-- The checks of `encode`: the size of the frame. -/
def OBPFrame.size (frame : OBPFrame) : Except OBPProtocolError Nat :=
  if frame.args.length > maxObpArguments then .error (.tooManyArguments frame.args.length)
  else do
    let frameSize ← orOverflow (checkedAdd obpFixedHeaderSize obpPayloadLengthSize)
    let frameSize ← argumentsSize frame.args frameSize
    let payloadLength := (frame.payload.map List.length).getD 0
    if payloadLength > maxObpPayloadSize then throw (.payloadTooLarge payloadLength)
    else do
      let frameSize ← orOverflow (checkedAdd frameSize payloadLength)
      if frameSize > maxObpFrameSize then throw .frameTooLarge else return frameSize

/-- `encode`; the state is the buffer. -/
def OBPFrame.encode (frame : OBPFrame) : EStateM OBPProtocolError Bytes Unit := do
  match frame.size with
  | .error error => throw error
  | .ok _ => do
      modify (fun buf => buf ++ frame.header)
      frame.args.forM (fun argument => modify (fun buf => buf ++ obpField argument))
      modify (fun buf => buf ++ toBigEndian 4 ((frame.payload.map List.length).getD 0))
      modify (fun buf => buf ++ frame.payload.getD [])

/-- The first pass over the arguments: where the last of them ends, if it has arrived. -/
def scanArguments (buf : Bytes) : Nat → Nat → Except OBPProtocolError (Option Nat)
  | 0, offset => .ok (some offset)
  | count + 1, offset => do
      let lengthEnd ← orOverflow (checkedAdd offset 4)
      if buf.length < lengthEnd then return none
      else do
        let argumentLength := ofBigEndian (slice buf offset lengthEnd)
        if argumentLength > maxObpArgumentSize then throw (.argumentTooLarge argumentLength)
        else do
          let argumentEnd ← orOverflow (checkedAdd lengthEnd argumentLength)
          if argumentEnd > maxObpFrameSize then throw .frameTooLarge
          else if buf.length < argumentEnd then return none
          else scanArguments buf count argumentEnd

/-- The second pass, which copies the arguments. -/
def copyArguments (buf : Bytes) : Nat → Nat → List Bytes
  | 0, _ => []
  | count + 1, offset =>
      let argumentEnd := offset + 4 + ofBigEndian (slice buf offset (offset + 4))
      slice buf (offset + 4) argumentEnd :: copyArguments buf count argumentEnd

/-- What follows the arguments: the payload and the end of the frame, if it has arrived. -/
def decodePayload (buf : Bytes) (offset : Nat) : Except OBPProtocolError (Option (Option Bytes × Nat)) := do
  let payloadLengthEnd ← orOverflow (checkedAdd offset obpPayloadLengthSize)
  if buf.length < payloadLengthEnd then return none
  else do
    let payloadLength := ofBigEndian (slice buf offset payloadLengthEnd)
    if payloadLength > maxObpPayloadSize then throw (.payloadTooLarge payloadLength)
    else do
      let frameEnd ← orOverflow (checkedAdd payloadLengthEnd payloadLength)
      if frameEnd > maxObpFrameSize then throw .frameTooLarge
      else if buf.length < frameEnd then return none
      else
        return some (if payloadLength > 0 then some (slice buf payloadLengthEnd frameEnd) else none, frameEnd)

/-- What `decode` finds after the checks of the first two bytes: the frame and its end. -/
def decodeBody (buf : Bytes) : Except OBPProtocolError (Option (OBPFrame × Nat)) :=
  if buf.length < obpFixedHeaderSize then .ok none
  else
    let argumentCount := ofBigEndian (slice buf 9 11)
    if argumentCount > maxObpArguments then .error (.tooManyArguments argumentCount)
    else do
      match ← scanArguments buf argumentCount obpFixedHeaderSize with
      | none => return none
      | some offset =>
          match ← decodePayload buf offset with
          | none => return none
          | some (payload, frameEnd) =>
              return some ({
                cmd := buf.getD 2 0
                flags := UInt16.ofNat (ofBigEndian (slice buf 3 5))
                correlationId := UInt32.ofNat (ofBigEndian (slice buf 5 9))
                args := copyArguments buf argumentCount obpFixedHeaderSize
                payload }, frameEnd)

/-- `decode`, with the buffer that it leaves. -/
def OBPFrame.decode (buf : Bytes) : Except OBPProtocolError (Option OBPFrame) × Bytes :=
  if buf.head?.any (· != obpMagic) then (.error .invalidMagic, buf)
  else
    match buf[1]?.filter (· != obpVersion) with
    | some version => (.error (.unsupportedVersion version), buf)
    | none =>
        match decodeBody buf with
        | .error error => (.error error, buf)
        | .ok none => (.ok none, buf)
        | .ok (some (frame, frameEnd)) => (.ok (some frame), buf.drop frameEnd)

/-- The bytes of a frame. -/
def OBPFrame.bytes (frame : OBPFrame) : Bytes :=
  frame.header ++ frame.args.flatMap obpField ++ obpField (frame.payload.getD [])

/-- The frame as it is read back: an empty payload is none. -/
def OBPFrame.readBack (frame : OBPFrame) : OBPFrame :=
  { frame with payload := frame.payload.filter (fun payload => !payload.isEmpty) }

end Model

section Encoding

/-- What `encode` has checked of a frame. -/
structure OBPFrame.Accepted (frame : OBPFrame) : Prop where
  count : frame.args.length ≤ maxObpArguments
  arguments : ∀ argument ∈ frame.args, argument.length ≤ maxObpArgumentSize
  payload : (frame.payload.getD []).length ≤ maxObpPayloadSize
  total : frame.bytes.length ≤ maxObpFrameSize

theorem obpField_length (bytes : Bytes) : (obpField bytes).length = 4 + bytes.length := by
  rw [obpField, List.length_append, toBigEndian_length]

theorem header_length (frame : OBPFrame) : frame.header.length = obpFixedHeaderSize := by
  simp only [OBPFrame.header, List.length_append, toBigEndian_length, List.length_cons, List.length_nil]
  rfl

theorem argumentsSize_ok {arguments : List Bytes} {start total : Nat}
    (summed : argumentsSize arguments start = .ok total) :
    total = start + (arguments.flatMap obpField).length ∧
      ∀ argument ∈ arguments, argument.length ≤ maxObpArgumentSize := by
  induction arguments generalizing start with
  | nil =>
      cases summed
      simp
  | cons argument arguments following =>
      unfold argumentsSize at summed
      split at summed
      · cases summed
      next allowed =>
        cases added : (checkedAdd start 4).bind (checkedAdd · argument.length) with
        | none =>
            rw [added] at summed
            cases summed
        | some middle =>
            rw [added] at summed
            simp only [checkedAdd, Option.bind_eq_some_iff, Option.ite_none_right_eq_some,
              Option.some.injEq] at added
            obtain ⟨_, ⟨_, rfl⟩, _, rfl⟩ := added
            obtain ⟨total_eq, rest⟩ := following summed
            refine ⟨?_, ?_⟩
            · rw [List.flatMap_cons, List.length_append, obpField_length]
              omega
            · intro other member
              rcases List.mem_cons.mp member with rfl | later
              · omega
              · exact rest other later

theorem payloadLength_eq (payload : Option Bytes) : (payload.map List.length).getD 0 = (payload.getD []).length := by
  cases payload <;> rfl

theorem size_ok {frame : OBPFrame} {total : Nat} (sized : frame.size = .ok total) : frame.Accepted := by
  unfold OBPFrame.size at sized
  split at sized
  · cases sized
  next few =>
    change (do
      let frameSize ← argumentsSize frame.args 15
      _) = _ at sized
    cases summed : argumentsSize frame.args 15 with
    | error error =>
        rw [summed] at sized
        cases sized
    | ok arguments =>
        rw [summed] at sized
        change (if _ then _ else _) = _ at sized
        split at sized
        · cases sized
        next small =>
          rw [payloadLength_eq] at small sized
          cases added : checkedAdd arguments (frame.payload.getD []).length with
          | none =>
              rw [added] at sized
              cases sized
          | some whole =>
              rw [added] at sized
              change (if _ then _ else _) = _ at sized
              split at sized
              · cases sized
              next within =>
                obtain ⟨sum, allowed⟩ := argumentsSize_ok summed
                simp only [checkedAdd, Option.ite_none_right_eq_some, Option.some.injEq] at added
                refine ⟨by omega, allowed, by omega, ?_⟩
                rw [OBPFrame.bytes, List.length_append, List.length_append, header_length, obpField_length,
                  obpFixedHeaderSize]
                omega

theorem forM_obpField (arguments : List Bytes) (buf : Bytes) :
    (arguments.forM (fun argument => modify (fun buf => buf ++ obpField argument)) :
      EStateM OBPProtocolError Bytes Unit) buf = .ok () (buf ++ arguments.flatMap obpField) := by
  induction arguments generalizing buf with
  | nil =>
      rw [List.flatMap_nil, List.append_nil]
      rfl
  | cons argument arguments following =>
      rw [List.flatMap_cons, ← List.append_assoc, ← following]
      rfl

/-- The encoder writes the frame, or fails and writes nothing. -/
theorem encode_cases (frame : OBPFrame) (buf : Bytes) :
    (∃ error, frame.encode buf = .error error buf) ∨
      (frame.encode buf = .ok () (buf ++ frame.bytes) ∧ frame.Accepted) := by
  unfold OBPFrame.encode
  cases sized : frame.size with
  | error error => exact Or.inl ⟨error, rfl⟩
  | ok total =>
      refine Or.inr ⟨?_, size_ok sized⟩
      simp only [bind, EStateM.bind, modify, modifyGet, MonadStateOf.modifyGet, Library.Interrupted.modifyGet_run]
      have fields := forM_obpField frame.args (buf ++ frame.header)
      simp only [modify, modifyGet, MonadStateOf.modifyGet] at fields
      rw [fields]
      simp only [payloadLength_eq, OBPFrame.bytes, obpField, List.append_assoc]

end Encoding

section Fields
variable {buf front : Bytes}

theorem orOverflow_add {first second : Nat} (fits : first + second ≤ usizeMax) :
    orOverflow (checkedAdd first second) = .ok (first + second) := by
  rw [checkedAdd_some fits]
  rfl

/-- The length in front of a field. -/
theorem slice_length {length : Nat} {tail : Bytes} (shape : buf = front ++ toBigEndian 4 length ++ tail)
    (small : length ≤ maxObpFrameSize) : ofBigEndian (slice buf front.length (front.length + 4)) = length := by
  have found := slice_middle front (toBigEndian 4 length) tail
  rw [toBigEndian_length, ← shape] at found
  have fits : length < 256 ^ 4 := Nat.lt_of_le_of_lt small (by decide)
  rw [found, ofBigEndian_toBigEndian_of_lt fits]

/-- The content of a field. -/
theorem slice_field {bytes tail : Bytes} (shape : buf = front ++ obpField bytes ++ tail) :
    slice buf (front.length + 4) (front.length + 4 + bytes.length) = bytes := by
  have found := slice_middle (front ++ toBigEndian 4 bytes.length) bytes tail
  rw [List.length_append, toBigEndian_length, List.append_assoc front, ← obpField, ← shape] at found
  exact found

theorem scanArguments_fields {arguments : List Bytes} {tail : Bytes}
    (shape : buf = front ++ arguments.flatMap obpField ++ tail)
    (allowed : ∀ argument ∈ arguments, argument.length ≤ maxObpArgumentSize)
    (within : front.length + (arguments.flatMap obpField).length ≤ maxObpFrameSize) :
    scanArguments buf arguments.length front.length =
        .ok (some (front.length + (arguments.flatMap obpField).length)) ∧
      copyArguments buf arguments.length front.length = arguments := by
  induction arguments generalizing front with
  | nil => exact ⟨rfl, rfl⟩
  | cons argument arguments following =>
      have permitted := allowed argument List.mem_cons_self
      have limit : maxObpFrameSize + 4 ≤ usizeMax := by decide
      have size := obpField_length argument
      rw [List.flatMap_cons] at shape within ⊢
      rw [List.length_append] at within ⊢
      have first : buf = front ++ obpField argument ++ (arguments.flatMap obpField ++ tail) := by
        rw [shape]
        simp only [List.append_assoc]
      have moved : buf = (front ++ obpField argument) ++ arguments.flatMap obpField ++ tail := by
        rw [shape]
        simp only [List.append_assoc]
      have total : buf.length = front.length + (4 + argument.length) +
          ((arguments.flatMap obpField).length + tail.length) := by
        rw [first, List.length_append, List.length_append, List.length_append, size]
      have announced := @slice_length buf front argument.length
        (argument ++ (arguments.flatMap obpField ++ tail))
        (by rw [first, obpField]; simp only [List.append_assoc]) (by omega)
      have content := slice_field first
      have later := following moved (fun other member => allowed other (List.mem_cons_of_mem _ member))
        (by rw [List.length_append]; omega)
      rw [List.length_append, size, ← Nat.add_assoc] at later
      refine ⟨?_, ?_⟩
      · rw [List.length_cons, scanArguments, orOverflow_add (by omega)]
        simp only [bind, Except.bind]
        rw [if_neg (by omega), announced, if_neg (by omega), orOverflow_add (by omega)]
        simp only
        rw [if_neg (by omega), if_neg (by omega), later.1, size]
        simp only [Nat.add_assoc]
      · rw [List.length_cons, copyArguments]
        simp only [announced]
        rw [content, later.2]

/-- Arguments that have not all arrived are waited for. -/
theorem scanArguments_part {arguments : List Bytes} {part : Bytes} (shape : buf = front ++ part)
    (begins : part <+: arguments.flatMap obpField)
    (strict : part.length < (arguments.flatMap obpField).length)
    (allowed : ∀ argument ∈ arguments, argument.length ≤ maxObpArgumentSize)
    (within : front.length + (arguments.flatMap obpField).length ≤ maxObpFrameSize) :
    scanArguments buf arguments.length front.length = .ok none := by
  induction arguments generalizing front part with
  | nil => cases strict
  | cons argument arguments following =>
      have permitted := allowed argument List.mem_cons_self
      have limit : maxObpFrameSize + 4 ≤ usizeMax := by decide
      have size := obpField_length argument
      have total : buf.length = front.length + part.length := by rw [shape, List.length_append]
      rw [List.flatMap_cons] at begins strict within
      rw [List.length_append] at strict within
      rw [List.length_cons, scanArguments, orOverflow_add (by omega)]
      simp only [bind, Except.bind]
      rcases Nat.lt_or_ge part.length 4 with short | long
      · rw [if_pos (by omega)]
        rfl
      · have header : toBigEndian 4 argument.length <+: part := by
          refine List.prefix_of_prefix_length_le ?_ begins (by rw [toBigEndian_length]; exact long)
          rw [obpField, List.append_assoc]
          exact List.prefix_append _ _
        obtain ⟨content, rfl⟩ := header
        have announced := @slice_length buf front argument.length content
          (by rw [shape, List.append_assoc]) (by omega)
        rw [if_neg (by omega), announced, if_neg (by omega), orOverflow_add (by omega)]
        simp only
        rw [if_neg (by omega)]
        rcases Nat.lt_or_ge (toBigEndian 4 argument.length ++ content).length (obpField argument).length with
          incomplete | complete
        · rw [if_pos (by omega)]
          rfl
        · obtain ⟨piece, split⟩ :=
            List.prefix_of_prefix_length_le (List.prefix_append _ _) begins complete
          rw [if_neg (by omega)]
          rw [← split] at begins strict shape
          rw [List.length_append] at strict
          have later := @following (front ++ obpField argument) piece (by rw [shape, List.append_assoc])
            ((List.prefix_append_right_inj _).mp begins) (by omega)
            (fun other member => allowed other (List.mem_cons_of_mem _ member))
            (by rw [List.length_append]; omega)
          rw [List.length_append, size, ← Nat.add_assoc] at later
          exact later

/-- A payload that has arrived is read back. -/
theorem decodePayload_field {payload tail : Bytes} (shape : buf = front ++ obpField payload ++ tail)
    (allowed : payload.length ≤ maxObpPayloadSize)
    (within : front.length + (obpField payload).length ≤ maxObpFrameSize) :
    decodePayload buf front.length = .ok (some (if payload.length > 0 then some payload else none,
      front.length + (obpField payload).length)) := by
  have limit : maxObpFrameSize + 4 ≤ usizeMax := by decide
  have size := obpField_length payload
  have total : buf.length = front.length + (4 + payload.length) + tail.length := by
    rw [shape, List.length_append, List.length_append, size]
  have announced := @slice_length buf front payload.length (payload ++ tail)
    (by rw [shape, obpField]; simp only [List.append_assoc]) (by omega)
  have content := slice_field shape
  rw [decodePayload, obpPayloadLengthSize, orOverflow_add (by omega)]
  simp only [bind, Except.bind]
  rw [if_neg (by omega), announced, if_neg (by omega), orOverflow_add (by omega)]
  simp only
  rw [if_neg (by omega), if_neg (by omega), content, size]
  simp only [Nat.add_assoc]
  rfl

theorem decodePayload_part {payload part : Bytes} (shape : buf = front ++ part)
    (begins : part <+: obpField payload) (strict : part.length < (obpField payload).length)
    (allowed : payload.length ≤ maxObpPayloadSize)
    (within : front.length + (obpField payload).length ≤ maxObpFrameSize) :
    decodePayload buf front.length = .ok none := by
  have limit : maxObpFrameSize + 4 ≤ usizeMax := by decide
  have size := obpField_length payload
  have total : buf.length = front.length + part.length := by rw [shape, List.length_append]
  rw [decodePayload, obpPayloadLengthSize, orOverflow_add (by omega)]
  simp only [bind, Except.bind]
  rcases Nat.lt_or_ge part.length 4 with short | long
  · rw [if_pos (by omega)]
    rfl
  · have header : toBigEndian 4 payload.length <+: part := by
      refine List.prefix_of_prefix_length_le ?_ begins (by rw [toBigEndian_length]; exact long)
      exact List.prefix_append _ _
    obtain ⟨content, rfl⟩ := header
    have announced := @slice_length buf front payload.length content
      (by rw [shape, List.append_assoc]) (by omega)
    rw [if_neg (by omega), announced, if_neg (by omega), orOverflow_add (by omega)]
    simp only
    rw [if_neg (by omega), if_pos (by omega)]
    rfl

end Fields

section Frames
variable {buf : Bytes} {frame : OBPFrame}

/-- The fields of a header are read back. -/
theorem header_fields {tail : Bytes} (shape : buf = frame.header ++ tail) (few : frame.args.length ≤ maxObpArguments) :
    buf.getD 2 0 = frame.cmd ∧ UInt16.ofNat (ofBigEndian (slice buf 3 5)) = frame.flags ∧
      UInt32.ofNat (ofBigEndian (slice buf 5 9)) = frame.correlationId ∧
      ofBigEndian (slice buf 9 11) = frame.args.length := by
  have flags : slice buf 3 5 = toBigEndian 2 frame.flags.toNat := by
    rw [shape, OBPFrame.header, List.append_assoc, List.append_assoc]
    exact slice_middle [obpMagic, obpVersion, frame.cmd] (toBigEndian 2 frame.flags.toNat) _
  have correlationId : slice buf 5 9 = toBigEndian 4 frame.correlationId.toNat := by
    rw [shape, OBPFrame.header, List.append_assoc]
    exact slice_middle ([obpMagic, obpVersion, frame.cmd] ++ toBigEndian 2 frame.flags.toNat)
      (toBigEndian 4 frame.correlationId.toNat) _
  have count : slice buf 9 11 = toBigEndian 2 frame.args.length := by
    rw [shape, OBPFrame.header]
    exact slice_middle ([obpMagic, obpVersion, frame.cmd] ++ toBigEndian 2 frame.flags.toNat ++
      toBigEndian 4 frame.correlationId.toNat) (toBigEndian 2 frame.args.length) _
  have fits : frame.args.length < 256 ^ 2 := Nat.lt_of_le_of_lt few (by decide)
  refine ⟨by rw [shape]; rfl, ?_, ?_, ?_⟩
  · rw [flags, ofBigEndian_toBigEndian_of_lt frame.flags.toNat_lt, UInt16.ofNat_toNat]
  · rw [correlationId, ofBigEndian_toBigEndian_of_lt frame.correlationId.toNat_lt, UInt32.ofNat_toNat]
  · rw [count, ofBigEndian_toBigEndian_of_lt fits]

/-- The first two bytes of a frame pass their checks, as far as they have arrived. -/
theorem decode_body {rest : Bytes} (begins : buf <+: frame.bytes ++ rest) :
    OBPFrame.decode buf =
      match decodeBody buf with
      | .error error => (.error error, buf)
      | .ok none => (.ok none, buf)
      | .ok (some (frame, frameEnd)) => (.ok (some frame), buf.drop frameEnd) := by
  have shape : frame.bytes ++ rest = obpMagic :: obpVersion :: ((frame.bytes ++ rest).drop 2) := rfl
  rw [shape] at begins
  match buf with
  | [] => rfl
  | [magic] =>
      obtain rfl : magic = obpMagic := (List.cons_prefix_cons.mp begins).1
      rfl
  | magic :: version :: tail =>
      obtain ⟨rfl, later⟩ := List.cons_prefix_cons.mp begins
      obtain rfl : version = obpVersion := (List.cons_prefix_cons.mp later).1
      rfl

theorem readBack_payload (payload : Option Bytes) :
    (if (payload.getD []).length > 0 then some (payload.getD []) else none) =
      payload.filter (fun payload => !payload.isEmpty) := by
  cases payload with
  | none => rfl
  | some payload => cases payload <;> rfl

/-- A frame that has arrived is read back and taken from the buffer, whatever follows it. -/
theorem OBPFrame.Accepted.decodes (accepted : frame.Accepted) (rest : Bytes) :
    OBPFrame.decode (frame.bytes ++ rest) = (.ok (some frame.readBack), rest) := by
  have total := accepted.total
  have header := header_length frame
  have size := obpField_length (frame.payload.getD [])
  rw [OBPFrame.bytes, List.length_append, List.length_append] at total
  have shape : frame.bytes ++ rest =
      frame.header ++ (frame.args.flatMap obpField ++ obpField (frame.payload.getD []) ++ rest) := by
    rw [OBPFrame.bytes]
    simp only [List.append_assoc]
  obtain ⟨cmd, flags, correlationId, count⟩ := header_fields shape accepted.count
  obtain ⟨scanned, copied⟩ := @scanArguments_fields (frame.bytes ++ rest) frame.header frame.args
    (obpField (frame.payload.getD []) ++ rest) (by rw [OBPFrame.bytes]; simp only [List.append_assoc])
    accepted.arguments (by omega)
  have payload := @decodePayload_field (frame.bytes ++ rest) (frame.header ++ frame.args.flatMap obpField)
    (frame.payload.getD []) rest (by rw [OBPFrame.bytes]) accepted.payload (by rw [List.length_append]; omega)
  have long : ¬ (frame.bytes ++ rest).length < obpFixedHeaderSize := by
    rw [shape, List.length_append]
    omega
  rw [header] at scanned copied
  rw [List.length_append, header] at payload
  have frameEnd : obpFixedHeaderSize + (frame.args.flatMap obpField).length +
      (obpField (frame.payload.getD [])).length = frame.bytes.length := by
    rw [OBPFrame.bytes, List.length_append, List.length_append, header]
  have body : decodeBody (frame.bytes ++ rest) = .ok (some (frame.readBack, frame.bytes.length)) := by
    rw [decodeBody, if_neg long]
    simp only [count]
    rw [if_neg (Nat.not_lt.mpr accepted.count), scanned]
    simp only [bind, Except.bind]
    rw [payload, frameEnd, readBack_payload, cmd, flags, correlationId, copied]
    rfl
  rw [decode_body (List.prefix_refl _), body]
  simp only [List.drop_left]

/-- A frame that has not arrived as a whole is waited for, and the buffer stays as it is. -/
theorem OBPFrame.Accepted.waits (accepted : frame.Accepted) {part : Bytes} (begins : part <+: frame.bytes)
    (strict : part.length < frame.bytes.length) : OBPFrame.decode part = (.ok none, part) := by
  have total := accepted.total
  have header := header_length frame
  have size := obpField_length (frame.payload.getD [])
  rw [OBPFrame.bytes, List.length_append, List.length_append] at total strict
  rw [@decode_body part frame [] (begins.trans (List.prefix_append frame.bytes []))]
  have body : decodeBody part = .ok none := by
    rw [decodeBody]
    rcases Nat.lt_or_ge part.length obpFixedHeaderSize with short | long
    · rw [if_pos short]
    · rw [if_neg (Nat.not_lt.mpr long)]
      rw [OBPFrame.bytes, List.append_assoc] at begins
      obtain ⟨tail, rfl⟩ := List.prefix_of_prefix_length_le (List.prefix_append _ _) begins
        (by rw [header]; exact long)
      obtain ⟨_, _, _, count⟩ := @header_fields _ frame tail rfl accepted.count
      have inside := (List.prefix_append_right_inj _).mp begins
      rw [List.length_append] at strict
      simp only [count]
      rw [if_neg (Nat.not_lt.mpr accepted.count)]
      rcases Nat.lt_or_ge tail.length (frame.args.flatMap obpField).length with short | complete
      · have scanned := @scanArguments_part _ frame.header frame.args tail rfl
          (List.prefix_of_prefix_length_le inside (List.prefix_append _ _) (Nat.le_of_lt short)) short
          accepted.arguments (by omega)
        rw [header] at scanned
        rw [scanned]
        rfl
      · obtain ⟨piece, rfl⟩ := List.prefix_of_prefix_length_le (List.prefix_append _ _) inside complete
        rw [List.length_append] at strict
        have scanned := (@scanArguments_fields _ frame.header frame.args piece
          (List.append_assoc _ _ _).symm accepted.arguments (by omega)).1
        have payload := @decodePayload_part _ (frame.header ++ frame.args.flatMap obpField)
          (frame.payload.getD []) piece (List.append_assoc _ _ _).symm
          ((List.prefix_append_right_inj _).mp inside) (by omega) accepted.payload
          (by rw [List.length_append]; omega)
        rw [header] at scanned
        rw [List.length_append, header] at payload
        rw [scanned]
        simp only [bind, Except.bind]
        rw [payload]
        rfl
  rw [body]

end Frames

section Connection

def obpReadBufferSize : Nat := 8192

inductive Ending where
  /-- Everything that has arrived is decoded, up to the beginning of a frame. -/
  | waiting (buf : Bytes)
  | oversized
  | malformed (error : OBPProtocolError)
  deriving DecidableEq, Repr

theorem orOverflow_ok {first second sum : Nat} (added : orOverflow (checkedAdd first second) = .ok sum) :
    sum = first + second := by
  unfold checkedAdd at added
  split at added
  · cases added
    rfl
  · cases added

theorem bind_ok {α β : Type} {first : Except OBPProtocolError α} {next : α → Except OBPProtocolError β} {result : β}
    (succeeds : first >>= next = .ok result) : ∃ value, first = .ok value ∧ next value = .ok result := by
  cases first with
  | error failure => cases succeeds
  | ok value => exact ⟨value, rfl, succeeds⟩

theorem decodePayload_positive {buf : Bytes} {offset frameEnd : Nat} {payload : Option Bytes}
    (decoded : decodePayload buf offset = .ok (some (payload, frameEnd))) : 0 < frameEnd := by
  obtain ⟨lengthEnd, summed, decoded⟩ := bind_ok decoded
  have first := orOverflow_ok summed
  rw [obpPayloadLengthSize] at first
  split at decoded
  · cases decoded
  dsimp only at decoded
  split at decoded
  · cases decoded
  obtain ⟨found, added, decoded⟩ := bind_ok decoded
  have second := orOverflow_ok added
  split at decoded
  · cases decoded
  split at decoded
  · cases decoded
  · cases decoded
    omega

theorem decodeBody_positive {buf : Bytes} {frame : OBPFrame} {frameEnd : Nat}
    (decoded : decodeBody buf = .ok (some (frame, frameEnd))) : 0 < frameEnd ∧ 0 < buf.length := by
  unfold decodeBody at decoded
  split at decoded
  · cases decoded
  next long =>
    dsimp only at decoded
    split at decoded
    · cases decoded
    obtain ⟨scanned, _, decoded⟩ := bind_ok decoded
    cases scanned with
    | none => cases decoded
    | some offset =>
        obtain ⟨payload, found, decoded⟩ := bind_ok decoded
        cases payload with
        | none => cases decoded
        | some payload =>
            cases decoded
            rw [obpFixedHeaderSize] at long
            exact ⟨decodePayload_positive found, by omega⟩

/-- A frame takes something from the buffer. -/
theorem decode_shortens {buf rest : Bytes} {frame : OBPFrame}
    (decoded : OBPFrame.decode buf = (.ok (some frame), rest)) : rest.length < buf.length := by
  unfold OBPFrame.decode at decoded
  split at decoded
  · cases decoded
  split at decoded
  · cases decoded
  split at decoded
  · cases decoded
  · cases decoded
  next found frameEnd body =>
    cases decoded
    have positive := decodeBody_positive body
    rw [List.length_drop]
    omega

set_option linter.unusedVariables false in
/-- The inner loop of the connection: frames are taken from the buffer until none is complete. -/
def decodeFrames (buf : Bytes) : List OBPFrame × Except OBPProtocolError Bytes :=
  match decoded : OBPFrame.decode buf with
  | (.error error, _) => ([], .error error)
  | (.ok none, rest) => ([], .ok rest)
  | (.ok (some frame), rest) =>
      let later := decodeFrames rest
      (frame :: later.1, later.2)
termination_by buf.length
decreasing_by exact decode_shortens decoded

/-- The connection loop over the reads of a connection: the frames it hands on, in order, and how it
ends. -/
def receiveFrames : Bytes → List Bytes → List OBPFrame × Ending
  | buf, [] => ([], .waiting buf)
  | buf, read :: reads =>
      if saturatingAdd buf.length read.length > maxObpFrameSize + obpReadBufferSize then ([], .oversized)
      else
        match decodeFrames (buf ++ read) with
        | (frames, .error error) => (frames, .malformed error)
        | (frames, .ok rest) =>
            let later := receiveFrames rest reads
            (frames ++ later.1, later.2)

/-- Frames behind one another in one buffer. -/
def encodeFrames : List OBPFrame → EStateM OBPProtocolError Bytes Unit
  | [] => pure ()
  | frame :: frames => do
      frame.encode
      encodeFrames frames

abbrev framesBytes (frames : List OBPFrame) : Bytes := frames.flatMap OBPFrame.bytes

theorem encodeFrames_ok {frames : List OBPFrame} {buf stream : Bytes}
    (encoded : encodeFrames frames buf = .ok () stream) :
    stream = buf ++ framesBytes frames ∧ ∀ frame ∈ frames, frame.Accepted := by
  induction frames generalizing buf with
  | nil =>
      cases encoded
      simp
  | cons frame frames following =>
      rw [encodeFrames] at encoded
      simp only [bind, EStateM.bind] at encoded
      rcases encode_cases frame buf with ⟨error, failed⟩ | ⟨written, accepted⟩
      · rw [failed] at encoded
        cases encoded
      · rw [written] at encoded
        obtain ⟨rfl, rest⟩ := following encoded
        refine ⟨by simp [framesBytes], ?_⟩
        intro other member
        rcases List.mem_cons.mp member with rfl | later
        · exact accepted
        · exact rest other later

theorem decodeFrames_some {buf rest : Bytes} {frame : OBPFrame}
    (decoded : OBPFrame.decode buf = (.ok (some frame), rest)) :
    decodeFrames buf = (frame :: (decodeFrames rest).1, (decodeFrames rest).2) := by
  rw [decodeFrames]
  split <;> rename_i found <;> rw [decoded] at found <;> cases found
  rfl

theorem decodeFrames_none {buf : Bytes} (waits : OBPFrame.decode buf = (.ok none, buf)) :
    decodeFrames buf = ([], .ok buf) := by
  rw [decodeFrames]
  split <;> rename_i found <;> rw [waits] at found <;> cases found
  rfl

/-- A buffer that holds the beginning of the first of these frames, and not all of it. -/
def Unfinished (buf : Bytes) : List OBPFrame → Prop
  | [] => buf = []
  | frame :: _ => buf <+: frame.bytes ∧ buf.length < frame.bytes.length

/-- From the beginning of a stream of frames, the inner loop takes the frames that are complete. -/
theorem decodeFrames_stream {frames : List OBPFrame} (accepted : ∀ frame ∈ frames, frame.Accepted) {buf : Bytes}
    (begins : buf <+: framesBytes frames) :
    ∃ done pending part, frames = done ++ pending ∧ buf = framesBytes done ++ part ∧ Unfinished part pending ∧
      decodeFrames buf = (done.map OBPFrame.readBack, .ok part) := by
  induction frames generalizing buf with
  | nil =>
      obtain rfl : buf = [] := List.prefix_nil.mp begins
      exact ⟨[], [], [], rfl, rfl, rfl, decodeFrames_none rfl⟩
  | cons frame frames following =>
      have first := accepted frame List.mem_cons_self
      rw [framesBytes, List.flatMap_cons] at begins
      rcases Nat.lt_or_ge buf.length frame.bytes.length with short | long
      · have inside := List.prefix_of_prefix_length_le begins (List.prefix_append _ _) (Nat.le_of_lt short)
        exact ⟨[], frame :: frames, buf, rfl, rfl, ⟨inside, short⟩, decodeFrames_none (first.waits inside short)⟩
      · obtain ⟨tail, rfl⟩ := List.prefix_of_prefix_length_le (List.prefix_append _ _) begins long
        obtain ⟨done, pending, part, rfl, rfl, unfinished, decoded⟩ := following
          (fun other member => accepted other (List.mem_cons_of_mem _ member))
          ((List.prefix_append_right_inj _).mp begins)
        refine ⟨frame :: done, pending, part, rfl, ?_, unfinished, ?_⟩
        · simp only [framesBytes, List.flatMap_cons, List.append_assoc]
        · rw [decodeFrames_some (first.decodes _), decoded]
          rfl

/-- An unfinished frame and a read stay below the limit of the connection. -/
theorem Unfinished.small {buf : Bytes} {frames : List OBPFrame} (unfinished : Unfinished buf frames)
    (accepted : ∀ frame ∈ frames, frame.Accepted) : buf.length ≤ maxObpFrameSize := by
  cases frames with
  | nil =>
      rw [unfinished]
      exact Nat.zero_le _
  | cons frame frames =>
      have total := (accepted frame List.mem_cons_self).total
      have short := unfinished.2
      omega

theorem Unfinished.nil {buf : Bytes} {frames : List OBPFrame} (unfinished : Unfinished buf frames)
    (whole : buf = framesBytes frames) : buf = [] ∧ frames = [] := by
  cases frames with
  | nil => exact ⟨unfinished, rfl⟩
  | cons frame frames =>
      have short := unfinished.2
      rw [whole, framesBytes, List.flatMap_cons, List.length_append] at short
      omega

theorem receiveFrames_stream {frames : List OBPFrame} (accepted : ∀ frame ∈ frames, frame.Accepted)
    {buf : Bytes} (unfinished : Unfinished buf frames) {reads : List Bytes}
    (sized : ∀ read ∈ reads, read.length ≤ obpReadBufferSize) (whole : buf ++ reads.flatten = framesBytes frames) :
    receiveFrames buf reads = (frames.map OBPFrame.readBack, .waiting []) := by
  induction reads generalizing buf frames with
  | nil =>
      rw [List.flatten_nil, List.append_nil] at whole
      obtain ⟨rfl, rfl⟩ := unfinished.nil whole
      rfl
  | cons read reads following =>
      have small := unfinished.small accepted
      have room := sized read List.mem_cons_self
      have begins : buf ++ read <+: framesBytes frames := by
        rw [← whole, List.flatten_cons, ← List.append_assoc]
        exact List.prefix_append _ _
      obtain ⟨done, pending, part, rfl, split, still, decoded⟩ := decodeFrames_stream accepted begins
      have later : part ++ reads.flatten = framesBytes pending := by
        have joined : framesBytes (done ++ pending) = framesBytes done ++ framesBytes pending :=
          List.flatMap_append
        rw [List.flatten_cons, ← List.append_assoc, split, joined, List.append_assoc] at whole
        exact List.append_cancel_left whole
      have unbounded : ¬ saturatingAdd buf.length read.length > maxObpFrameSize + obpReadBufferSize := by
        have least : saturatingAdd buf.length read.length ≤ buf.length + read.length := Nat.min_le_left _ _
        omega
      rw [receiveFrames, if_neg unbounded, decoded]
      simp only
      rw [following (fun frame member => accepted frame (List.mem_append_right _ member)) still
        (fun piece member => sized piece (List.mem_cons_of_mem _ member)) later, List.map_append]

/-- What the encoder accepts, the connection reads back, however the bytes arrive; and the beginning of a
frame is waited for. -/
theorem encodeFrames_received :
    (∀ (frames : List OBPFrame) (stream : Bytes) (reads : List Bytes),
      encodeFrames frames [] = .ok () stream → reads.flatten = stream →
      (∀ read ∈ reads, 1 ≤ read.length ∧ read.length ≤ obpReadBufferSize) →
      receiveFrames [] reads = (frames.map OBPFrame.readBack, .waiting [])) ∧
    ∀ (frame : OBPFrame) (bytes part : Bytes), frame.encode [] = .ok () bytes → part <+: bytes → part ≠ bytes →
      OBPFrame.decode part = (.ok none, part) := by
  refine ⟨?_, ?_⟩
  · intro frames stream reads encoded cut sized
    obtain ⟨rfl, accepted⟩ := encodeFrames_ok encoded
    have begun : Unfinished [] frames := by
      cases frames with
      | nil => rfl
      | cons frame frames =>
          refine ⟨List.nil_prefix, ?_⟩
          rw [OBPFrame.bytes, List.length_append, List.length_append, header_length, obpFixedHeaderSize]
          exact Nat.lt_of_lt_of_le (by decide) (Nat.le_add_right_of_le (Nat.le_add_right 11 _))
    exact receiveFrames_stream accepted begun (fun read member => (sized read member).2) cut
  · intro frame bytes part encoded begins differs
    rcases encode_cases frame [] with ⟨error, failed⟩ | ⟨written, accepted⟩
    · rw [failed] at encoded
      cases encoded
    · rw [written] at encoded
      cases encoded
      apply accepted.waits begins
      apply Nat.lt_of_le_of_ne begins.length_le
      intro same
      exact differs (begins.eq_of_length same)

/-- Two frames, the first with an empty payload, in two reads. -/
theorem two_frames_received :
    receiveFrames [] [[0x4F, 1, 2, 0, 0, 0, 0, 0, 7, 0, 1, 0, 0, 0, 1, 107, 0, 0],
        [0, 0, 0x4F, 1, 3, 0, 0, 0, 0, 0, 8, 0, 0, 0, 0, 0, 1, 118]] =
      ([⟨2, 0, 7, [[107]], none⟩, ⟨3, 0, 8, [], some [118]⟩], .waiting []) :=
  encodeFrames_received.1 [⟨2, 0, 7, [[107]], some []⟩, ⟨3, 0, 8, [], some [118]⟩] _ _ rfl rfl (by decide)

end Connection

end OnyxDB.Protocol.Obp
