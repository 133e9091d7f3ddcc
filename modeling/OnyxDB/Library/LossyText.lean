import OnyxDB.Library.Decimal

/-! Decoding UTF-8 with substitution: every maximal ill-formed piece becomes one replacement character. -/

namespace OnyxDB.Library.LossyText
open OnyxDB.Library.Decimal

def replacement : Char := Char.ofNat 0xFFFD

def isContinuation (byte : UInt8) : Bool := decide (128 ≤ byte ∧ byte ≤ 191)

/-- The second bytes a lead byte of three or four bytes may be followed by. -/
def allowsSecond (lead second : UInt8) : Bool :=
  if lead = 0xE0 then decide (0xA0 ≤ second ∧ second ≤ 0xBF)
  else if lead = 0xED then decide (0x80 ≤ second ∧ second ≤ 0x9F)
  else if lead = 0xF0 then decide (0x90 ≤ second ∧ second ≤ 0xBF)
  else if lead = 0xF4 then decide (0x80 ≤ second ∧ second ≤ 0x8F)
  else isContinuation second

/-- The number of bytes a character with this lead byte has, zero if there is none. -/
def charWidth (lead : UInt8) : Nat :=
  if lead < 0x80 then 1
  else if lead < 0xC2 then 0
  else if lead < 0xE0 then 2
  else if lead < 0xF0 then 3
  else if lead < 0xF5 then 4
  else 0

/-- The bytes after the lead byte that continue the character, at most as many as it wants. -/
def continuation (lead : UInt8) (rest : List UInt8) : List UInt8 :=
  match rest with
  | [] => []
  | second :: more =>
      if charWidth lead = 2 then (if isContinuation second then [second] else [])
      else if 3 ≤ charWidth lead then
        (if allowsSecond lead second then
          second :: (more.takeWhile isContinuation).take (charWidth lead - 2) else [])
      else []

/-- The scalar of a complete character. -/
def scalar (lead : UInt8) (continued : List UInt8) : Char :=
  let high := if continued.isEmpty then lead.toNat
    else if continued.length = 1 then lead.toNat % 32
    else if continued.length = 2 then lead.toNat % 16
    else lead.toNat % 8
  Char.ofNat (continued.foldl (fun value byte => value * 64 + byte.toNat % 64) high)

/-- The scan of `from_utf8_lossy`. -/
def substitute : List UInt8 → List Char
  | [] => []
  | lead :: rest =>
      let continued := continuation lead rest
      (if charWidth lead = continued.length + 1 then scalar lead continued else replacement) ::
        substitute (rest.drop continued.length)
termination_by bytes => bytes.length
decreasing_by
  rw [List.length_drop, List.length_cons]
  omega

/-- `String::from_utf8_lossy`: well-formed bytes are taken as they are. -/
def decodeLossy (bytes : List UInt8) : List Char := (decodeUtf8 bytes).getD (substitute bytes)

@[simp]
theorem decodeLossy_encode (text : List Char) : decodeLossy (text.flatMap String.utf8EncodeChar) = text := by
  rw [decodeLossy, decodeUtf8_encode]
  rfl

end OnyxDB.Library.LossyText
