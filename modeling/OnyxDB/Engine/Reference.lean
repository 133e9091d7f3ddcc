import OnyxDB.Engine.Platform

/-! A platform on which concrete runs can be evaluated: CRC-32 as specified, gzip members that hold
one stored block, and the JSON texts of values without fractions or escapes. -/

namespace OnyxDB.Engine.Reference
open OnyxDB.Engine OnyxDB.Engine.Value

def crc32Shift (register : Nat) : Nat :=
  if register % 2 = 1 then (register / 2) ^^^ 0xEDB88320 else register / 2

def crc32Byte (register : Nat) (byte : UInt8) : Nat :=
  Nat.repeat crc32Shift 8 (register ^^^ byte.toNat)

def crc32 (bytes : Bytes) : UInt32 :=
  UInt32.ofNat (bytes.foldl crc32Byte 0xFFFFFFFF ^^^ 0xFFFFFFFF)

example : crc32 (utf8Bytes "123456789") = 0xCBF43926 := by decide +kernel

def littleEndian (width value : Nat) : Bytes :=
  (List.range width).map (fun index => UInt8.ofNat (value / 256 ^ index))

def gzipHeader : Bytes := [0x1f, 0x8b, 8, 0, 0, 0, 0, 0, 0, 0xff]

/-- A gzip member with one stored block, which holds at most 65535 bytes. -/
def gzip (bytes : Bytes) : Bytes :=
  gzipHeader ++ [1] ++ littleEndian 2 bytes.length ++ littleEndian 2 (65535 - bytes.length) ++ bytes ++
    littleEndian 4 (crc32 bytes).toNat ++ littleEndian 4 bytes.length

def gunzip (stream : Bytes) : Bytes × Option String :=
  let body := (stream.drop 15).take (stream.length - 23)
  if gzip body = stream then (body, none) else ([], some "invalid gzip header")

theorem gunzip_gzip (bytes : Bytes) : gunzip (gzip bytes) = (bytes, none) := by
  have width (count value : Nat) : (littleEndian count value).length = count := by
    simp [littleEndian]
  have shape : gzip bytes = (gzipHeader ++ [1] ++ littleEndian 2 bytes.length ++
      littleEndian 2 (65535 - bytes.length)) ++ (bytes ++
        (littleEndian 4 (crc32 bytes).toNat ++ littleEndian 4 bytes.length)) := by
    simp [gzip]
  have front : (gzipHeader ++ [1] ++ littleEndian 2 bytes.length ++
      littleEndian 2 (65535 - bytes.length)).length = 15 := by
    simp only [List.length_append, width, gzipHeader, List.length_cons, List.length_nil]
  have total : (gzip bytes).length - 23 = bytes.length := by
    rw [shape, List.length_append, front]
    simp only [List.length_append, width]
    omega
  have body : ((gzip bytes).drop 15).take bytes.length = bytes := by
    rw [shape, List.drop_left' front, List.take_left' rfl]
  simp only [gunzip, total, body, if_true]

def jsonNumberToString : JsonNumber → String
  | .posInt n => toString n.toNat
  | .negInt n _ => toString n.toInt
  | .float x _ => if x.isNegative then "-0.0" else "0.0"

mutual

def jsonToString : Json → String
  | .null => "null"
  | .bool value => if value then "true" else "false"
  | .number value => jsonNumberToString value
  | .string value => "\"" ++ value ++ "\""
  | .array items => "[" ++ jsonItemsToString items ++ "]"
  | .object fields => "\x7b" ++ jsonFieldsToString fields ++ "\x7d"

def jsonItemsToString : List Json → String
  | [] => ""
  | [item] => jsonToString item
  | item :: rest => jsonToString item ++ "," ++ jsonItemsToString rest

def jsonFieldsToString : List (String × Json) → String
  | [] => ""
  | [(field, item)] => "\"" ++ field ++ "\":" ++ jsonToString item
  | (field, item) :: rest =>
      "\"" ++ field ++ "\":" ++ jsonToString item ++ "," ++ jsonFieldsToString rest

end

/-- The platform, given the JSON texts it can parse. -/
@[reducible]
def platform (jsonFromSlice : Bytes → Except String Json) : Platform where
  crc32 := crc32
  gzip := gzip
  gunzip := gunzip
  jsonToString := jsonToString
  jsonFromSlice := jsonFromSlice
  parseF64 := fun _ => none
  f64ToString := fun x => if x.isNegative then "-0" else "0"

end OnyxDB.Engine.Reference
