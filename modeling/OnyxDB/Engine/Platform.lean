import OnyxDB.Engine.Value

/-! The libraries outside this repository that the server calls. Every result holds for any choice
of them; the laws a result relies on are stated where it is proved. -/

namespace OnyxDB.Engine
open OnyxDB.Engine.Value

class Platform where
  /-- `crc32fast::hash`. -/
  crc32 : Bytes → UInt32
  /-- The stream `GzEncoder` produces for the given bytes. -/
  gzip : Bytes → Bytes
  /-- The bytes `GzDecoder` yields, and the error that ends the stream early if there is one. -/
  gunzip : Bytes → Bytes × Option String
  /-- `serde_json::Value::to_string`; `serde_json::to_vec` writes the same text. -/
  jsonToString : Json → String
  /-- `serde_json::from_slice`, and `serde_json::from_str` on the bytes of a string. -/
  jsonFromSlice : Bytes → Except String Json
  /-- `str::parse::<f64>`. -/
  parseF64 : String → Option F64
  /-- `f64::to_string`. -/
  f64ToString : F64 → String

end OnyxDB.Engine
