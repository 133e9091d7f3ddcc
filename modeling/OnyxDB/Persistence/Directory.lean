import OnyxDB.Engine.Value
import OnyxDB.Library.Catalog

/-! The files of a data directory, as `PersistencePaths` names them. A sealed segment is named by the
sequence of its last record; names that begin like a segment's but do not parse are kept apart. -/

namespace OnyxDB.Persistence
open OnyxDB.Library OnyxDB.Engine.Value

def maxBinlogSegments : Nat := 1024

def binlogSegmentPrefix : String := "onyx.binlog.segment."

def binlogSegmentSequenceWidth : Nat := 20

/-- The file name of the segment that ends at `endSequence`. -/
def binlogSegment (endSequence : Nat) : String :=
  let digits := Nat.toDigits 10 endSequence
  binlogSegmentPrefix ++
    String.ofList (List.replicate (binlogSegmentSequenceWidth - digits.length) '0' ++ digits)

structure Directory where
  snapshot : Option Bytes := none
  snapshotTemp : Option Bytes := none
  snapshotBackup : Option Bytes := none
  binlog : Option Bytes := none
  binlogTemp : Option Bytes := none
  binlogBackup : Option Bytes := none
  segments : Catalog Bytes := Catalog.empty
  malformedSegments : List String := []

end OnyxDB.Persistence
