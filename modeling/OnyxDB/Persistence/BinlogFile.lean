import OnyxDB.Persistence.Directory
import OnyxDB.Persistence.Record

/-! The active binlog with its sealed generations, under storage calls that may each succeed, write
short, be interrupted or fail. A call that fails leaves the directory as it was. -/

namespace OnyxDB.Persistence.BinlogFile
open OnyxDB.Library OnyxDB.Engine OnyxDB.Engine.Value
open OnyxDB.Persistence OnyxDB.Persistence.Model OnyxDB.Persistence.Record

inductive IoErrorKind where
  | interrupted
  | writeZero
  | other
  deriving DecidableEq, Repr

structure IoError where
  kind : IoErrorKind
  message : String
  deriving DecidableEq, Repr

/-- What the operating system does with the next call. A `short` write stores at most the given
number of bytes; calls other than writes succeed unless they `fail`. -/
inductive Fault where
  | succeed
  | short (written : Nat)
  | interrupted
  | fail (reason : String)
  deriving DecidableEq, Repr

/-- `file` is the cursor of the open handle on the active binlog. -/
structure ManagedBinlogFile where
  file : Option Nat
  directory : Directory

/-- The storage and the outcomes of the calls to come; once they run out every call succeeds. -/
structure Device where
  binlog : ManagedBinlogFile
  faults : List Fault

abbrev Io := EStateM IoError Device

def nextFault : Io Fault := fun device =>
  match device.faults with
  | [] => .ok .succeed device
  | fault :: rest => .ok fault { device with faults := rest }

/-- A call that either takes its whole effect or fails without any. -/
def call (effect : ManagedBinlogFile → ManagedBinlogFile) : Io Unit := do
  match ← nextFault with
  | .fail reason => throw ⟨.other, reason⟩
  | _ => modify fun device => { device with binlog := effect device.binlog }

namespace ManagedBinlogFile

def active (binlog : ManagedBinlogFile) : Bytes := binlog.directory.binlog.getD []

def setActive (bytes : Bytes) (cursor : Nat) (binlog : ManagedBinlogFile) : ManagedBinlogFile :=
  { file := some cursor, directory := { binlog.directory with binlog := some bytes } }

def setSegments (segments : Catalog Bytes) (binlog : ManagedBinlogFile) : ManagedBinlogFile :=
  { binlog with directory := { binlog.directory with segments := segments } }

end ManagedBinlogFile

/-- `File::set_len`. -/
def setLen (length : Nat) (bytes : Bytes) : Bytes :=
  bytes.take length ++ List.replicate (length - bytes.length) 0

/-- The file after `data` is written at `cursor`. -/
def writeAt (bytes : Bytes) (cursor : Nat) (data : Bytes) : Bytes :=
  setLen cursor bytes ++ data ++ bytes.drop (cursor + data.length)

def handleUnavailable : IoError :=
  ⟨.other, "Active binlog handle is unavailable after rotation failure"⟩

def fileMut : Io Nat := fun device =>
  match device.binlog.file with
  | some cursor => .ok cursor device
  | none => .error handleUnavailable device

def write (buffer : Bytes) : Io Nat := do
  let cursor ← fileMut
  let store (data : Bytes) : Io Nat := do
    modify fun device => { device with
      binlog := device.binlog.setActive (writeAt device.binlog.active cursor data)
        (cursor + data.length) }
    return data.length
  match ← nextFault with
  | .succeed => store buffer
  | .short written => store (buffer.take written)
  | .interrupted => throw ⟨.interrupted, "interrupted"⟩
  | .fail reason => throw ⟨.other, reason⟩

def flush : Io Unit := do
  let _ ← fileMut
  call id

def syncData : Io Unit := do
  let _ ← fileMut
  call id

def syncAll : Io Unit := do
  let _ ← fileMut
  call id

def seekStart (position : Nat) : Io Unit := do
  let _ ← fileMut
  call fun binlog => { binlog with file := some position }

/-- Moves to the end of the active file and returns its length. -/
def seekEnd : Io Nat := do
  let _ ← fileMut
  call fun binlog => { binlog with file := some binlog.active.length }
  return (← get).binlog.active.length

def listBinlogSegments : Io (List Nat) := do
  call id
  let directory := (← get).binlog.directory
  match directory.malformedSegments with
  | name :: _ => throw ⟨.other, s!"Malformed binlog segment name: {name}"⟩
  | [] => return directory.segments.entries.map Prod.fst

def removeSegments : List Nat → Io Unit
  | [] => pure ()
  | endSequence :: rest => do
      call fun binlog => binlog.setSegments (binlog.directory.segments.erase endSequence)
      removeSegments rest

def removeAllBinlogSegments : Io Unit := do
  let segments ← listBinlogSegments
  removeSegments segments
  if segments.isEmpty then pure () else call id

/-- `ManagedBinlogFile::truncate`; all its errors are of the `Indeterminate` kind. -/
def truncate (length : Nat) : Io Unit := do
  let _ ← fileMut
  call fun binlog => { binlog with
    directory := { binlog.directory with binlog := some (setLen length binlog.active) } }
  seekStart length
  if length = 0 then removeAllBinlogSegments else pure ()

inductive StorageFailureDisposition where
  | rejected
  | indeterminate
  deriving DecidableEq, Repr

structure StorageFailure where
  disposition : StorageFailureDisposition
  message : String
  deriving DecidableEq, Repr

def StorageFailure.rejected (message : String) : StorageFailure := ⟨.rejected, message⟩

def StorageFailure.indeterminate (message : String) : StorageFailure := ⟨.indeterminate, message⟩

inductive FsyncPolicy where
  | always
  | everySec
  | no
  deriving DecidableEq, Repr

/-- Runs a call and names its failure. -/
def named (context : String) (action : Io Unit) (device : Device) : Except String Unit × Device :=
  match action device with
  | .ok () device => (.ok (), device)
  | .error error device => (.error s!"{context}: {error.message}", device)

def rollbackSteps (previousLength : Nat) (device : Device) : Except String Unit × Device :=
  match named "tail truncation failed" (truncate previousLength) device with
  | (.error error, device) => (.error error, device)
  | (.ok (), device) =>
      match named "tail seek failed" (seekStart previousLength) device with
      | (.error error, device) => (.error error, device)
      | (.ok (), device) =>
          match named "rollback flush failed" flush device with
          | (.error error, device) => (.error error, device)
          | (.ok (), device) => named "rollback sync failed" syncAll device

def rollbackBinlogTail (previousLength : Nat) (originalError : IoError) (device : Device) :
    StorageFailure × Device :=
  match rollbackSteps previousLength device with
  | (.ok (), device) =>
      (.rejected s!"Binlog append was durably rolled back after I/O failure: {originalError.message}",
        device)
  | (.error rollbackError, device) =>
      (.indeterminate s!"Binlog append failed after possible modification ({originalError.message}) and durable tail rollback could not be proven ({rollbackError})",
        device)

/-- The write loop, and whether it modified the file. Every pass over a non-empty buffer uses up
one outcome, so `fuel` above the number of outcomes is never exhausted. -/
def writeAllTrackingModification :
    Nat → Bytes → Bool → Device → (Except IoError Unit × Bool) × Device
  | 0, _, modified, device => ((.error ⟨.other, "out of fuel"⟩, modified), device)
  | fuel + 1, buffer, modified, device =>
      if buffer.isEmpty then ((.ok (), modified), device)
      else
        match write buffer device with
        | .ok 0 device =>
            ((.error ⟨.writeZero, "failed to write the complete binlog record"⟩, modified), device)
        | .ok written device =>
            writeAllTrackingModification fuel (buffer.drop written) true device
        | .error error device =>
            if error.kind = .interrupted then
              writeAllTrackingModification fuel buffer modified device
            else ((.error error, modified), device)

/-- Completes the physical append once every byte is written. -/
def settle (fsyncPolicy : FsyncPolicy) : Io Unit := do
  flush
  if fsyncPolicy = .always then syncData else pure ()

def writeResult (fsyncPolicy : FsyncPolicy) (written : Except IoError Unit) (device : Device) :
    Except IoError Unit × Device :=
  match written with
  | .error error => (.error error, device)
  | .ok () =>
      match settle fsyncPolicy device with
      | .ok () device => (.ok (), device)
      | .error error device => (.error error, device)

def appendResult (previousLength : Nat) (modified : Bool) (result : Except IoError Unit)
    (device : Device) : Except StorageFailure Unit × Device :=
  match result with
  | .ok () => (.ok (), device)
  | .error error =>
      if modified then
        let (failure, device) := rollbackBinlogTail previousLength error device
        (.error failure, device)
      else
        (.error (.rejected s!"Binlog append failed before modifying the file: {error.message}"),
          device)

/-- The append once the cursor is at the end of the file. -/
def appendAtEnd (encodedTail : Bytes) (fsyncPolicy : FsyncPolicy) (previousLength : Nat)
    (device : Device) : Except StorageFailure Unit × Device :=
  let ((written, modified), device) :=
    writeAllTrackingModification (device.faults.length + 2) encodedTail false device
  let (result, device) := writeResult fsyncPolicy written device
  appendResult previousLength modified result device

def appendBinlogTail (encodedTail : Bytes) (fsyncPolicy : FsyncPolicy) (device : Device) :
    Except StorageFailure Unit × Device :=
  match seekEnd device with
  | .error error device => (.error (.rejected s!"Binlog seek failed: {error.message}"), device)
  | .ok previousLength device => appendAtEnd encodedTail fsyncPolicy previousLength device

/-- The physical size of an append group. -/
def encodedLength (records : List (Nat × Bytes)) : Except StorageFailure Nat :=
  records.foldlM (fun total record =>
    match framedVersionedBinlogRecordLength record.2.length with
    | .error error => .error (.rejected error.message)
    | .ok recordLength =>
        if total + recordLength < 2 ^ 64 then .ok (total + recordLength)
        else .error (.rejected "Binlog append group exceeds addressable memory")) 0

variable [Platform]

def appendEncodedRecord (output : Bytes) (record : Nat × Bytes) : Except StorageFailure Bytes :=
  match encodeFramedVersionedBinlogRecordInto record.1 record.2 output with
  | .error error => .error (.rejected error.message)
  | .ok output => .ok output

def encodedTail (records : List (Nat × Bytes)) : Except StorageFailure Bytes :=
  records.foldlM appendEncodedRecord []

/-- `append_binlog_records`. Reserving the buffer is one more call that may fail. -/
def appendBinlogRecords (records : List (Nat × Bytes)) (fsyncPolicy : FsyncPolicy)
    (device : Device) : Except StorageFailure Unit × Device :=
  if records.isEmpty then
    (.error (.rejected "A binlog append group must contain at least one record"), device)
  else
    match encodedLength records with
    | .error failure => (.error failure, device)
    | .ok _ =>
        match call id device with
        | .error _ device =>
            (.error (.rejected "Unable to allocate the encoded binlog append group"), device)
        | .ok () device =>
            match encodedTail records with
            | .error failure => (.error failure, device)
            | .ok tail => appendBinlogTail tail fsyncPolicy device

end OnyxDB.Persistence.BinlogFile
