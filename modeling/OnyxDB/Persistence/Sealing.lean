import OnyxDB.Persistence.Directory

/-! Sealing the active generation, down to the names of the files, the files they lead to and the open handle.
Every call to the file system may fail, and one that fails leaves the directory as it was. -/

namespace OnyxDB.Persistence.Sealing
open OnyxDB.Engine.Value OnyxDB.Persistence

inductive ErrorKind where
  | invalidInput
  | alreadyExists
  | notFound
  | other
  deriving DecidableEq, Repr

structure IoError where
  kind : ErrorKind
  message : String
  deriving DecidableEq, Repr

inductive BinlogRotationError where
  | unchanged (error : IoError)
  | indeterminate (error : IoError)
  deriving DecidableEq, Repr

/-- The names in the data directory: the active binlog, the segments, and everything else. -/
inductive FileName where
  | binlog
  | segment (endSequence : Nat)
  | other (name : String)
  deriving DecidableEq, Repr

/-- An open file and the position in it. -/
structure Handle where
  inode : Nat
  cursor : Nat
  deriving DecidableEq, Repr

/-- Names lead to files; a file that is created gets the number `fresh`, which no name leads to. -/
structure Storage where
  names : FileName → Option Nat
  contents : Nat → Bytes
  fresh : Nat
  bounded : ∀ name inode, names name = some inode → inode < fresh

namespace Storage

/-- The file a name leads to. -/
def file (storage : Storage) (name : FileName) : Option Bytes := (storage.names name).map storage.contents

/-- `rename`, which replaces what the target led to. -/
def rename (storage : Storage) (source target : FileName) : Storage where
  names := Function.update (Function.update storage.names target (storage.names source)) source none
  contents := storage.contents
  fresh := storage.fresh
  bounded := by
    intro name inode held
    by_cases moved : name = source
    · rw [moved, Function.update_self] at held
      cases held
    · rw [Function.update_of_ne moved] at held
      by_cases renamed : name = target
      · rw [renamed, Function.update_self] at held
        exact storage.bounded source inode held
      · rw [Function.update_of_ne renamed] at held
        exact storage.bounded name inode held

/-- An empty new file under a name. -/
def create (storage : Storage) (name : FileName) : Storage where
  names := Function.update storage.names name (some storage.fresh)
  contents := Function.update storage.contents storage.fresh []
  fresh := storage.fresh + 1
  bounded := by
    intro other inode held
    by_cases same : other = name
    · rw [same, Function.update_self] at held
      cases held
      exact Nat.lt_succ_self _
    · rw [Function.update_of_ne same] at held
      exact Nat.lt_succ_of_lt (storage.bounded other inode held)

end Storage

/-- `directory` is what the path of a segment begins with. -/
structure ManagedBinlogFile where
  file : Option Handle
  directory : String
  storage : Storage

/-- The binlog and the outcomes of the calls to come, each of which may be an error. -/
structure Device where
  binlog : ManagedBinlogFile
  outcomes : Nat → Option IoError

abbrev Io := EStateM IoError Device

/-- The device once the outcomes of some calls are used up. -/
def Device.skip (device : Device) (calls : Nat) : Device :=
  { device with outcomes := fun later => device.outcomes (later + calls) }

/-- A call that reads the storage, or fails. -/
def examine {α : Type} (view : ManagedBinlogFile → Except IoError α) : Io α := fun device =>
  match device.outcomes 0 with
  | some error => .error error (device.skip 1)
  | none =>
      match view device.binlog with
      | .error error => .error error (device.skip 1)
      | .ok value => .ok value (device.skip 1)

/-- A call without an answer that takes effect or fails. -/
def call (effect : ManagedBinlogFile → Except IoError ManagedBinlogFile) : Io Unit := fun device =>
  match examine effect device with
  | .error error device => .error error device
  | .ok binlog device => .ok () { device with binlog }

def missing : IoError := ⟨.notFound, "No such file or directory"⟩

/-- `Path::exists`, which answers `false` when the file cannot be examined. -/
def pathExists {ε : Type} (name : FileName) : EStateM ε Device Bool := fun device =>
  match device.outcomes 0 with
  | some _ => .ok false (device.skip 1)
  | none => .ok (device.binlog.storage.names name).isSome (device.skip 1)

def fileMut : Io Handle := fun device =>
  match device.binlog.file with
  | some handle => .ok handle device
  | none => .error ⟨.other, "Active binlog handle is unavailable after rotation failure"⟩ device

/-- `metadata().len()` of an open file. -/
def fileLength (handle : Handle) : Io Nat :=
  examine fun binlog => .ok (binlog.storage.contents handle.inode).length

/-- A call that changes no name and no byte. -/
def idle : Io Unit := call fun binlog => .ok binlog

def flush : Io Unit := do
  let _ ← fileMut
  idle

def syncAll : Io Unit := do
  let _ ← fileMut
  idle

def durableRename (source target : FileName) : Io Unit :=
  call fun binlog =>
    if (binlog.storage.names source).isSome then
      .ok { binlog with storage := binlog.storage.rename source target }
    else .error missing

/-- `sync_parent_directory`: the directory is opened and synced. -/
def syncParentDirectory : Io Unit := do
  idle
  idle

def openFile (name : FileName) : Io Nat :=
  examine fun binlog =>
    match binlog.storage.names name with
    | some inode => .ok inode
    | none => .error missing

/-- `seek(SeekFrom::End(0))`. -/
def seekEnd (inode : Nat) : Io Handle :=
  examine fun binlog => .ok ⟨inode, (binlog.storage.contents inode).length⟩

/-- `OpenOptions::create_new`. -/
def createNew (name : FileName) : Io Handle := fun device =>
  match call (fun binlog =>
    if (binlog.storage.names name).isSome then .error ⟨.alreadyExists, "File exists"⟩
    else .ok { binlog with storage := binlog.storage.create name }) device with
  | .error error after => .error error after
  | .ok () after => .ok ⟨device.binlog.storage.fresh, 0⟩ after

def setFile {ε : Type} (file : Option Handle) : EStateM ε Device Unit := fun device =>
  .ok () { device with binlog := { device.binlog with file } }

/-- Runs an action and gives its error as a value. -/
def attempt {ε α : Type} (action : Io α) : EStateM ε Device (Except IoError α) := fun device =>
  match action device with
  | .ok value device => .ok (.ok value) device
  | .error error device => .ok (.error error) device

def mapErr {ε α : Type} (wrap : IoError → ε) (action : Io α) : EStateM ε Device α := fun device =>
  match action device with
  | .ok value device => .ok value device
  | .error error device => .error (wrap error) device

def reopenActive : Io Unit := do
  let inode ← openFile .binlog
  let handle ← seekEnd inode
  setFile (some handle)

/-- What puts a sealed segment back under the active name. -/
def restoration (segment : FileName) : Io Unit := do
  durableRename segment .binlog
  syncParentDirectory
  reopenActive

abbrev Rotation := EStateM BinlogRotationError Device

def becameVisible (originalError : IoError) : IoError :=
  ⟨.other, s!"Binlog generation sealing failed ({originalError.message}) after a new active path became visible"⟩

def notRestored (originalError restorationError : IoError) : IoError :=
  ⟨.other,
    s!"Binlog generation sealing failed ({originalError.message}) and the original active file could not be restored ({restorationError.message})"⟩

def notReopened (error reopenError : IoError) : IoError :=
  ⟨.other,
    s!"Binlog generation rename failed ({error.message}) and the active file could not be reopened ({reopenError.message})"⟩

def restoreSegmentAfterFailedSeal (segment : FileName) (originalError : IoError) : Rotation Nat := do
  if ← pathExists .binlog then
    throw (.indeterminate (becameVisible originalError))
  match ← attempt (restoration segment) with
  | .ok () => throw (.unchanged originalError)
  | .error restorationError => throw (.indeterminate (notRestored originalError restorationError))

/-- The last steps of `seal_active`: the successor is made durable and becomes the active file. -/
def adoptSuccessor (active : Handle) (activeLength : Nat) : Rotation Nat := do
  match ← attempt idle with
  | .error error =>
      setFile (some active)
      throw (.indeterminate error)
  | .ok () =>
      match ← attempt syncParentDirectory with
      | .error error =>
          setFile (some active)
          throw (.indeterminate error)
      | .ok () =>
          let handle ← mapErr .indeterminate (seekEnd active.inode)
          setFile (some handle)
          return activeLength

/-- `seal_active` once the former active file has its segment's name. -/
def installSuccessor (segment : FileName) (activeLength : Nat) : Rotation Nat := do
  match ← attempt syncParentDirectory with
  | .error error => restoreSegmentAfterFailedSeal segment error
  | .ok () =>
      match ← attempt (createNew .binlog) with
      | .error error => restoreSegmentAfterFailedSeal segment error
      | .ok active => adoptSuccessor active activeLength

/-- `seal_active` once the active file is synced. -/
def moveActive (segment : FileName) (activeLength : Nat) : Rotation Nat := do
  setFile none
  match ← attempt (durableRename .binlog segment) with
  | .error error =>
      match ← attempt reopenActive with
      | .ok () => throw (.unchanged error)
      | .error reopenError => throw (.indeterminate (notReopened error reopenError))
  | .ok () => installSuccessor segment activeLength

/-- `seal_active` once there is something to seal and nothing seen in the place of its segment. -/
def sealUnder (segment : FileName) (activeLength : Nat) : Rotation Nat := do
  mapErr .indeterminate flush
  mapErr .indeterminate syncAll
  moveActive segment activeLength

def segmentExists (endSequence : Nat) : Rotation Nat := do
  let directory := (← get).binlog.directory
  throw (.unchanged ⟨.alreadyExists, s!"Binlog segment already exists: {directory}{binlogSegment endSequence}"⟩)

/-- `seal_active` gives the number of sealed bytes; it also reports how long its phases took. -/
def sealActive (endSequence : Nat) : Rotation Nat := do
  let handle ← mapErr .indeterminate fileMut
  let activeLength ← mapErr .unchanged (fileLength handle)
  if activeLength = 0 then
    return 0
  else if endSequence = 0 then
    throw (.unchanged ⟨.invalidInput, "A non-empty binlog cannot be sealed at sequence zero"⟩)
  else
    match ← pathExists (.segment endSequence) with
    | true => segmentExists endSequence
    | false => sealUnder (.segment endSequence) activeLength

end OnyxDB.Persistence.Sealing
