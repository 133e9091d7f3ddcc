import OnyxDB.Persistence.Sealing

/-! Sealing tells the truth about what it did. -/

namespace OnyxDB.Persistence.Sealing
open OnyxDB.Engine.Value OnyxDB.Persistence

section Calls
variable {α β ε : Type}

/-- The device after some calls, with the binlog they leave. -/
def Device.leaves (device : Device) (calls : Nat) (binlog : ManagedBinlogFile) : Device :=
  ⟨binlog, fun later => device.outcomes (later + calls)⟩

theorem Device.leaves_leaves (device : Device) (first second : Nat) (middle after : ManagedBinlogFile) :
    (device.leaves first middle).leaves second after = device.leaves (first + second) after := by
  unfold leaves
  congr 1
  funext later
  change device.outcomes (later + second + first) = device.outcomes (later + (first + second))
  rw [Nat.add_assoc, Nat.add_comm second first]

@[simp]
theorem Device.leaves_binlog (device : Device) (calls : Nat) (binlog : ManagedBinlogFile) :
    (device.leaves calls binlog).binlog = binlog := rfl

/-- No call among the next ones fails. -/
def Clear (outcomes : Nat → Option IoError) (count : Nat) : Prop := ∀ index < count, outcomes index = none

/-- The first call that fails. -/
structure FailsFirst (outcomes : Nat → Option IoError) (step : Nat) (error : IoError) : Prop where
  before : Clear outcomes step
  failed : outcomes step = some error

theorem clear_or_fails (outcomes : Nat → Option IoError) (count : Nat) :
    Clear outcomes count ∨ ∃ step < count, ∃ error, FailsFirst outcomes step error := by
  induction count with
  | zero => exact Or.inl (fun index short => absurd short (Nat.not_lt_zero index))
  | succ count rest =>
      rcases rest with clear | ⟨step, short, error, fails⟩
      · cases outcome : outcomes count with
        | none =>
            left
            intro index short
            rcases Nat.lt_succ_iff_lt_or_eq.mp short with early | rfl
            · exact clear index early
            · exact outcome
        | some error => exact Or.inr ⟨count, Nat.lt_succ_self _, error, clear, outcome⟩
      · exact Or.inr ⟨step, Nat.lt_succ_of_lt short, error, fails⟩

theorem FailsFirst.step_eq {outcomes : Nat → Option IoError} {first second : Nat} {error other : IoError}
    (one : FailsFirst outcomes first error) (two : FailsFirst outcomes second other) : first = second := by
  rcases Nat.lt_trichotomy first second with early | same | late
  · have none := two.before first early
    rw [one.failed] at none
    cases none
  · exact same
  · have none := one.before second late
    rw [two.failed] at none
    cases none

theorem Clear.append {outcomes : Nat → Option IoError} {first second : Nat} (clear : Clear outcomes first)
    (others : Clear (fun later => outcomes (later + first)) second) : Clear outcomes (first + second) := by
  intro index short
  by_cases early : index < first
  · exact clear index early
  · have none : outcomes (index - first + first) = none := others (index - first) (by omega)
    rwa [Nat.sub_add_cancel (Nat.le_of_not_lt early)] at none

theorem FailsFirst.after {outcomes : Nat → Option IoError} {first step : Nat} {error : IoError}
    (clear : Clear outcomes first) (fails : FailsFirst (fun later => outcomes (later + first)) step error) :
    FailsFirst outcomes (first + step) error := by
  refine ⟨clear.append fails.before, ?_⟩
  rw [Nat.add_comm]
  exact fails.failed

theorem FailsFirst.not_clear {outcomes : Nat → Option IoError} {step count : Nat} {error : IoError}
    (fails : FailsFirst outcomes step error) (short : step < count) : ¬ Clear outcomes count := by
  intro clear
  have none := clear step short
  rw [fails.failed] at none
  cases none

/-- The action makes `count` calls: when all of them pass it answers `value` and leaves `after`, and at the first that
fails it stops with its error, in a state that `between` allows. -/
structure Performs (action : Io α) (device : Device) (count : Nat) (value : α) (after : ManagedBinlogFile)
    (between : ManagedBinlogFile → Prop) : Prop where
  passes : Clear device.outcomes count → action device = .ok value (device.leaves count after)
  fails : ∀ step < count, ∀ error, FailsFirst device.outcomes step error →
    ∃ left, between left ∧ action device = .error error (device.leaves (step + 1) left)

theorem Performs.pure (device : Device) (value : α) (between : ManagedBinlogFile → Prop) :
    Performs (pure value : Io α) device 0 value device.binlog between :=
  ⟨fun _ => rfl, fun step short => absurd short (Nat.not_lt_zero step)⟩

theorem Performs.setFile (device : Device) (file : Option Handle) (between : ManagedBinlogFile → Prop) :
    Performs (setFile file) device 0 () { device.binlog with file } between :=
  ⟨fun _ => rfl, fun step short => absurd short (Nat.not_lt_zero step)⟩

theorem Performs.bind {action : Io α} {next : α → Io β} {device : Device} {first second : Nat} {value : α} {result : β}
    {middle after : ManagedBinlogFile} {between : ManagedBinlogFile → Prop}
    (performs : Performs action device first value middle between)
    (others : Performs (next value) (device.leaves first middle) second result after between) :
    Performs (action >>= next) device (first + second) result after between := by
  constructor
  · intro clear
    have early := performs.passes (fun index short => clear index (Nat.lt_add_right second short))
    have late := others.passes (fun index short => clear (index + first) (by omega))
    change EStateM.bind action next device = _
    unfold EStateM.bind
    rw [early, ← device.leaves_leaves first second middle after]
    exact late
  · intro step short error fails
    by_cases inside : step < first
    · obtain ⟨left, allowed, stops⟩ := performs.fails step inside error fails
      refine ⟨left, allowed, ?_⟩
      change EStateM.bind action next device = _
      unfold EStateM.bind
      rw [stops]
    · have whole : Clear device.outcomes first := fun index early => fails.before index (by omega)
      have early := performs.passes whole
      have shifted : FailsFirst (device.leaves first middle).outcomes (step - first) error := by
        constructor
        · intro index early
          exact fails.before (index + first) (by omega)
        · change device.outcomes (step - first + first) = some error
          rw [Nat.sub_add_cancel (Nat.le_of_not_lt inside)]
          exact fails.failed
      obtain ⟨left, allowed, stops⟩ := others.fails (step - first) (by omega) error shifted
      refine ⟨left, allowed, ?_⟩
      have place : first + (step - first + 1) = step + 1 := by omega
      rw [device.leaves_leaves, place] at stops
      change EStateM.bind action next device = _
      unfold EStateM.bind
      rw [early]
      exact stops

theorem Performs.examine {view : ManagedBinlogFile → Except IoError α} {device : Device} {value : α}
    {between : ManagedBinlogFile → Prop} (sees : view device.binlog = .ok value) (allowed : between device.binlog) :
    Performs (examine view) device 1 value device.binlog between := by
  constructor
  · intro clear
    unfold Sealing.examine
    rw [clear 0 Nat.one_pos, sees]
    rfl
  · intro step short error fails
    obtain rfl : step = 0 := Nat.lt_one_iff.mp short
    refine ⟨device.binlog, allowed, ?_⟩
    unfold Sealing.examine
    rw [fails.failed]
    rfl

theorem Performs.call {effect : ManagedBinlogFile → Except IoError ManagedBinlogFile} {device : Device}
    {after : ManagedBinlogFile} {between : ManagedBinlogFile → Prop} (effects : effect device.binlog = .ok after)
    (allowed : between device.binlog) : Performs (call effect) device 1 () after between := by
  have examined : Performs (Sealing.examine effect) device 1 after device.binlog between := .examine effects allowed
  constructor
  · intro clear
    unfold Sealing.call
    rw [examined.passes clear]
    rfl
  · intro step short error fails
    obtain ⟨left, allowed, stops⟩ := examined.fails step short error fails
    refine ⟨left, allowed, ?_⟩
    unfold Sealing.call
    rw [stops]

theorem Performs.attempt {action : Io α} {device : Device} {count : Nat} {value : α} {after : ManagedBinlogFile}
    {between : ManagedBinlogFile → Prop} (performs : Performs action device count value after between) :
    (Clear device.outcomes count ∧
      (attempt action : EStateM ε Device _) device = .ok (.ok value) (device.leaves count after)) ∨
      ∃ step < count, ∃ error left, FailsFirst device.outcomes step error ∧ between left ∧
        (attempt action : EStateM ε Device _) device = .ok (.error error) (device.leaves (step + 1) left) := by
  unfold Sealing.attempt
  rcases clear_or_fails device.outcomes count with clear | ⟨step, short, error, fails⟩
  · left
    rw [performs.passes clear]
    exact ⟨clear, rfl⟩
  · obtain ⟨left, allowed, stops⟩ := performs.fails step short error fails
    right
    rw [stops]
    exact ⟨step, short, error, left, fails, allowed, rfl⟩

theorem Performs.mapErr {action : Io α} {device : Device} {count : Nat} {value : α} {after : ManagedBinlogFile}
    {between : ManagedBinlogFile → Prop} (wrap : IoError → ε)
    (performs : Performs action device count value after between) :
    (Clear device.outcomes count ∧ mapErr wrap action device = .ok value (device.leaves count after)) ∨
      ∃ step < count, ∃ error left, FailsFirst device.outcomes step error ∧ between left ∧
        mapErr wrap action device = .error (wrap error) (device.leaves (step + 1) left) := by
  unfold Sealing.mapErr
  rcases clear_or_fails device.outcomes count with clear | ⟨step, short, error, fails⟩
  · left
    rw [performs.passes clear]
    exact ⟨clear, rfl⟩
  · obtain ⟨left, allowed, stops⟩ := performs.fails step short error fails
    right
    rw [stops]
    exact ⟨step, short, error, left, fails, allowed, rfl⟩

theorem bind_ran {action : EStateM ε Device α} {next : α → EStateM ε Device β} {device after : Device} {value : α}
    (ran : action device = .ok value after) : (action >>= next) device = next value after := by
  change EStateM.bind action next device = _
  unfold EStateM.bind
  rw [ran]

theorem bind_stopped {action : EStateM ε Device α} {next : α → EStateM ε Device β} {device after : Device} {error : ε}
    (stopped : action device = .error error after) : (action >>= next) device = .error error after := by
  change EStateM.bind action next device = _
  unfold EStateM.bind
  rw [stopped]

end Calls

section Files

namespace Storage

theorem names_rename_target (storage : Storage) {source target : FileName} (differ : target ≠ source) :
    (storage.rename source target).names target = storage.names source :=
  (Function.update_of_ne differ _ _).trans (Function.update_self _ _ _)

theorem names_rename_source (storage : Storage) (source target : FileName) :
    (storage.rename source target).names source = none :=
  Function.update_self _ _ _

theorem names_rename_other (storage : Storage) {source target other : FileName} (notSource : other ≠ source)
    (notTarget : other ≠ target) : (storage.rename source target).names other = storage.names other :=
  (Function.update_of_ne notSource _ _).trans (Function.update_of_ne notTarget _ _)

theorem file_rename_target (storage : Storage) {source target : FileName} (differ : target ≠ source) :
    (storage.rename source target).file target = storage.file source :=
  congrArg (Option.map storage.contents) (storage.names_rename_target differ)

theorem file_rename_source (storage : Storage) (source target : FileName) :
    (storage.rename source target).file source = none :=
  congrArg (Option.map storage.contents) (storage.names_rename_source source target)

theorem file_rename_other (storage : Storage) {source target other : FileName} (notSource : other ≠ source)
    (notTarget : other ≠ target) : (storage.rename source target).file other = storage.file other :=
  congrArg (Option.map storage.contents) (storage.names_rename_other notSource notTarget)

theorem names_create_self (storage : Storage) (name : FileName) :
    (storage.create name).names name = some storage.fresh :=
  Function.update_self _ _ _

theorem file_create_self (storage : Storage) (name : FileName) : (storage.create name).file name = some [] := by
  have empty : (storage.create name).contents storage.fresh = [] := Function.update_self _ _ _
  unfold file
  rw [names_create_self, Option.map_some, empty]

theorem file_create_other (storage : Storage) {name other : FileName} (differ : other ≠ name) :
    (storage.create name).file other = storage.file other := by
  have same : (storage.create name).names other = storage.names other := Function.update_of_ne differ _ _
  unfold file
  rw [same]
  cases held : storage.names other with
  | none => rfl
  | some inode =>
      have older : inode ≠ storage.fresh := Nat.ne_of_lt (storage.bounded other inode held)
      exact congrArg some (Function.update_of_ne older _ _)

end Storage

/-- The open handle, if there is one, is on the active file. -/
def ManagedBinlogFile.Attached (binlog : ManagedBinlogFile) : Prop :=
  ∀ handle, binlog.file = some handle → binlog.storage.names .binlog = some handle.inode

/-- The former active bytes are in the active file or in the segment. -/
def ManagedBinlogFile.Retains (binlog : ManagedBinlogFile) (segment : FileName) (bytes : Bytes) : Prop :=
  binlog.storage.file .binlog = some bytes ∨ binlog.storage.file segment = some bytes

theorem closed_attached {binlog : ManagedBinlogFile} (closed : binlog.file = none) : binlog.Attached := by
  intro handle opened
  rw [closed] at opened
  cases opened

end Files

section Phases

/-- The active file opened again, at its end. -/
def ManagedBinlogFile.reopened (binlog : ManagedBinlogFile) (inode : Nat) : ManagedBinlogFile :=
  { binlog with file := some ⟨inode, (binlog.storage.contents inode).length⟩ }

theorem idle_performs (device : Device) : Performs idle device 1 () device.binlog (· = device.binlog) :=
  .call rfl rfl

theorem syncParentDirectory_performs (device : Device) :
    Performs syncParentDirectory device 2 () device.binlog (· = device.binlog) :=
  @Performs.bind _ _ idle (fun _ => idle) device 1 1 () () _ _ _ (idle_performs device)
    (idle_performs (device.leaves 1 device.binlog))

theorem reopenActive_performs (device : Device) {inode : Nat} (held : device.binlog.storage.names .binlog = some inode)
    {between : ManagedBinlogFile → Prop} (allowed : between device.binlog) :
    Performs reopenActive device 2 () (device.binlog.reopened inode) between := by
  have opens : Performs (openFile .binlog) device 1 inode device.binlog between := by
    apply Performs.examine _ allowed
    simp only [held]
  have seeks : Performs (seekEnd inode) (device.leaves 1 device.binlog) 1
      ⟨inode, (device.binlog.storage.contents inode).length⟩ device.binlog between :=
    Performs.examine rfl allowed
  have whole := @Performs.bind _ _ (seekEnd inode) (fun handle => setFile (some handle))
    (device.leaves 1 device.binlog) 1 0 _ () _ _ between seeks (.setFile _ _ _)
  exact @Performs.bind _ _ (openFile .binlog) (fun inode => do setFile (some (← seekEnd inode))) device 1 1 inode ()
    _ _ between opens whole

theorem durableRename_performs (device : Device) {source target : FileName} {inode : Nat}
    (held : device.binlog.storage.names source = some inode) {between : ManagedBinlogFile → Prop}
    (allowed : between device.binlog) :
    Performs (durableRename source target) device 1 ()
      { device.binlog with storage := device.binlog.storage.rename source target } between := by
  apply Performs.call _ allowed
  simp only [held, Option.isSome_some, if_true]

/-- Putting a segment back, step by step. -/
theorem restoration_performs (device : Device) {segment : FileName} {inode : Nat} (differ : FileName.binlog ≠ segment)
    (held : device.binlog.storage.names segment = some inode) :
    Performs (restoration segment) device 5 ()
      (ManagedBinlogFile.reopened
        { device.binlog with storage := device.binlog.storage.rename segment .binlog } inode)
      (fun left => left = device.binlog ∨
        left = { device.binlog with storage := device.binlog.storage.rename segment .binlog }) := by
  let renamed : ManagedBinlogFile :=
    { device.binlog with storage := device.binlog.storage.rename segment .binlog }
  have back : renamed.storage.names .binlog = some inode :=
    (device.binlog.storage.names_rename_target differ).trans held
  have renames := @durableRename_performs device segment .binlog inode held
    (fun left => left = device.binlog ∨ left = renamed) (Or.inl rfl)
  have idles (calls : Nat) : Performs idle (device.leaves calls renamed) 1 () renamed
      (fun left => left = device.binlog ∨ left = renamed) := .call rfl (Or.inr rfl)
  have syncs : Performs syncParentDirectory (device.leaves 1 renamed) 2 () renamed
      (fun left => left = device.binlog ∨ left = renamed) :=
    @Performs.bind _ _ idle (fun _ => idle) (device.leaves 1 renamed) 1 1 () () _ _ _ (idles 1) (idles 2)
  have reopens := @reopenActive_performs (device.leaves 3 renamed) inode back
    (fun left => left = device.binlog ∨ left = renamed) (Or.inr rfl)
  have others := @Performs.bind _ _ syncParentDirectory (fun _ => reopenActive) (device.leaves 1 renamed) 2 2 () ()
    _ _ _ syncs reopens
  exact @Performs.bind _ _ (durableRename segment .binlog) (fun _ => do syncParentDirectory; reopenActive) device 1 4
    () () _ _ _ renames others

/-- What is left of a rotation: its verdict and the binlog. -/
def finished : EStateM.Result BinlogRotationError Device Nat → Except BinlogRotationError Nat × ManagedBinlogFile
  | .ok bytes device => (.ok bytes, device.binlog)
  | .error error device => (.error error, device.binlog)

theorem pathExists_absent {ε : Type} (device : Device) {name : FileName}
    (absent : device.binlog.storage.names name = none) :
    (pathExists name : EStateM ε Device Bool) device = .ok false (device.leaves 1 device.binlog) := by
  unfold pathExists
  cases device.outcomes 0 with
  | none =>
      rw [absent]
      rfl
  | some error => rfl

/-- The segment back under the active name, and opened. -/
def ManagedBinlogFile.restored (binlog : ManagedBinlogFile) (segment : FileName) (inode : Nat) : ManagedBinlogFile :=
  ManagedBinlogFile.reopened { binlog with storage := binlog.storage.rename segment .binlog } inode

theorem restoreSegment_finishes (device : Device) {segment : FileName} {inode : Nat}
    (differ : FileName.binlog ≠ segment) (absent : device.binlog.storage.names .binlog = none)
    (held : device.binlog.storage.names segment = some inode) (error : IoError) :
    (Clear (fun later => device.outcomes (later + 1)) 5 ∧
      finished (restoreSegmentAfterFailedSeal segment error device) =
        (.error (.unchanged error), device.binlog.restored segment inode)) ∨
      ¬ Clear (fun later => device.outcomes (later + 1)) 5 ∧ ∃ failure left,
        finished (restoreSegmentAfterFailedSeal segment error device) = (.error (.indeterminate failure), left) ∧
          (left = device.binlog ∨
            left = { device.binlog with storage := device.binlog.storage.rename segment .binlog }) := by
  have looked := @pathExists_absent BinlogRotationError device .binlog absent
  have performs := restoration_performs (device.leaves 1 device.binlog) differ held
  rcases @Performs.attempt _ BinlogRotationError _ _ _ _ _ _ performs with
    ⟨clear, ran⟩ | ⟨step, short, restorationError, left, fails, allowed, ran⟩
  · refine Or.inl ⟨clear, ?_⟩
    simp only [restoreSegmentAfterFailedSeal, bind, EStateM.bind, looked, Bool.false_eq_true, if_false, ran]
    rfl
  · refine Or.inr ⟨?_, notRestored error restorationError, left, ?_, allowed⟩
    · exact fails.not_clear short
    · simp only [restoreSegmentAfterFailedSeal, bind, EStateM.bind, looked, Bool.false_eq_true, if_false, ran]
      rfl

/-- A seal is undone: one of the first three calls after the rename fails, and none of those that put the segment back
does. -/
def Undone (outcomes : Nat → Option IoError) : Prop :=
  ∃ step < 3, ∃ error, FailsFirst outcomes step error ∧ Clear (fun later => outcomes (later + (step + 2))) 5

/-- The sealed generation with its empty successor, and the handle on it. -/
def ManagedBinlogFile.succeeded (binlog : ManagedBinlogFile) : ManagedBinlogFile :=
  { binlog with file := some ⟨binlog.storage.fresh, 0⟩, storage := binlog.storage.create .binlog }

/-- How a seal may leave the binlog without having proved anything: the segment is in place, or back under the active
name, or has a successor, and the handle is closed or on that successor. -/
inductive Unsettled (binlog : ManagedBinlogFile) (segment : FileName) : ManagedBinlogFile → Prop where
  | moved : Unsettled binlog segment binlog
  | returned : Unsettled binlog segment { binlog with storage := binlog.storage.rename segment .binlog }
  | closed : Unsettled binlog segment { binlog with storage := binlog.storage.create .binlog }
  | opened : Unsettled binlog segment binlog.succeeded

/-- What follows the rename. -/
inductive Installed (device : Device) (segment : FileName) (inode activeLength : Nat) :
    Except BinlogRotationError Nat × ManagedBinlogFile → Prop where
  | succeeded (clear : Clear device.outcomes 3) :
      Installed device segment inode activeLength (.ok activeLength, device.binlog.succeeded)
  | undone (error : IoError) (undone : Undone device.outcomes) :
      Installed device segment inode activeLength
        (.error (.unchanged error), device.binlog.restored segment inode)
  | unsettled (error : IoError) {left : ManagedBinlogFile} (unsettled : Unsettled device.binlog segment left)
      (kept : ¬ Undone device.outcomes) :
      Installed device segment inode activeLength (.error (.indeterminate error), left)

theorem Clear.not_undone {outcomes : Nat → Option IoError} (clear : Clear outcomes 3) : ¬ Undone outcomes := by
  rintro ⟨step, short, error, fails, _⟩
  exact fails.not_clear short clear

/-- A call after the rename fails, and the segment is put back or not. -/
theorem restoreSegment_installed (device : Device) {segment : FileName} {inode : Nat} (activeLength : Nat)
    (differ : FileName.binlog ≠ segment) (absent : device.binlog.storage.names .binlog = none)
    (held : device.binlog.storage.names segment = some inode) {step : Nat} (short : step < 3) {error : IoError}
    (fails : FailsFirst device.outcomes step error) :
    Installed device segment inode activeLength
      (finished (restoreSegmentAfterFailedSeal segment error (device.leaves (step + 1) device.binlog))) := by
  have place : (fun later => device.outcomes (later + 1 + (step + 1))) =
      fun later => device.outcomes (later + (step + 2)) := by
    funext later
    congr 1
    omega
  rcases restoreSegment_finishes (device.leaves (step + 1) device.binlog) differ absent held error with
    ⟨clear, ends⟩ | ⟨failed, failure, left, ends, allowed⟩
  · rw [ends]
    change Clear (fun later => device.outcomes (later + 1 + (step + 1))) 5 at clear
    rw [place] at clear
    exact .undone error ⟨step, short, error, fails, clear⟩
  · rw [ends]
    change ¬ Clear (fun later => device.outcomes (later + 1 + (step + 1))) 5 at failed
    rw [place] at failed
    have kept : ¬ Undone device.outcomes := by
      rintro ⟨other, _, _, first, clear⟩
      rw [first.step_eq fails] at clear
      exact failed clear
    rcases allowed with rfl | rfl
    · exact .unsettled failure .moved kept
    · exact .unsettled failure .returned kept

theorem createNew_performs (device : Device) {name : FileName} (absent : device.binlog.storage.names name = none) :
    Performs (createNew name) device 1 ⟨device.binlog.storage.fresh, 0⟩
      { device.binlog with storage := device.binlog.storage.create name } (· = device.binlog) := by
  have created : Performs (call (fun binlog =>
      if (binlog.storage.names name).isSome then .error ⟨.alreadyExists, "File exists"⟩
      else .ok { binlog with storage := binlog.storage.create name })) device 1 ()
      { device.binlog with storage := device.binlog.storage.create name } (· = device.binlog) := by
    refine Performs.call ?_ rfl
    rw [absent]
    rfl
  constructor
  · intro clear
    unfold createNew
    rw [created.passes clear]
  · intro step short error fails
    obtain ⟨left, allowed, stops⟩ := created.fails step short error fails
    refine ⟨left, allowed, ?_⟩
    unfold createNew
    rw [stops]

/-- The successor is adopted, or nothing is proved. -/
theorem adoptSuccessor_finishes (device : Device) (active : Handle) (activeLength : Nat) :
    finished (adoptSuccessor active activeLength device) =
        (.ok activeLength, { device.binlog with
          file := some ⟨active.inode, (device.binlog.storage.contents active.inode).length⟩ }) ∨
      ∃ error left, finished (adoptSuccessor active activeLength device) = (.error (.indeterminate error), left) ∧
        (left = { device.binlog with file := some active } ∨ left = device.binlog) := by
  unfold adoptSuccessor
  rcases @Performs.attempt _ BinlogRotationError _ _ _ _ _ _ (idle_performs device) with
    ⟨_, ran⟩ | ⟨_, _, error, _, _, rfl, ran⟩
  case inr =>
    rw [bind_ran ran]
    exact Or.inr ⟨error, _, rfl, Or.inl rfl⟩
  rw [bind_ran ran]
  simp only
  rcases @Performs.attempt _ BinlogRotationError _ _ _ _ _ _
    (syncParentDirectory_performs (device.leaves 1 device.binlog)) with ⟨_, ran⟩ | ⟨_, _, error, _, _, rfl, ran⟩
  case inr =>
    rw [bind_ran ran]
    exact Or.inr ⟨error, _, rfl, Or.inl rfl⟩
  rw [bind_ran ran, Device.leaves_leaves]
  simp only [Device.leaves_binlog, Nat.reduceAdd]
  have seeks : Performs (seekEnd active.inode) (device.leaves 3 device.binlog) 1
      ⟨active.inode, (device.binlog.storage.contents active.inode).length⟩ device.binlog (· = device.binlog) :=
    .examine rfl rfl
  rcases Performs.mapErr BinlogRotationError.indeterminate seeks with ⟨_, ran⟩ | ⟨_, _, error, _, _, rfl, ran⟩
  case inr =>
    rw [bind_stopped ran]
    exact Or.inr ⟨error, _, rfl, Or.inr rfl⟩
  rw [bind_ran ran]
  exact Or.inl rfl

/-- Once the former active file has its segment's name, a successor is installed, or the seal is undone, or nothing is
proved. -/
theorem installSuccessor_installed (device : Device) {segment : FileName} {inode : Nat} (activeLength : Nat)
    (differ : FileName.binlog ≠ segment) (absent : device.binlog.storage.names .binlog = none)
    (held : device.binlog.storage.names segment = some inode) :
    Installed device segment inode activeLength (finished (installSuccessor segment activeLength device)) := by
  unfold installSuccessor
  rcases @Performs.attempt _ BinlogRotationError _ _ _ _ _ _ (syncParentDirectory_performs device) with
    ⟨synced, ran⟩ | ⟨step, short, error, _, fails, rfl, ran⟩
  case inr =>
    rw [bind_ran ran]
    exact restoreSegment_installed device activeLength differ absent held (by omega) fails
  rw [bind_ran ran]
  simp only
  rcases @Performs.attempt _ BinlogRotationError _ _ _ _ _ _
    (createNew_performs (device.leaves 2 device.binlog) absent) with
    ⟨made, ran⟩ | ⟨step, short, error, _, fails, rfl, ran⟩
  case inr =>
    obtain rfl : step = 0 := Nat.lt_one_iff.mp short
    rw [bind_ran ran, Device.leaves_leaves]
    exact restoreSegment_installed device activeLength differ absent held (by omega) (FailsFirst.after synced fails)
  have clear : Clear device.outcomes 3 := synced.append made
  let created : ManagedBinlogFile := { device.binlog with storage := device.binlog.storage.create .binlog }
  let active : Handle := ⟨device.binlog.storage.fresh, 0⟩
  have empty : created.storage.contents active.inode = [] := Function.update_self _ _ _
  rw [bind_ran ran, Device.leaves_leaves]
  change Installed device segment inode activeLength (finished (adoptSuccessor active activeLength
    (device.leaves 3 created)))
  rcases adoptSuccessor_finishes (device.leaves 3 created) active activeLength with ends | ⟨error, left, ends, allowed⟩
  · rw [Device.leaves_binlog, empty] at ends
    rw [ends]
    exact .succeeded clear
  · rw [ends]
    rcases allowed with rfl | rfl
    · exact .unsettled error .opened clear.not_undone
    · exact .unsettled error .closed clear.not_undone

end Phases

section Verdicts

/-- Every file is byte for byte as before, and the handle is open on the active file. -/
structure Unaltered (before after : ManagedBinlogFile) : Prop where
  files : after.storage.file = before.storage.file
  opened : ∃ handle, after.file = some handle ∧ after.storage.names .binlog = some handle.inode

/-- The segment holds the former active bytes, and the handle is open on an active file that is empty. -/
structure Sealed (before after : ManagedBinlogFile) (endSequence : Nat) : Prop where
  segment : after.storage.file (.segment endSequence) = before.storage.file .binlog
  active : after.storage.file .binlog = some []
  opened : ∃ handle, after.file = some handle ∧ after.storage.names .binlog = some handle.inode
  others : ∀ name, name ≠ .binlog → name ≠ .segment endSequence → after.storage.file name = before.storage.file name

/-- What a verdict says is so, and nothing that mattered is lost. -/
structure Truthful (before : ManagedBinlogFile) (endSequence : Nat) (result : Except BinlogRotationError Nat)
    (after : ManagedBinlogFile) : Prop where
  done : ∀ bytes, result = .ok bytes → 0 < bytes → Sealed before after endSequence
  unaltered : (result = .ok 0 ∨ ∃ error, result = .error (.unchanged error)) → Unaltered before after
  otherwise : ¬ Sealed before after endSequence → ¬ Unaltered before after →
    ∃ error, result = .error (.indeterminate error)
  retained : ∀ bytes, before.storage.file .binlog = some bytes → after.Retains (.segment endSequence) bytes
  attached : after.Attached

/-- Whatever is not sealed and not as before is indeterminate, when the other verdicts are true. -/
theorem Truthful.of {before after : ManagedBinlogFile} {endSequence : Nat} {result : Except BinlogRotationError Nat}
    (done : ∀ bytes, result = .ok bytes → 0 < bytes → Sealed before after endSequence)
    (unaltered : (result = .ok 0 ∨ ∃ error, result = .error (.unchanged error)) → Unaltered before after)
    (retained : ∀ bytes, before.storage.file .binlog = some bytes → after.Retains (.segment endSequence) bytes)
    (attached : after.Attached) : Truthful before endSequence result after := by
  refine ⟨done, unaltered, ?_, retained, attached⟩
  intro unsealed altered
  cases result with
  | ok bytes =>
      rcases Nat.eq_zero_or_pos bytes with rfl | positive
      · exact absurd (unaltered (Or.inl rfl)) altered
      · exact absurd (done bytes rfl positive) unsealed
  | error error =>
      cases error with
      | unchanged error => exact absurd (unaltered (Or.inr ⟨error, rfl⟩)) altered
      | indeterminate error => exact ⟨error, rfl⟩

theorem opened_attached {binlog : ManagedBinlogFile}
    (opened : ∃ handle, binlog.file = some handle ∧ binlog.storage.names .binlog = some handle.inode) :
    binlog.Attached := by
  obtain ⟨handle, held, named⟩ := opened
  intro other present
  rw [held] at present
  cases present
  exact named

/-- The binlog with its active file under a segment's name. -/
def ManagedBinlogFile.moved (binlog : ManagedBinlogFile) (endSequence : Nat) : ManagedBinlogFile :=
  { binlog with file := none, storage := binlog.storage.rename .binlog (.segment endSequence) }

theorem binlog_ne_segment (endSequence : Nat) : FileName.binlog ≠ .segment endSequence := nofun

theorem moved_absent (binlog : ManagedBinlogFile) (endSequence : Nat) :
    (binlog.moved endSequence).storage.names .binlog = none :=
  binlog.storage.names_rename_source _ _

theorem moved_held (binlog : ManagedBinlogFile) (endSequence : Nat) :
    (binlog.moved endSequence).storage.names (.segment endSequence) = binlog.storage.names .binlog :=
  binlog.storage.names_rename_target (binlog_ne_segment endSequence).symm

theorem moved_segment (binlog : ManagedBinlogFile) (endSequence : Nat) :
    (binlog.moved endSequence).storage.file (.segment endSequence) = binlog.storage.file .binlog :=
  binlog.storage.file_rename_target (binlog_ne_segment endSequence).symm

theorem succeeded_sealed (binlog : ManagedBinlogFile) (endSequence : Nat) :
    Sealed binlog (binlog.moved endSequence).succeeded endSequence where
  segment := ((binlog.moved endSequence).storage.file_create_other (binlog_ne_segment endSequence).symm).trans
    (moved_segment binlog endSequence)
  active := Storage.file_create_self _ _
  opened := ⟨_, rfl, Storage.names_create_self _ _⟩
  others := fun _ notActive notSegment =>
    ((binlog.moved endSequence).storage.file_create_other notActive).trans
      (binlog.storage.file_rename_other notActive notSegment)

/-- A seal that is undone leaves every file as before just when it replaced no segment. -/
theorem restored_unaltered_iff (binlog : ManagedBinlogFile) (endSequence : Nat) {inode : Nat}
    (held : binlog.storage.names .binlog = some inode) :
    Unaltered binlog ((binlog.moved endSequence).restored (.segment endSequence) inode) ↔
      binlog.storage.names (.segment endSequence) = none := by
  have gone : ((binlog.moved endSequence).restored (.segment endSequence) inode).storage.file (.segment endSequence) =
      none := Storage.file_rename_source _ _ _
  constructor
  · intro unaltered
    rw [unaltered.files] at gone
    exact Option.map_eq_none_iff.mp gone
  · intro absent
    have named := ((binlog.moved endSequence).storage.names_rename_target (binlog_ne_segment endSequence)).trans
      ((moved_held binlog endSequence).trans held)
    refine ⟨?_, _, rfl, named⟩
    funext name
    by_cases active : name = .binlog
    · rw [active]
      exact ((binlog.moved endSequence).storage.file_rename_target (binlog_ne_segment endSequence)).trans
        (moved_segment binlog endSequence)
    · by_cases segment : name = .segment endSequence
      · have before : binlog.storage.file (.segment endSequence) = none := by
          unfold Storage.file
          rw [absent]
          rfl
        rw [segment, gone, before]
      · exact ((binlog.moved endSequence).storage.file_rename_other segment active).trans
          (binlog.storage.file_rename_other active segment)

theorem restored_retains (binlog : ManagedBinlogFile) (endSequence inode : Nat) :
    ((binlog.moved endSequence).restored (.segment endSequence) inode).storage.file .binlog =
      binlog.storage.file .binlog :=
  ((binlog.moved endSequence).storage.file_rename_target (binlog_ne_segment endSequence)).trans
    (moved_segment binlog endSequence)

/-- A seal that proves nothing has kept the former active bytes and has no handle on another file. -/
theorem Unsettled.keeps {binlog left : ManagedBinlogFile} {endSequence : Nat}
    (unsettled : Unsettled (binlog.moved endSequence) (.segment endSequence) left) :
    (left.storage.file .binlog = binlog.storage.file .binlog ∨
      left.storage.file (.segment endSequence) = binlog.storage.file .binlog) ∧ left.Attached := by
  have created := (binlog.moved endSequence).storage.file_create_other (binlog_ne_segment endSequence).symm
  cases unsettled with
  | moved => exact ⟨Or.inr (moved_segment binlog endSequence), closed_attached rfl⟩
  | returned => exact ⟨Or.inl (restored_retains binlog endSequence 0), closed_attached rfl⟩
  | closed => exact ⟨Or.inr (created.trans (moved_segment binlog endSequence)), closed_attached rfl⟩
  | opened =>
      exact ⟨Or.inr (created.trans (moved_segment binlog endSequence)),
        opened_attached (succeeded_sealed binlog endSequence).opened⟩

end Verdicts

section Course

theorem fileMut_performs (device : Device) {handle : Handle} (opened : device.binlog.file = some handle) :
    Performs fileMut device 0 handle device.binlog (· = device.binlog) := by
  refine ⟨fun _ => ?_, fun step short => absurd short (Nat.not_lt_zero step)⟩
  unfold fileMut
  rw [opened]
  rfl

theorem flush_performs (device : Device) {handle : Handle} (opened : device.binlog.file = some handle) :
    Performs flush device 1 () device.binlog (· = device.binlog) :=
  @Performs.bind _ _ fileMut (fun _ => idle) device 0 1 handle () _ _ _ (fileMut_performs device opened)
    (idle_performs (device.leaves 0 device.binlog))

theorem syncAll_performs (device : Device) {handle : Handle} (opened : device.binlog.file = some handle) :
    Performs syncAll device 1 () device.binlog (· = device.binlog) :=
  flush_performs device opened

theorem pathExists_cases {ε : Type} (device : Device) (name : FileName) :
    ((pathExists name : EStateM ε Device Bool) device = .ok true (device.leaves 1 device.binlog) ∧
      device.outcomes 0 = none) ∨
      ((pathExists name : EStateM ε Device Bool) device = .ok false (device.leaves 1 device.binlog) ∧
        (device.binlog.storage.names name ≠ none → device.outcomes 0 ≠ none)) := by
  cases held : device.binlog.storage.names name with
  | none => exact Or.inr ⟨pathExists_absent device held, fun present => absurd rfl present⟩
  | some inode =>
      unfold pathExists
      cases device.outcomes 0 with
      | none =>
          rw [held]
          exact Or.inl ⟨rfl, rfl⟩
      | some error => exact Or.inr ⟨rfl, fun _ => nofun⟩

/-- An existing segment is replaced because the call that examines its path fails, and the seal is undone. -/
structure Overwrites (before : ManagedBinlogFile) (endSequence : Nat) (outcomes : Nat → Option IoError) : Prop where
  opened : before.file ≠ none
  filled : before.storage.file .binlog ≠ some []
  sequence : endSequence ≠ 0
  present : before.storage.names (.segment endSequence) ≠ none
  measured : outcomes 0 = none
  unseen : outcomes 1 ≠ none
  synced : ∀ index, 2 ≤ index → index < 5 → outcomes index = none
  undone : Undone (fun later => outcomes (later + 5))

/-- The courses a seal takes, each with what it tells about the outcomes of its calls. -/
inductive Course (before : ManagedBinlogFile) (endSequence : Nat) (outcomes : Nat → Option IoError) :
    Except BinlogRotationError Nat × ManagedBinlogFile → Prop where
  | stopped (error : IoError) {left : ManagedBinlogFile} (same : left.storage = before.storage) (attached : left.Attached)
      (plain : ¬ Overwrites before endSequence outcomes) :
      Course before endSequence outcomes (.error (.indeterminate error), left)
  | unaltered {result : Except BinlogRotationError Nat} {left : ManagedBinlogFile} (same : left.storage = before.storage)
      (opened : ∃ handle, left.file = some handle ∧ left.storage.names .binlog = some handle.inode)
      (verdict : result = .ok 0 ∨ ∃ error, result = .error (.unchanged error))
      (plain : ¬ Overwrites before endSequence outcomes) : Course before endSequence outcomes (result, left)
  | installed {inode activeLength : Nat} {outcome : Except BinlogRotationError Nat × ManagedBinlogFile}
      (held : before.storage.names .binlog = some inode) (positive : 0 < activeLength)
      (overwrites : before.storage.names (.segment endSequence) ≠ none →
        Undone (fun later => outcomes (later + 5)) → Overwrites before endSequence outcomes)
      (installed : Installed ⟨before.moved endSequence, fun later => outcomes (later + 5)⟩ (.segment endSequence) inode
        activeLength outcome) : Course before endSequence outcomes outcome

/-- The active file is moved, or stays where it is. -/
theorem moveActive_cases (device : Device) (endSequence : Nat) {inode : Nat} (activeLength : Nat)
    (held : device.binlog.storage.names .binlog = some inode) :
    (device.outcomes 0 ≠ none ∧ ∃ error,
      (finished (moveActive (.segment endSequence) activeLength device) =
        (.error (.unchanged error), device.binlog.reopened inode) ∨
        finished (moveActive (.segment endSequence) activeLength device) =
          (.error (.indeterminate error), { device.binlog with file := none }))) ∨
      (device.outcomes 0 = none ∧
        Installed ⟨device.binlog.moved endSequence, fun later => device.outcomes (later + 1)⟩ (.segment endSequence) inode
          activeLength (finished (moveActive (.segment endSequence) activeLength device))) := by
  let dropped : Device := { device with binlog := { device.binlog with file := none } }
  have drops : (setFile none : Rotation Unit) device = .ok () dropped := rfl
  unfold moveActive
  rw [bind_ran drops]
  have renames := @durableRename_performs dropped .binlog (.segment endSequence) inode held
    (fun left => left = dropped.binlog) rfl
  rcases @Performs.attempt _ BinlogRotationError _ _ _ _ _ _ renames with
    ⟨clear, ran⟩ | ⟨step, short, error, _, fails, rfl, ran⟩
  · rw [bind_ran ran]
    exact Or.inr ⟨clear 0 Nat.one_pos, installSuccessor_installed _ activeLength (binlog_ne_segment endSequence)
      (moved_absent device.binlog endSequence) ((moved_held device.binlog endSequence).trans held)⟩
  · obtain rfl : step = 0 := Nat.lt_one_iff.mp short
    have failed : device.outcomes 0 ≠ none := by
      have outcome : device.outcomes 0 = some error := fails.failed
      rw [outcome]
      exact nofun
    refine Or.inl ⟨failed, ?_⟩
    rw [bind_ran ran]
    simp only
    have reopens := @reopenActive_performs (dropped.leaves 1 dropped.binlog) inode held
      (fun left => left = dropped.binlog) rfl
    rcases @Performs.attempt _ BinlogRotationError _ _ _ _ _ _ reopens with
      ⟨_, ran⟩ | ⟨_, _, reopenError, _, _, rfl, ran⟩
    · rw [bind_ran ran]
      exact ⟨error, Or.inl rfl⟩
    · rw [bind_ran ran]
      exact ⟨notReopened error reopenError, Or.inr rfl⟩

/-- With the active file measured and no segment seen, it is synced and moved. -/
theorem sealUnder_course {before : ManagedBinlogFile} {handle : Handle} (opened : before.file = some handle)
    (named : before.storage.names .binlog = some handle.inode) {endSequence : Nat} {outcomes : Nat → Option IoError}
    {activeLength : Nat} (positive : 0 < activeLength)
    (unseen : (∀ index, 2 ≤ index → index < 5 → outcomes index = none) →
      before.storage.names (.segment endSequence) ≠ none → Undone (fun later => outcomes (later + 5)) →
        Overwrites before endSequence outcomes) :
    Course before endSequence outcomes
      (finished (sealUnder (.segment endSequence) activeLength (Device.leaves ⟨before, outcomes⟩ 2 before))) := by
  have attached : before.Attached := opened_attached ⟨handle, opened, named⟩
  let device : Device := ⟨before, outcomes⟩
  change Course before endSequence outcomes (finished (sealUnder _ activeLength (device.leaves 2 before)))
  have refuted {index : Nat} (early : 2 ≤ index) (late : index < 5) (failed : outcomes index ≠ none) :
      ¬ Overwrites before endSequence outcomes :=
    fun overwrites => failed (overwrites.synced index early late)
  have synced {index : Nat} {error : IoError} (failed : outcomes index = some error) : outcomes index ≠ none := by
    rw [failed]
    exact nofun
  unfold sealUnder
  rcases Performs.mapErr BinlogRotationError.indeterminate (flush_performs (device.leaves 2 before) opened) with
    ⟨flushed, ran⟩ | ⟨step, short, error, left, fails, same, ran⟩
  case inr =>
    obtain rfl : step = 0 := Nat.lt_one_iff.mp short
    rw [bind_stopped ran, same]
    exact .stopped error rfl attached (refuted le_rfl (by decide) (synced fails.failed))
  rw [bind_ran ran, Device.leaves_leaves]
  simp only [Device.leaves_binlog, Nat.reduceAdd]
  rcases Performs.mapErr BinlogRotationError.indeterminate (syncAll_performs (device.leaves 3 before) opened) with
    ⟨settled, ran⟩ | ⟨step, short, error, left, fails, same, ran⟩
  case inr =>
    obtain rfl : step = 0 := Nat.lt_one_iff.mp short
    rw [bind_stopped ran, same]
    exact .stopped error rfl attached (refuted (Nat.le_succ 2) (by decide) (synced fails.failed))
  rw [bind_ran ran, Device.leaves_leaves]
  simp only [Device.leaves_binlog, Nat.reduceAdd]
  rcases moveActive_cases (device.leaves 4 before) endSequence activeLength named with
    ⟨failed, error, ends | ends⟩ | ⟨renamed, installed⟩
  · rw [ends]
    exact .unaltered rfl ⟨_, rfl, named⟩ (Or.inr ⟨error, rfl⟩) (refuted (by decide : 2 ≤ 4) (by decide) failed)
  · rw [ends]
    exact .stopped error rfl (closed_attached rfl) (refuted (by decide : 2 ≤ 4) (by decide) failed)
  · refine .installed named positive (unseen ?_) installed
    intro index early late
    obtain rfl | rfl | rfl : index = 2 ∨ index = 3 ∨ index = 4 := by omega
    · exact flushed 0 Nat.one_pos
    · exact settled 0 Nat.one_pos
    · exact renamed

/-- Every seal takes one of its courses. -/
theorem sealActive_course {before : ManagedBinlogFile} (attached : before.Attached) (endSequence : Nat)
    (outcomes : Nat → Option IoError) :
    Course before endSequence outcomes (finished (sealActive endSequence ⟨before, outcomes⟩)) := by
  let device : Device := ⟨before, outcomes⟩
  change Course before endSequence outcomes (finished (sealActive endSequence device))
  unfold sealActive
  cases opened : before.file with
  | none =>
      have stops : mapErr BinlogRotationError.indeterminate fileMut device =
          .error (.indeterminate ⟨.other, "Active binlog handle is unavailable after rotation failure"⟩) device := by
        unfold mapErr fileMut
        rw [show device.binlog.file = none from opened]
      rw [bind_stopped stops]
      exact .stopped _ rfl attached (fun overwrites => overwrites.opened opened)
  | some handle =>
      have named := attached handle opened
      have finds : mapErr BinlogRotationError.indeterminate fileMut device = .ok handle device := by
        unfold mapErr fileMut
        rw [show device.binlog.file = some handle from opened]
      have measures : Performs (fileLength handle) device 1 (before.storage.contents handle.inode).length before
          (· = before) := .examine rfl rfl
      rw [bind_ran finds]
      rcases Performs.mapErr BinlogRotationError.unchanged measures with
        ⟨clear, ran⟩ | ⟨step, short, error, _, fails, rfl, ran⟩
      case inr =>
        obtain rfl : step = 0 := Nat.lt_one_iff.mp short
        rw [bind_stopped ran]
        refine .unaltered rfl ⟨handle, opened, named⟩ (Or.inr ⟨error, rfl⟩) (fun overwrites => ?_)
        have outcome : outcomes 0 = some error := fails.failed
        rw [overwrites.measured] at outcome
        cases outcome
      rw [bind_ran ran]
      by_cases empty : (before.storage.contents handle.inode).length = 0
      · rw [if_pos empty]
        refine .unaltered rfl ⟨handle, opened, named⟩ (Or.inl rfl) (fun overwrites => overwrites.filled ?_)
        unfold Storage.file
        rw [named, Option.map_some, List.length_eq_zero_iff.mp empty]
      rw [if_neg empty]
      by_cases zero : endSequence = 0
      · rw [if_pos zero]
        exact .unaltered rfl ⟨handle, opened, named⟩ (Or.inr ⟨_, rfl⟩) (fun overwrites => overwrites.sequence zero)
      rw [if_neg zero]
      rcases @pathExists_cases BinlogRotationError (device.leaves 1 before) (.segment endSequence) with
        ⟨ran, seen⟩ | ⟨ran, unseen⟩
      · rw [bind_ran ran]
        exact .unaltered rfl ⟨handle, opened, named⟩ (Or.inr ⟨_, rfl⟩) (fun overwrites => overwrites.unseen seen)
      · rw [bind_ran ran, Device.leaves_leaves]
        have filled : before.storage.file .binlog ≠ some [] := by
          unfold Storage.file
          rw [named, Option.map_some]
          intro same
          rw [Option.some.inj same] at empty
          exact empty rfl
        apply sealUnder_course opened named (Nat.pos_of_ne_zero empty)
        intro synced present undone
        exact ⟨by rw [opened]; exact nofun, filled, zero, present, clear 0 Nat.one_pos, unseen present, synced, undone⟩

end Course

/-- The verdict and the binlog a seal leaves, for the outcomes of its calls. -/
def runSeal (before : ManagedBinlogFile) (endSequence : Nat) (outcomes : Nat → Option IoError) :
    Except BinlogRotationError Nat × ManagedBinlogFile :=
  finished (sealActive endSequence ⟨before, outcomes⟩)

theorem Course.truthful {before : ManagedBinlogFile} {endSequence : Nat} {outcomes : Nat → Option IoError}
    {outcome : Except BinlogRotationError Nat × ManagedBinlogFile} (course : Course before endSequence outcomes outcome)
    (plain : ¬ Overwrites before endSequence outcomes) : Truthful before endSequence outcome.1 outcome.2 := by
  cases course with
  | stopped error same attached _ =>
      refine .of nofun ?_ ?_ attached
      · rintro (done | ⟨_, unchanged⟩)
        · cases done
        · cases unchanged
      · intro bytes held
        rw [← same] at held
        exact Or.inl held
  | @unaltered result left same opened verdict _ =>
      have files : left.storage.file = before.storage.file := by rw [same]
      refine .of ?_ (fun _ => ⟨files, opened⟩) ?_ (opened_attached opened)
      · rintro bytes rfl positive
        rcases verdict with done | ⟨_, unchanged⟩
        · cases done
          exact absurd positive (Nat.lt_irrefl 0)
        · cases unchanged
      · intro bytes held
        rw [← files] at held
        exact Or.inl held
  | @installed inode activeLength _ held positive overwrites installed =>
      cases installed with
      | succeeded _ =>
          have done := succeeded_sealed before endSequence
          refine .of (fun _ _ _ => done) ?_ ?_ (opened_attached done.opened)
          · rintro (done | ⟨_, unchanged⟩)
            · exact absurd (Except.ok.inj done) (Nat.ne_of_gt positive)
            · cases unchanged
          · intro bytes held
            rw [← done.segment] at held
            exact Or.inr held
      | undone error undone =>
          have absent : before.storage.names (.segment endSequence) = none := by
            by_contra present
            exact plain (overwrites present undone)
          have same := (restored_unaltered_iff before endSequence held).mpr absent
          refine .of nofun (fun _ => same) ?_ (opened_attached same.opened)
          intro bytes present
          rw [← same.files] at present
          exact Or.inl present
      | unsettled error unsettled _ =>
          obtain ⟨kept, attached⟩ := unsettled.keeps
          refine .of nofun ?_ ?_ attached
          · rintro (done | ⟨_, unchanged⟩)
            · cases done
            · cases unchanged
          · intro bytes present
            rw [present] at kept
            exact kept

/-- With an existing segment replaced and the seal undone, the verdict that nothing changed is not so. -/
theorem Course.untruthful {before : ManagedBinlogFile} {endSequence : Nat} {outcomes : Nat → Option IoError}
    {outcome : Except BinlogRotationError Nat × ManagedBinlogFile} (course : Course before endSequence outcomes outcome)
    (overwrites : Overwrites before endSequence outcomes) : ¬ Truthful before endSequence outcome.1 outcome.2 := by
  cases course with
  | stopped _ _ _ plain => exact absurd overwrites plain
  | unaltered _ _ _ plain => exact absurd overwrites plain
  | installed held _ _ installed =>
      cases installed with
      | succeeded clear => exact absurd overwrites.undone clear.not_undone
      | undone error _ =>
          intro truthful
          have same := truthful.unaltered (Or.inr ⟨error, rfl⟩)
          exact overwrites.present ((restored_unaltered_iff before endSequence held).mp same)
      | unsettled _ _ kept => exact absurd overwrites.undone kept

/-- Whatever calls fail, a seal with a handle on the active file, if on any, tells the truth about what it did and keeps
the former active bytes, but for one kind of failures: the call that examines the path of the segment fails although
there is one, the rename replaces it, and the seal is undone and reported as if nothing had changed. -/
theorem sealing_truthful_iff (before : ManagedBinlogFile) (attached : before.Attached) (endSequence : Nat)
    (outcomes : Nat → Option IoError) :
    Truthful before endSequence (runSeal before endSequence outcomes).1 (runSeal before endSequence outcomes).2 ↔
      ¬ Overwrites before endSequence outcomes := by
  have course := sealActive_course attached endSequence outcomes
  constructor
  · exact fun truthful overwrites => course.untruthful overwrites truthful
  · exact course.truthful

/-- A binlog of one record byte, with a segment of another under the same end sequence. -/
def sealedTwice : ManagedBinlogFile where
  file := some ⟨0, 1⟩
  directory := ""
  storage :=
    { names := fun name => if name = .binlog then some 0 else if name = .segment 7 then some 1 else none
      contents := fun inode => if inode = 0 then [1] else [2]
      fresh := 2
      bounded := by
        intro name inode held
        split at held
        · cases held
          decide
        · split at held
          · cases held
            decide
          · cases held }

/-- The path of the segment cannot be examined, and the directory cannot be opened after the rename. -/
def unexamined (index : Nat) : Option IoError :=
  if index = 1 ∨ index = 5 then some ⟨.other, "Input/output error"⟩ else none

theorem sealedTwice_attached : sealedTwice.Attached := by
  intro handle opened
  cases opened
  rfl

/-- The verdict is that nothing changed, and the segment that was there is gone. -/
theorem sealing_loses_segment :
    (∃ error, (runSeal sealedTwice 7 unexamined).1 = .error (.unchanged error)) ∧
      sealedTwice.storage.file (.segment 7) = some [2] ∧
      (runSeal sealedTwice 7 unexamined).2.storage.file (.segment 7) = none :=
  ⟨⟨_, rfl⟩, rfl, rfl⟩

/-- Under a sequence that has no segment the same calls fail, and the verdict that nothing changed is true. -/
theorem sealing_truthful_eight :
    (∃ error, (runSeal sealedTwice 8 unexamined).1 = .error (.unchanged error)) ∧
      Truthful sealedTwice 8 (runSeal sealedTwice 8 unexamined).1 (runSeal sealedTwice 8 unexamined).2 := by
  refine ⟨⟨_, rfl⟩, ?_⟩
  apply (sealing_truthful_iff sealedTwice sealedTwice_attached 8 unexamined).mpr
  intro overwrites
  exact overwrites.present rfl

end OnyxDB.Persistence.Sealing
