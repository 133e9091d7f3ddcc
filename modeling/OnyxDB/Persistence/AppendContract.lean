import OnyxDB.Engine.Reference
import OnyxDB.Library.Interrupted
import OnyxDB.Persistence.BinlogFile

/-! What a rejected append leaves behind. The rollback of a failed append truncates the active file
to its previous length, and truncating to zero is also how the whole history is discarded. -/

namespace OnyxDB.Persistence.AppendContract
open OnyxDB.Library OnyxDB.Engine OnyxDB.Engine.Value
open OnyxDB.Persistence OnyxDB.Persistence.Model OnyxDB.Persistence.Record
open OnyxDB.Persistence.BinlogFile

/-- A call takes its effect or fails without one. -/
theorem call_cases (effect : ManagedBinlogFile → ManagedBinlogFile) (device : Device) :
    (∃ faults, call effect device = .ok () ⟨effect device.binlog, faults⟩) ∨
      ∃ error faults, call effect device = .error error ⟨device.binlog, faults⟩ := by
  obtain ⟨binlog, faults⟩ := device
  cases faults with
  | nil => exact Or.inl ⟨[], rfl⟩
  | cons fault rest =>
      cases fault with
      | succeed => exact Or.inl ⟨rest, rfl⟩
      | short written => exact Or.inl ⟨rest, rfl⟩
      | interrupted => exact Or.inl ⟨rest, rfl⟩
      | fail reason => exact Or.inr ⟨⟨.other, reason⟩, rest, rfl⟩

@[simp]
theorem call_without_faults (effect : ManagedBinlogFile → ManagedBinlogFile)
    (binlog : ManagedBinlogFile) : call effect ⟨binlog, []⟩ = .ok () ⟨effect binlog, []⟩ := rfl

/-- An action that leaves the storage alone, whether it succeeds or fails. -/
def Inert (action : Io Unit) : Prop :=
  ∀ device, (∃ faults, action device = .ok () ⟨device.binlog, faults⟩) ∨
    ∃ error faults, action device = .error error ⟨device.binlog, faults⟩

theorem call_id_inert : Inert (call id) := by
  intro device
  exact call_cases id device

theorem opened_bind {α : Type} (action : Nat → Io α) (device : Device) :
    (∃ cursor, device.binlog.file = some cursor ∧ (fileMut >>= action) device = action cursor device) ∨
      (device.binlog.file = none ∧ (fileMut >>= action) device = .error handleUnavailable device) := by
  cases handle : device.binlog.file with
  | none =>
      right
      refine ⟨rfl, ?_⟩
      simp only [bind, EStateM.bind, fileMut, handle]
  | some cursor =>
      left
      refine ⟨cursor, rfl, ?_⟩
      simp only [bind, EStateM.bind, fileMut, handle]

theorem inert_of_opened {action : Io Unit} (inert : Inert action) :
    Inert (fileMut >>= fun _ => action) := by
  intro device
  rcases opened_bind (fun _ => action) device with ⟨_, _, same⟩ | ⟨_, failed⟩
  · rw [same]
    exact inert device
  · exact Or.inr ⟨handleUnavailable, device.faults, failed⟩

theorem flush_inert : Inert flush := inert_of_opened call_id_inert

theorem syncAll_inert : Inert syncAll := inert_of_opened call_id_inert

theorem setLen_of_le {length : Nat} {bytes : Bytes} (within : length ≤ bytes.length) :
    setLen length bytes = bytes.take length := by
  simp [setLen, Nat.sub_eq_zero_of_le within]

theorem writeAt_end (bytes data : Bytes) : writeAt bytes bytes.length data = bytes ++ data := by
  simp [writeAt, setLen]

/-- The storage with `data` appended to the active file and the cursor behind it. -/
def extended (binlog : ManagedBinlogFile) (data : Bytes) : ManagedBinlogFile :=
  binlog.setActive (binlog.active ++ data) (binlog.active.length + data.length)

/-- The handle is open at the end of an existing active file. -/
structure AtEnd (binlog : ManagedBinlogFile) : Prop where
  present : binlog.directory.binlog = some binlog.active
  cursor : binlog.file = some binlog.active.length

theorem extended_active (binlog : ManagedBinlogFile) (data : Bytes) :
    (extended binlog data).active = binlog.active ++ data := rfl

theorem extended_atEnd (binlog : ManagedBinlogFile) (data : Bytes) :
    AtEnd (extended binlog data) := by
  refine ⟨rfl, ?_⟩
  rw [extended_active, List.length_append]
  rfl

theorem extended_nil {binlog : ManagedBinlogFile} (atEnd : AtEnd binlog) :
    extended binlog [] = binlog := by
  obtain ⟨file, directory⟩ := binlog
  have present := atEnd.present
  have cursor := atEnd.cursor
  simp only at present cursor
  simp only [extended, ManagedBinlogFile.setActive, List.append_nil, List.length_nil, Nat.add_zero]
  rw [← present, ← cursor]

theorem extended_extended (binlog : ManagedBinlogFile) (first second : Bytes) :
    extended (extended binlog first) second = extended binlog (first ++ second) := by
  simp only [extended, ManagedBinlogFile.setActive, ManagedBinlogFile.active, Option.getD_some,
    List.append_assoc, List.length_append, Nat.add_assoc]

/-- One write at the end of the file, by the outcome of the call. -/
theorem write_outcome (buffer : Bytes) {binlog : ManagedBinlogFile} (atEnd : AtEnd binlog) (fault : Fault)
    (rest : List Fault) :
    write buffer ⟨binlog, fault :: rest⟩ =
      match fault with
      | .succeed => .ok buffer.length ⟨extended binlog buffer, rest⟩
      | .short written => .ok (min written buffer.length) ⟨extended binlog (buffer.take written), rest⟩
      | .interrupted => .error ⟨.interrupted, "interrupted"⟩ ⟨binlog, rest⟩
      | .fail reason => .error ⟨.other, reason⟩ ⟨binlog, rest⟩ := by
  have cursor := atEnd.cursor
  cases fault <;>
    simp [write, bind, EStateM.bind, fileMut, cursor, nextFault, modify, modifyGet, MonadStateOf.modifyGet,
      Interrupted.modifyGet_run, pure, EStateM.pure, writeAt_end, extended, throw, throwThe, MonadExceptOf.throw,
      Interrupted.throw_run]

theorem write_without_faults (buffer : Bytes) {binlog : ManagedBinlogFile} (atEnd : AtEnd binlog) :
    write buffer ⟨binlog, []⟩ = .ok buffer.length ⟨extended binlog buffer, []⟩ := by
  have cursor := atEnd.cursor
  simp [write, bind, EStateM.bind, fileMut, cursor, nextFault, modify, modifyGet, MonadStateOf.modifyGet,
    Interrupted.modifyGet_run, pure, EStateM.pure, writeAt_end, extended]

/-- The next `count` calls all pass. -/
def allPass (count : Nat) (faults : List Fault) : Bool :=
  (faults.take count).all (fun fault => match fault with | .fail _ => false | _ => true)

theorem allPass_add (first second : Nat) (faults : List Fault) :
    allPass (first + second) faults = (allPass first faults && allPass second (faults.drop first)) := by
  rw [allPass, List.take_add, List.all_append]
  rfl

theorem call_outcome (effect : ManagedBinlogFile → ManagedBinlogFile) (binlog : ManagedBinlogFile)
    (faults : List Fault) :
    (allPass 1 faults = true ∧ call effect ⟨binlog, faults⟩ = .ok () ⟨effect binlog, faults.tail⟩) ∨
      (allPass 1 faults = false ∧ ∃ error, call effect ⟨binlog, faults⟩ = .error error ⟨binlog, faults.tail⟩) := by
  cases faults with
  | nil => exact Or.inl ⟨rfl, rfl⟩
  | cons fault rest =>
      cases fault with
      | fail reason => exact Or.inr ⟨rfl, ⟨.other, reason⟩, rfl⟩
      | succeed => exact Or.inl ⟨rfl, rfl⟩
      | short written => exact Or.inl ⟨rfl, rfl⟩
      | interrupted => exact Or.inl ⟨rfl, rfl⟩

theorem seekEnd_outcome {binlog : ManagedBinlogFile} (opened : binlog.file ≠ none) (faults : List Fault) :
    (allPass 1 faults = true ∧ seekEnd ⟨binlog, faults⟩ =
        .ok binlog.active.length ⟨{ binlog with file := some binlog.active.length }, faults.tail⟩) ∨
      (allPass 1 faults = false ∧ ∃ error, seekEnd ⟨binlog, faults⟩ = .error error ⟨binlog, faults.tail⟩) := by
  obtain ⟨cursor, handle⟩ := Option.ne_none_iff_exists'.mp opened
  rcases call_outcome (fun binlog => { binlog with file := some binlog.active.length }) binlog faults with
    ⟨passed, done⟩ | ⟨stopped, error, failed⟩
  · refine Or.inl ⟨passed, ?_⟩
    simp only [seekEnd, bind, EStateM.bind, fileMut, handle, done]
    rfl
  · refine Or.inr ⟨stopped, error, ?_⟩
    simp only [seekEnd, bind, EStateM.bind, fileMut, handle, failed]

theorem seekEnd_closed {device : Device} (closed : device.binlog.file = none) :
    seekEnd device = .error handleUnavailable device := by
  simp only [seekEnd, bind, EStateM.bind, fileMut, closed]

/-- The outcomes left after a flush, with the synchronization the policy asks for, that fails. -/
def unsettled (fsyncPolicy : FsyncPolicy) (faults : List Fault) : Option (List Fault) :=
  if allPass 1 faults = false then some faults.tail
  else if fsyncPolicy = .always ∧ allPass 1 faults.tail = false then some faults.tail.tail
  else none

theorem settle_outcome (fsyncPolicy : FsyncPolicy) {binlog : ManagedBinlogFile} (opened : binlog.file ≠ none)
    (faults : List Fault) :
    (unsettled fsyncPolicy faults = none ∧ ∃ rest, settle fsyncPolicy ⟨binlog, faults⟩ = .ok () ⟨binlog, rest⟩) ∨
      ∃ rest error, unsettled fsyncPolicy faults = some rest ∧
        settle fsyncPolicy ⟨binlog, faults⟩ = .error error ⟨binlog, rest⟩ := by
  obtain ⟨cursor, handle⟩ := Option.ne_none_iff_exists'.mp opened
  have flushes : flush ⟨binlog, faults⟩ = call id ⟨binlog, faults⟩ := by
    simp only [flush, bind, EStateM.bind, fileMut, handle]
  have syncs (rest : List Fault) : syncData ⟨binlog, rest⟩ = call id ⟨binlog, rest⟩ := by
    simp only [syncData, bind, EStateM.bind, fileMut, handle]
  rcases call_outcome id binlog faults with ⟨passed, done⟩ | ⟨stopped, error, failed⟩
  · by_cases always : fsyncPolicy = .always
    · subst always
      rcases call_outcome id binlog faults.tail with ⟨synced, finished⟩ | ⟨stopped, error, failed⟩
      · refine Or.inl ⟨by simp [unsettled, passed, synced], faults.tail.tail, ?_⟩
        simp only [settle, bind, EStateM.bind, flushes, done, if_true, id_eq, syncs, finished]
      · refine Or.inr ⟨faults.tail.tail, error, by simp [unsettled, passed, stopped], ?_⟩
        simp only [settle, bind, EStateM.bind, flushes, done, if_true, id_eq, syncs, failed]
    · refine Or.inl ⟨by simp [unsettled, passed, always], faults.tail, ?_⟩
      simp only [settle, bind, EStateM.bind, flushes, done, if_neg always]
      rfl
  · refine Or.inr ⟨faults.tail, error, by simp [unsettled, stopped], ?_⟩
    simp only [settle, bind, EStateM.bind, flushes, failed]

/-- What the outcomes of the calls make of a write of `left` bytes: whether it completes, how many bytes it stores, and
the outcomes of the calls after it. -/
def stores : Nat → List Fault → Bool × Nat × List Fault
  | 0, faults => (true, 0, faults)
  | left + 1, [] => (true, left + 1, [])
  | left + 1, .succeed :: rest => (true, left + 1, rest)
  | left + 1, .short written :: rest =>
      if written = 0 then (false, 0, rest)
      else
        let (complete, more, later) := stores (left + 1 - min written (left + 1)) rest
        (complete, min written (left + 1) + more, later)
  | left + 1, .interrupted :: rest => stores (left + 1) rest
  | _ + 1, .fail _ :: rest => (false, 0, rest)

theorem stores_le (left : Nat) (faults : List Fault) :
    (stores left faults).2.1 ≤ left ∧ ((stores left faults).1 = true → (stores left faults).2.1 = left) := by
  induction faults generalizing left with
  | nil => cases left <;> simp [stores]
  | cons fault rest course =>
      cases left with
      | zero => simp [stores]
      | succ left =>
          cases fault with
          | succeed => simp [stores]
          | interrupted => exact course (left + 1)
          | fail reason => simp [stores]
          | short written =>
              by_cases nothing : written = 0
              · simp [stores, nothing]
              · have least := Nat.min_le_right written (left + 1)
                have within := course (left + 1 - min written (left + 1))
                rcases remaining : stores (left + 1 - min written (left + 1)) rest with ⟨complete, more, later⟩
                rw [remaining] at within
                simp only [stores, if_neg nothing, remaining]
                obtain ⟨most, all⟩ := within
                refine ⟨Nat.add_le_of_le_sub' least most, fun done => ?_⟩
                exact (congrArg _ (all done)).trans (Nat.add_sub_cancel' least)

/-- The write loop does what the outcomes of its calls make of it, at the end of the file. -/
theorem writeAll_stores (fuel : Nat) (buffer : Bytes) (modified : Bool) {binlog : ManagedBinlogFile}
    (faults : List Fault) (atEnd : AtEnd binlog) (enough : faults.length + 2 ≤ fuel) :
    ∃ result, (result = .ok () ↔ (stores buffer.length faults).1 = true) ∧
      writeAllTrackingModification fuel buffer modified ⟨binlog, faults⟩ =
        ((result, modified || decide (0 < (stores buffer.length faults).2.1)),
          ⟨extended binlog (buffer.take (stores buffer.length faults).2.1), (stores buffer.length faults).2.2⟩) := by
  induction faults generalizing fuel buffer modified binlog with
  | nil =>
      obtain ⟨fuel, rfl⟩ : ∃ more, fuel = more + 2 := ⟨fuel - 2, by omega⟩
      refine ⟨.ok (), by cases buffer <;> simp [stores], ?_⟩
      cases buffer with
      | nil => simp [writeAllTrackingModification, stores, extended_nil atEnd]
      | cons byte buffer =>
          simp [writeAllTrackingModification, write_without_faults _ atEnd, stores]
  | cons fault rest course =>
      obtain ⟨fuel, rfl⟩ : ∃ more, fuel = more + 1 := ⟨fuel - 1, by omega⟩
      have fuelled : rest.length + 2 ≤ fuel := Nat.le_of_succ_le_succ enough
      cases buffer with
      | nil => exact ⟨.ok (), by simp [stores], by simp [writeAllTrackingModification, stores, extended_nil atEnd]⟩
      | cons byte buffer =>
          have wrote := write_outcome (byte :: buffer) atEnd fault rest
          cases fault with
          | succeed =>
              obtain ⟨fuel, rfl⟩ : ∃ more, fuel = more + 1 := ⟨fuel - 1, by omega⟩
              refine ⟨.ok (), by simp [stores], ?_⟩
              simp [writeAllTrackingModification, wrote, stores]
          | interrupted =>
              obtain ⟨result, complete, ran⟩ := course fuel (byte :: buffer) modified atEnd fuelled
              refine ⟨result, complete, ?_⟩
              simp only [writeAllTrackingModification, List.isEmpty_cons, Bool.false_eq_true, if_false, wrote, if_true]
              exact ran
          | fail reason =>
              refine ⟨.error ⟨.other, reason⟩, by simp [stores], ?_⟩
              simp [writeAllTrackingModification, wrote, stores, extended_nil atEnd]
          | short written =>
              by_cases nothing : written = 0
              · subst nothing
                refine ⟨.error ⟨.writeZero, "failed to write the complete binlog record"⟩, by simp [stores], ?_⟩
                simp [writeAllTrackingModification, wrote, stores, extended_nil atEnd]
              · obtain ⟨taken, least⟩ : ∃ taken, min written (buffer.length + 1) = taken + 1 :=
                  ⟨min written (buffer.length + 1) - 1, by omega⟩
                obtain ⟨result, complete, ran⟩ := course fuel ((byte :: buffer).drop (taken + 1)) true
                  (extended_atEnd binlog ((byte :: buffer).take written)) fuelled
                have part : (byte :: buffer).take written = (byte :: buffer).take (taken + 1) := by
                  rw [← least, ← List.length_cons (a := byte), ← List.take_take, List.take_length]
                rw [List.length_drop, List.length_cons] at complete ran
                rw [List.length_cons] at wrote ⊢
                rcases remaining : stores (buffer.length + 1 - (taken + 1)) rest with ⟨whole, more, later⟩
                rw [remaining] at complete ran
                simp only [stores, if_neg nothing, least, remaining]
                refine ⟨result, complete, ?_⟩
                simp only [writeAllTrackingModification, List.isEmpty_cons, Bool.false_eq_true, if_false, wrote, least]
                rw [ran, part, extended_extended, ← List.take_add]
                simp

/-- Listing the segments changes nothing and fails on a malformed name. -/
theorem listBinlogSegments_cases (device : Device) :
    (∃ faults, device.binlog.directory.malformedSegments = [] ∧ listBinlogSegments device =
        .ok (device.binlog.directory.segments.entries.map Prod.fst) ⟨device.binlog, faults⟩) ∨
      ∃ error faults, listBinlogSegments device = .error error ⟨device.binlog, faults⟩ := by
  rcases call_cases id device with ⟨faults, done⟩ | ⟨error, faults, failed⟩
  · cases names : device.binlog.directory.malformedSegments with
    | nil =>
        refine Or.inl ⟨faults, rfl, ?_⟩
        simp [listBinlogSegments, bind, EStateM.bind, done, get, getThe, MonadStateOf.get, Interrupted.get_run,
          names, pure, EStateM.pure]
    | cons name rest =>
        refine Or.inr ⟨⟨.other, s!"Malformed binlog segment name: {name}"⟩, faults, ?_⟩
        simp [listBinlogSegments, bind, EStateM.bind, done, get, getThe, MonadStateOf.get, Interrupted.get_run,
          names, throw, throwThe, MonadExceptOf.throw, Interrupted.throw_run]
  · refine Or.inr ⟨error, faults, ?_⟩
    simp [listBinlogSegments, bind, EStateM.bind, failed]

theorem removeSegments_ok {segments : List Nat} {device after : Device}
    (done : removeSegments segments device = .ok () after) :
    after.binlog.directory.binlog = device.binlog.directory.binlog ∧
      (segments = [] → after.binlog = device.binlog) := by
  induction segments generalizing device with
  | nil =>
      cases done
      exact ⟨rfl, fun _ => rfl⟩
  | cons endSequence segments later =>
      refine ⟨?_, by simp⟩
      rcases call_cases (fun binlog => binlog.setSegments
          (binlog.directory.segments.erase endSequence)) device with
        ⟨faults, removed⟩ | ⟨error, faults, failed⟩
      · simp only [removeSegments, bind, EStateM.bind, removed] at done
        exact (later done).1
      · simp only [removeSegments, bind, EStateM.bind, failed] at done
        cases done

/-- Removing every segment succeeds only without malformed names and keeps the active file. -/
theorem removeAll_ok {device after : Device} (done : removeAllBinlogSegments device = .ok () after) :
    after.binlog.directory.binlog = device.binlog.directory.binlog ∧
      device.binlog.directory.malformedSegments = [] ∧
      (device.binlog.directory.segments.entries = [] →
        after.binlog.directory.segments = device.binlog.directory.segments) := by
  rcases listBinlogSegments_cases device with ⟨faults, wellNamed, listed⟩ | ⟨error, faults, failed⟩
  · simp only [removeAllBinlogSegments, bind, EStateM.bind, listed] at done
    cases removed : removeSegments (device.binlog.directory.segments.entries.map Prod.fst)
        ⟨device.binlog, faults⟩ with
    | error error state =>
        simp only [removed] at done
        cases done
    | ok _ state =>
        simp only [removed] at done
        obtain ⟨active, none_removed⟩ := removeSegments_ok removed
        have kept : after.binlog = state.binlog := by
          split at done
          · cases done
            rfl
          · rcases call_cases id state with ⟨faults, synced⟩ | ⟨error, faults, failed⟩
            · rw [synced] at done
              cases done
              rfl
            · rw [failed] at done
              cases done
        rw [kept]
        refine ⟨active, wellNamed, ?_⟩
        intro noSegments
        rw [none_removed (by simp [noSegments])]
  · simp only [removeAllBinlogSegments, bind, EStateM.bind, failed] at done
    cases done

theorem seekStart_ok {position : Nat} {device after : Device}
    (done : seekStart position device = .ok () after) :
    after.binlog = { device.binlog with file := some position } := by
  rcases opened_bind (fun _ => call fun binlog => { binlog with file := some position }) device with
    ⟨cursor, opened, same⟩ | ⟨_, failed⟩
  · rw [seekStart, same] at done
    rcases call_cases (fun binlog => { binlog with file := some position }) device with
      ⟨faults, moved⟩ | ⟨error, faults, failed⟩
    · rw [moved] at done
      cases done
      rfl
    · rw [failed] at done
      cases done
  · rw [seekStart, failed] at done
    cases done

/-- A truncation that succeeds has cut the active file. Above length zero it leaves the segments
alone; at length zero it keeps them only if there were none. -/
theorem truncate_ok {length : Nat} {device after : Device}
    (done : truncate length device = .ok () after) :
    after.binlog.directory.binlog = some (setLen length device.binlog.active) ∧
      (length = 0 → device.binlog.directory.malformedSegments = []) ∧
      (length ≠ 0 ∨ device.binlog.directory.segments.entries = [] →
        after.binlog.directory.segments = device.binlog.directory.segments) := by
  rcases opened_bind (fun _ => do
      call fun binlog => { binlog with
        directory := { binlog.directory with binlog := some (setLen length binlog.active) } }
      seekStart length
      if length = 0 then removeAllBinlogSegments else pure ()) device with
    ⟨cursor, opened, same⟩ | ⟨_, failed⟩
  · rw [truncate, same] at done
    rcases call_cases (fun binlog => { binlog with
        directory := { binlog.directory with binlog := some (setLen length binlog.active) } }) device
      with ⟨faults, cut⟩ | ⟨error, faults, failed⟩
    · simp only [bind, EStateM.bind, cut] at done
      cases moved : seekStart length ⟨{ device.binlog with
          directory := { device.binlog.directory with
            binlog := some (setLen length device.binlog.active) } }, faults⟩ with
      | error error state =>
          simp only [moved] at done
          cases done
      | ok _ state =>
          simp only [moved] at done
          have placed := seekStart_ok moved
          by_cases zero : length = 0
          · rw [if_pos zero] at done
            obtain ⟨active, wellNamed, segments⟩ := removeAll_ok done
            rw [placed] at active wellNamed segments
            exact ⟨active, fun _ => wellNamed, fun either =>
              segments (either.resolve_left (fun positive => positive zero))⟩
          · rw [if_neg zero] at done
            cases done
            rw [placed]
            exact ⟨rfl, fun absurdity => absurd absurdity zero, fun _ => rfl⟩
    · simp only [bind, EStateM.bind, failed] at done
      cases done
  · rw [truncate, failed] at done
    cases done

theorem named_ok {context : String} {action : Io Unit} {device after : Device}
    (done : named context action device = (.ok (), after)) : action device = .ok () after := by
  unfold named at done
  split at done
  · next ran =>
    cases done
    exact ran
  · cases done

theorem inert_ok {action : Io Unit} (inert : Inert action) {device after : Device}
    (done : action device = .ok () after) : after.binlog = device.binlog := by
  rcases inert device with ⟨faults, ran⟩ | ⟨error, faults, failed⟩
  · rw [ran] at done
    cases done
    rfl
  · rw [failed] at done
    cases done

/-- A rollback that succeeds has truncated, and its other steps leave the files alone. -/
theorem rollbackSteps_ok {previousLength : Nat} {device after : Device}
    (done : rollbackSteps previousLength device = (.ok (), after)) :
    ∃ truncated, truncate previousLength device = .ok () truncated ∧
      after.binlog.directory = truncated.binlog.directory := by
  unfold rollbackSteps at done
  split at done
  · cases done
  next truncated cut =>
    split at done
    · cases done
    next moved placed =>
      split at done
      · cases done
      next flushed drained =>
        refine ⟨truncated, named_ok cut, ?_⟩
        rw [inert_ok syncAll_inert (named_ok done), inert_ok flush_inert (named_ok drained),
          seekStart_ok (named_ok placed)]

/-- What an append promises: success appends the tail, a rejection changes nothing, and only an
indeterminate outcome leaves the files open. -/
def KeepsHistory (before : Directory) (tail : Bytes)
    (outcome : Except StorageFailure Unit × Device) : Prop :=
  match outcome.1 with
  | .ok () =>
      outcome.2.binlog.directory.binlog = before.binlog.map (· ++ tail) ∧
        outcome.2.binlog.directory.segments = before.segments
  | .error failure =>
      failure.disposition = .rejected →
        outcome.2.binlog.directory.binlog = before.binlog ∧
          outcome.2.binlog.directory.segments = before.segments

/-- The rollback of an append restores the files unless it truncates to zero next to segments. -/
theorem rollbackBinlogTail_restores {binlog : ManagedBinlogFile} {error : IoError} {data : Bytes}
    {faults : List Fault} {failure : StorageFailure} {after : Device} (atEnd : AtEnd binlog)
    (safe : binlog.active ≠ [] ∨ binlog.directory.segments.entries = [] ∨
      binlog.directory.malformedSegments ≠ [])
    (rolled : rollbackBinlogTail binlog.active.length error ⟨extended binlog data, faults⟩ =
      (failure, after)) (rejected : failure.disposition = .rejected) :
    after.binlog.directory.binlog = binlog.directory.binlog ∧
      after.binlog.directory.segments = binlog.directory.segments := by
  unfold rollbackBinlogTail at rolled
  split at rolled
  next steps =>
    cases rolled
    obtain ⟨truncated, cut, same⟩ := rollbackSteps_ok steps
    obtain ⟨active, wellNamed, segments⟩ := truncate_ok cut
    have restored : setLen binlog.active.length (binlog.active ++ data) = binlog.active := by
      rw [setLen_of_le (by simp), List.take_left]
    have untouched : binlog.active.length ≠ 0 ∨ binlog.directory.segments.entries = [] := by
      rcases safe with nonempty | noSegments | misnamed
      · left
        simpa using nonempty
      · exact Or.inr noSegments
      · left
        intro zero
        exact misnamed (wellNamed zero)
    rw [same]
    refine ⟨?_, segments untouched⟩
    rw [active, atEnd.present]
    exact congrArg some restored
  next steps =>
    cases rolled
    cases rejected

/-- The outcomes left for the rollback of an append of `length` bytes, if it has to be rolled back. -/
def undone (fsyncPolicy : FsyncPolicy) (length : Nat) (faults : List Fault) : Option (List Fault) :=
  let (complete, stored, rest) := stores length faults
  if stored = 0 then none
  else if complete then unsettled fsyncPolicy rest
  else some rest

/-- An append at the end of the file keeps the history, or ends as its rollback does. -/
theorem appendAtEnd_course (tail : Bytes) (fsyncPolicy : FsyncPolicy) {binlog : ManagedBinlogFile}
    (atEnd : AtEnd binlog) (faults : List Fault) :
    (undone fsyncPolicy tail.length faults = none ∧ KeepsHistory binlog.directory tail
        (appendAtEnd tail fsyncPolicy binlog.active.length ⟨binlog, faults⟩)) ∨
      ∃ rest error data failure after, undone fsyncPolicy tail.length faults = some rest ∧
        rollbackBinlogTail binlog.active.length error ⟨extended binlog data, rest⟩ = (failure, after) ∧
        appendAtEnd tail fsyncPolicy binlog.active.length ⟨binlog, faults⟩ = (.error failure, after) := by
  obtain ⟨result, completes, wrote⟩ := writeAll_stores (faults.length + 2) tail false faults atEnd le_rfl
  have within := stores_le tail.length faults
  rcases course : stores tail.length faults with ⟨complete, stored, rest⟩
  rw [course] at completes wrote within
  simp only [undone, course, appendAtEnd, wrote, Bool.false_or]
  cases result with
  | error error =>
      have stopped : complete = false := by
        rw [← Bool.not_eq_true, ← completes]
        exact nofun
      by_cases nothing : stored = 0
      · subst nothing
        refine Or.inl ⟨rfl, ?_⟩
        simp only [writeResult, appendResult, Nat.lt_irrefl, decide_false, Bool.false_eq_true, if_false, List.take_zero,
          extended_nil atEnd]
        exact fun _ => ⟨rfl, rfl⟩
      · obtain ⟨failure, after, rolled⟩ : ∃ failure after, rollbackBinlogTail binlog.active.length error
            ⟨extended binlog (tail.take stored), rest⟩ = (failure, after) := ⟨_, _, rfl⟩
        refine Or.inr ⟨rest, error, tail.take stored, failure, after, by simp [nothing, stopped], rolled, ?_⟩
        simp only [writeResult, appendResult, decide_eq_true (Nat.pos_of_ne_zero nothing), if_true, rolled]
  | ok _ =>
      have finished : complete = true := completes.mp rfl
      have all := within.2 finished
      simp only at all
      subst all
      rw [List.take_length]
      rcases @settle_outcome fsyncPolicy (extended binlog tail) nofun rest with
        ⟨settles, later, settled⟩ | ⟨later, error, settles, failed⟩
      · refine Or.inl ⟨by simp [finished, settles], ?_⟩
        simp only [writeResult, settled, appendResult]
        refine ⟨?_, rfl⟩
        rw [atEnd.present]
        rfl
      · by_cases nothing : tail.length = 0
        · have empty := List.length_eq_zero_iff.mp nothing
          subst empty
          rw [extended_nil atEnd] at failed
          refine Or.inl ⟨rfl, ?_⟩
          simp only [writeResult, failed, appendResult, List.length_nil, Nat.lt_irrefl, decide_false,
            Bool.false_eq_true, if_false, extended_nil atEnd]
          exact fun _ => ⟨rfl, rfl⟩
        · obtain ⟨failure, after, rolled⟩ : ∃ failure after, rollbackBinlogTail binlog.active.length error
              ⟨extended binlog tail, later⟩ = (failure, after) := ⟨_, _, rfl⟩
          refine Or.inr ⟨later, error, tail, failure, after, by simp [nothing, finished, settles], rolled, ?_⟩
          simp only [writeResult, failed, appendResult, decide_eq_true (Nat.pos_of_ne_zero nothing), if_true, rolled]

theorem appendAtEnd_keepsHistory (tail : Bytes) (fsyncPolicy : FsyncPolicy)
    (binlog : ManagedBinlogFile) (faults : List Fault) (atEnd : AtEnd binlog)
    (safe : binlog.active ≠ [] ∨ binlog.directory.segments.entries = [] ∨
      binlog.directory.malformedSegments ≠ []) :
    KeepsHistory binlog.directory tail
      (appendAtEnd tail fsyncPolicy binlog.active.length ⟨binlog, faults⟩) := by
  rcases appendAtEnd_course tail fsyncPolicy atEnd faults with
    ⟨_, keeps⟩ | ⟨rest, error, data, failure, after, _, rolled, ends⟩
  · exact keeps
  · rw [ends]
    exact rollbackBinlogTail_restores atEnd safe rolled

theorem appendBinlogTail_keepsHistory (tail : Bytes) (fsyncPolicy : FsyncPolicy) (device : Device)
    (present : device.binlog.directory.binlog = some device.binlog.active)
    (safe : device.binlog.active ≠ [] ∨ device.binlog.directory.segments.entries = [] ∨
      device.binlog.directory.malformedSegments ≠ [] ∨ device.binlog.file = none) :
    KeepsHistory device.binlog.directory tail (appendBinlogTail tail fsyncPolicy device) := by
  obtain ⟨binlog, faults⟩ := device
  by_cases closed : binlog.file = none
  · rw [appendBinlogTail, seekEnd_closed closed]
    exact fun _ => ⟨rfl, rfl⟩
  rcases seekEnd_outcome closed faults with ⟨_, sought⟩ | ⟨_, error, failed⟩
  · have history : binlog.active ≠ [] ∨ binlog.directory.segments.entries = [] ∨
        binlog.directory.malformedSegments ≠ [] := by
      rcases safe with nonempty | noSegments | misnamed | unopened
      · exact Or.inl nonempty
      · exact Or.inr (Or.inl noSegments)
      · exact Or.inr (Or.inr misnamed)
      · exact absurd unopened closed
    rw [appendBinlogTail, sought]
    exact appendAtEnd_keepsHistory tail fsyncPolicy
      { binlog with file := some binlog.active.length } faults.tail ⟨present, rfl⟩ history
  · rw [appendBinlogTail, failed]
    exact fun _ => ⟨rfl, rfl⟩

/-- An action that takes `count` calls, and succeeds exactly when they all pass. -/
structure Takes (action : Io Unit) (count : Nat) (binlog after : ManagedBinlogFile) : Prop where
  passes : ∀ faults, allPass count faults = true → action ⟨binlog, faults⟩ = .ok () ⟨after, faults.drop count⟩
  fails : ∀ faults, allPass count faults = false → ∃ error left, action ⟨binlog, faults⟩ = .error error left

theorem takes_call (effect : ManagedBinlogFile → ManagedBinlogFile) (binlog : ManagedBinlogFile) :
    Takes (call effect) 1 binlog (effect binlog) := by
  constructor
  · intro faults passed
    rcases call_outcome effect binlog faults with ⟨_, done⟩ | ⟨stopped, _⟩
    · rw [done, List.drop_one]
    · rw [passed] at stopped
      cases stopped
  · intro faults stopped
    rcases call_outcome effect binlog faults with ⟨passed, _⟩ | ⟨_, error, failed⟩
    · rw [passed] at stopped
      cases stopped
    · exact ⟨error, _, failed⟩

theorem Takes.bind {first second : Io Unit} {early late : Nat} {binlog middle after : ManagedBinlogFile}
    (before : Takes first early binlog middle) (later : Takes second late middle after) :
    Takes (first >>= fun _ => second) (early + late) binlog after := by
  constructor
  · intro faults passed
    rw [allPass_add, Bool.and_eq_true] at passed
    simp only [Bind.bind, EStateM.bind, before.passes faults passed.1]
    rw [later.passes _ passed.2, List.drop_drop]
  · intro faults stopped
    rw [allPass_add, Bool.and_eq_false_iff] at stopped
    by_cases passed : allPass early faults = true
    · obtain ⟨error, left, failed⟩ := later.fails _ (stopped.resolve_left (by simp [passed]))
      exact ⟨error, left, by simp only [Bind.bind, EStateM.bind, before.passes faults passed, failed]⟩
    · obtain ⟨error, left, failed⟩ := before.fails faults (Bool.eq_false_iff.mpr passed)
      exact ⟨error, left, by simp only [Bind.bind, EStateM.bind, failed]⟩

theorem takes_nothing (binlog : ManagedBinlogFile) : Takes (pure ()) 0 binlog binlog :=
  ⟨fun _ _ => rfl, fun _ stopped => by cases stopped⟩

theorem Takes.opened {action : Io Unit} {count : Nat} {binlog after : ManagedBinlogFile}
    (takes : Takes action count binlog after) (opened : binlog.file ≠ none) :
    Takes (fileMut >>= fun _ => action) count binlog after := by
  obtain ⟨cursor, handle⟩ := Option.ne_none_iff_exists'.mp opened
  have same (faults : List Fault) : (fileMut >>= fun _ => action) ⟨binlog, faults⟩ = action ⟨binlog, faults⟩ := by
    simp only [Bind.bind, EStateM.bind, fileMut, handle]
  exact ⟨fun faults => by rw [same]; exact takes.passes faults, fun faults => by rw [same]; exact takes.fails faults⟩

theorem takes_removeSegments (segments : List Nat) (binlog : ManagedBinlogFile) :
    Takes (removeSegments segments) segments.length binlog (binlog.setSegments
      (binlog.directory.segments.filter (fun endSequence => decide (endSequence ∉ segments)))) := by
  induction segments generalizing binlog with
  | nil =>
      have all : binlog.directory.segments.filter (fun endSequence => decide (endSequence ∉ [])) =
          binlog.directory.segments := by
        ext1
        simp [Catalog.filter]
      rw [all]
      exact takes_nothing binlog
  | cons first segments later =>
      have merged : (binlog.directory.segments.erase first).filter
          (fun endSequence => decide (endSequence ∉ segments)) =
          binlog.directory.segments.filter
            (fun endSequence => decide (endSequence ∉ first :: segments)) := by
        rw [Catalog.erase, Catalog.filter_filter]
        congr 1
        funext endSequence
        by_cases same : endSequence = first
        · simp [same]
        · simp [same]
      have both := (takes_call (fun binlog => binlog.setSegments (binlog.directory.segments.erase first))
        binlog).bind (later _)
      rw [List.length_cons, Nat.add_comm, ← merged]
      exact both

/-- Removing every segment, where there is one and no name is malformed. -/
theorem takes_removeAll {binlog : ManagedBinlogFile} (wellNamed : binlog.directory.malformedSegments = [])
    (some_segments : binlog.directory.segments.entries ≠ []) :
    ∃ after, Takes removeAllBinlogSegments (binlog.directory.segments.entries.length + 2) binlog after ∧
      after.file = binlog.file ∧ after.directory.segments.entries = [] := by
  have unlisted : (binlog.directory.segments.entries.map Prod.fst).isEmpty = false := by simpa using some_segments
  have removes := takes_removeSegments (binlog.directory.segments.entries.map Prod.fst) binlog
  rw [List.length_map] at removes
  have syncs := removes.bind (takes_call id _)
  have lists : Takes _ _ binlog _ := (takes_call id binlog).bind syncs
  have same (faults : List Fault) : removeAllBinlogSegments ⟨binlog, faults⟩ = (call id >>= fun _ =>
      removeSegments (binlog.directory.segments.entries.map Prod.fst) >>= fun _ => call id) ⟨binlog, faults⟩ := by
    rcases call_outcome id binlog faults with ⟨_, done⟩ | ⟨_, error, failed⟩
    · simp only [removeAllBinlogSegments, listBinlogSegments, Bind.bind, EStateM.bind, done, get, getThe,
        MonadStateOf.get, Interrupted.get_run, id_eq, wellNamed, Pure.pure, EStateM.pure, unlisted, Bool.false_eq_true,
        if_false]
    · simp only [removeAllBinlogSegments, listBinlogSegments, Bind.bind, EStateM.bind, failed]
  have total : binlog.directory.segments.entries.length + 2 = 1 + (binlog.directory.segments.entries.length + 1) := by
    omega
  refine ⟨binlog.setSegments (binlog.directory.segments.filter
    (fun endSequence => decide (endSequence ∉ binlog.directory.segments.entries.map Prod.fst))), ?_, rfl, ?_⟩
  · rw [total]
    exact ⟨fun faults => by rw [same]; exact lists.passes faults, fun faults => by rw [same]; exact lists.fails faults⟩
  · change (binlog.directory.segments.entries.filter _) = []
    rw [List.filter_eq_nil_iff]
    intro entry member
    simp [List.mem_map_of_mem (f := Prod.fst) member]

theorem takes_truncate {binlog : ManagedBinlogFile} (opened : binlog.file ≠ none)
    (wellNamed : binlog.directory.malformedSegments = []) (some_segments : binlog.directory.segments.entries ≠ []) :
    ∃ after, Takes (truncate 0) (binlog.directory.segments.entries.length + 4) binlog after ∧ after.file ≠ none ∧
      after.directory.segments.entries = [] := by
  obtain ⟨after, removes, file, none_left⟩ := @takes_removeAll
    { binlog with file := some 0, directory := { binlog.directory with binlog := some (setLen 0 binlog.active) } }
    wellNamed some_segments
  have seeks : Takes (seekStart 0) 1
      { binlog with directory := { binlog.directory with binlog := some (setLen 0 binlog.active) } }
      { binlog with file := some 0, directory := { binlog.directory with binlog := some (setLen 0 binlog.active) } } :=
    (takes_call _ _).opened opened
  have cuts := (takes_call (fun binlog => { binlog with
    directory := { binlog.directory with binlog := some (setLen 0 binlog.active) } }) binlog).bind (seeks.bind removes)
  have total : binlog.directory.segments.entries.length + 4 =
      1 + (1 + (binlog.directory.segments.entries.length + 2)) := by omega
  refine ⟨after, ?_, by simp [file], none_left⟩
  rw [total]
  exact cuts.opened opened

theorem named_outcome {action : Io Unit} {count : Nat} {binlog after : ManagedBinlogFile}
    (takes : Takes action count binlog after) (context : String) (faults : List Fault) :
    (allPass count faults = true ∧ named context action ⟨binlog, faults⟩ = (.ok (), ⟨after, faults.drop count⟩)) ∨
      (allPass count faults = false ∧
        ∃ message left, named context action ⟨binlog, faults⟩ = (.error message, left)) := by
  cases passed : allPass count faults with
  | true => exact Or.inl ⟨rfl, by simp only [named, takes.passes faults passed]⟩
  | false =>
      obtain ⟨error, left, failed⟩ := takes.fails faults passed
      exact Or.inr ⟨rfl, s!"{context}: {error.message}", left, by simp only [named, failed]⟩

/-- A rollback to an empty file beside segments succeeds exactly when all of its calls pass, and then no segment is
left. -/
theorem rollbackSteps_iff {binlog : ManagedBinlogFile} (opened : binlog.file ≠ none)
    (wellNamed : binlog.directory.malformedSegments = []) (some_segments : binlog.directory.segments.entries ≠ [])
    (faults : List Fault) :
    (allPass (binlog.directory.segments.entries.length + 7) faults = true ∧
      ∃ after, rollbackSteps 0 ⟨binlog, faults⟩ = (.ok (), after) ∧
        after.binlog.directory.segments.entries = []) ∨
      (allPass (binlog.directory.segments.entries.length + 7) faults = false ∧
        ∃ error after, rollbackSteps 0 ⟨binlog, faults⟩ = (.error error, after)) := by
  obtain ⟨cut, truncates, file, none_left⟩ := takes_truncate opened wellNamed some_segments
  have seeks : Takes (seekStart 0) 1 cut { cut with file := some 0 } := (takes_call _ cut).opened file
  have flushes : Takes flush 1 { cut with file := some 0 } { cut with file := some 0 } := (takes_call id _).opened nofun
  have syncs : Takes syncAll 1 { cut with file := some 0 } { cut with file := some 0 } := (takes_call id _).opened nofun
  have total : binlog.directory.segments.entries.length + 7 =
      binlog.directory.segments.entries.length + 4 + (1 + (1 + 1)) := by omega
  have calls := allPass_add (binlog.directory.segments.entries.length + 4) (1 + (1 + 1)) faults
  rw [← total, allPass_add 1 (1 + 1), allPass_add 1 1] at calls
  rw [calls]
  unfold rollbackSteps
  rcases named_outcome truncates "tail truncation failed" faults with ⟨first, ran⟩ | ⟨first, message, left, ran⟩
  · generalize faults.drop (binlog.directory.segments.entries.length + 4) = cutFaults at ran ⊢
    rcases named_outcome seeks "tail seek failed" cutFaults with ⟨second, moved⟩ | ⟨second, message, left, moved⟩
    · generalize cutFaults.drop 1 = soughtFaults at moved ⊢
      rcases named_outcome flushes "rollback flush failed" soughtFaults with
        ⟨third, flushed⟩ | ⟨third, message, left, flushed⟩
      · rcases named_outcome syncs "rollback sync failed" (soughtFaults.drop 1) with
          ⟨fourth, synced⟩ | ⟨fourth, message, left, synced⟩
        · refine Or.inl ⟨by simp only [first, second, third, fourth, Bool.and_self], ⟨{ cut with file := some 0 },
            (soughtFaults.drop 1).drop 1⟩, ?_, none_left⟩
          simp only [ran, moved, flushed]
          exact synced
        · refine Or.inr ⟨by simp only [fourth, Bool.and_false], message, left, ?_⟩
          simp only [ran, moved, flushed]
          exact synced
      · refine Or.inr ⟨by simp only [third, Bool.false_and, Bool.and_false], message, left, ?_⟩
        simp only [ran, moved, flushed]
    · refine Or.inr ⟨by simp only [second, Bool.false_and, Bool.and_false], message, left, ?_⟩
      simp only [ran, moved]
  · refine Or.inr ⟨by simp only [first, Bool.false_and], message, left, ?_⟩
    simp only [ran]

/-- On an empty active file beside segments, an append keeps the history unless it is rolled back by calls that all
pass. -/
theorem appendAtEnd_keepsHistory_iff (tail : Bytes) (fsyncPolicy : FsyncPolicy) {binlog : ManagedBinlogFile}
    (atEnd : AtEnd binlog) (empty : binlog.active = []) (wellNamed : binlog.directory.malformedSegments = [])
    (some_segments : binlog.directory.segments.entries ≠ []) (faults : List Fault) :
    KeepsHistory binlog.directory tail
        (appendAtEnd tail fsyncPolicy binlog.active.length ⟨binlog, faults⟩) ↔
      (undone fsyncPolicy tail.length faults).any
        (allPass (binlog.directory.segments.entries.length + 7)) = false := by
  rcases appendAtEnd_course tail fsyncPolicy atEnd faults with
    ⟨none_undone, keeps⟩ | ⟨rest, error, data, failure, after, owed, rolled, ends⟩
  · simp only [none_undone, Option.any_none, iff_true]
    exact keeps
  rw [ends, owed, Option.any_some]
  rw [empty, List.length_nil, rollbackBinlogTail] at rolled
  rcases @rollbackSteps_iff (extended binlog data) nofun wellNamed some_segments rest with
    ⟨passed, cleared, steps, none_left⟩ | ⟨stopped, error, left, steps⟩
  · have lost : ¬ cleared.binlog.directory.segments = binlog.directory.segments := by
      intro same
      rw [same] at none_left
      exact some_segments none_left
    rw [steps] at rolled
    cases rolled
    constructor
    · intro keeps
      exact absurd (keeps rfl).2 lost
    · intro stopped
      exact absurd (passed.symm.trans stopped) nofun
  · rw [steps] at rolled
    cases rolled
    exact iff_of_true nofun stopped

/-- The outcomes under which an append of `length` bytes stores a part of them and is rolled back by calls that all
pass, beside `segments` segments. -/
def rolledBack (fsyncPolicy : FsyncPolicy) (length segments : Nat) (faults : List Fault) : Bool :=
  allPass 2 faults && (undone fsyncPolicy length (faults.drop 2)).any (allPass (segments + 7))

/-- A write that runs out of space after its first byte. -/
def noSpace : List Fault := [.succeed, .succeed, .short 1, .fail "No space left on device"]

theorem rolledBack_noSpace (fsyncPolicy : FsyncPolicy) {length : Nat} (segments : Nat) (long : 1 < length) :
    rolledBack fsyncPolicy length segments noSpace = true := by
  obtain ⟨more, rfl⟩ : ∃ more, length = more + 2 := ⟨length - 2, by omega⟩
  simp [rolledBack, noSpace, allPass, undone, stores]

theorem encodedLength_deletePayload : encodedLength [(2, deletePayload)] = .ok 34 := rfl

section Records
variable [Platform]

theorem appendEncodedRecord_eq_ok_iff (output : Bytes) (record : Nat × Bytes) (result : Bytes) :
    appendEncodedRecord output record = .ok result ↔
      Encodable record.1 record.2 ∧ result = output ++ framedRecord record.1 record.2 := by
  rw [← encodeFramed_eq_ok_iff]
  cases encoded : encodeFramedVersionedBinlogRecordInto record.1 record.2 output with
  | error error => simp [appendEncodedRecord, encoded]
  | ok extendedOutput => simp [appendEncodedRecord, encoded]

theorem encodedTail_fold (records : List (Nat × Bytes)) (output tail : Bytes) :
    records.foldlM appendEncodedRecord output = .ok tail ↔
      (∀ record ∈ records, Encodable record.1 record.2) ∧
        tail = output ++ records.flatMap (fun record => framedRecord record.1 record.2) := by
  induction records generalizing output with
  | nil => simp [pure, Except.pure, eq_comm]
  | cons record records rest =>
      simp only [List.foldlM_cons, bind, Except.bind, List.forall_mem_cons, List.flatMap_cons]
      cases encoded : appendEncodedRecord output record with
      | error failure =>
          have refused : ¬ Encodable record.1 record.2 := by
            intro encodable
            rw [(appendEncodedRecord_eq_ok_iff _ _ _).mpr ⟨encodable, rfl⟩] at encoded
            cases encoded
          simp [refused]
      | ok longer =>
          obtain ⟨encodable, same⟩ := (appendEncodedRecord_eq_ok_iff _ _ _).mp encoded
          simp only [rest, same, encodable, true_and, List.append_assoc]

theorem encodedTail_eq_ok_iff (records : List (Nat × Bytes)) (tail : Bytes) :
    encodedTail records = .ok tail ↔
      (∀ record ∈ records, Encodable record.1 record.2) ∧
        tail = records.flatMap (fun record => framedRecord record.1 record.2) := by
  rw [encodedTail, encodedTail_fold, List.nil_append]

/-- An append keeps the durable history exactly when its rollback does not take the empty active file for a reset: the
active file is not empty, or there is no segment to lose, or a malformed segment name or a closed handle stops it, or
the outcomes of the calls leave nothing to roll back or let the rollback fail. -/
theorem appendBinlogRecords_keepsHistory_of_faults (binlog : ManagedBinlogFile) (before tail : Bytes)
    (records : List (Nat × Bytes)) (size : Nat) (fsyncPolicy : FsyncPolicy) (faults : List Fault)
    (present : binlog.directory.binlog = some before) (nonempty : records ≠ [])
    (measured : encodedLength records = .ok size) (framed : encodedTail records = .ok tail) :
    KeepsHistory binlog.directory tail (appendBinlogRecords records fsyncPolicy ⟨binlog, faults⟩) ↔
      before ≠ [] ∨ binlog.directory.segments.entries = [] ∨
        binlog.directory.malformedSegments ≠ [] ∨ binlog.file = none ∨
          rolledBack fsyncPolicy tail.length binlog.directory.segments.entries.length faults = false := by
  have some_records : records.isEmpty = false := by simpa using nonempty
  have active : binlog.active = before := by
    rw [ManagedBinlogFile.active, present]
    rfl
  have begins : allPass 2 faults = (allPass 1 faults && allPass 1 (faults.drop 1)) := allPass_add 1 1 faults
  by_cases safe : before ≠ [] ∨ binlog.directory.segments.entries = [] ∨
      binlog.directory.malformedSegments ≠ [] ∨ binlog.file = none
  · refine iff_of_true ?_ (by tauto)
    simp only [appendBinlogRecords, some_records, Bool.false_eq_true, if_false, measured]
    rcases call_outcome id binlog faults with ⟨_, allocated⟩ | ⟨_, error, refused⟩
    · simp only [allocated, framed]
      exact appendBinlogTail_keepsHistory tail fsyncPolicy ⟨binlog, faults.tail⟩ (by rw [present, active])
        (by rw [active]; exact safe)
    · simp only [refused]
      exact fun _ => ⟨rfl, rfl⟩
  push Not at safe
  obtain ⟨empty, some_segments, wellNamed, opened⟩ := safe
  have only : (before ≠ [] ∨ binlog.directory.segments.entries = [] ∨ binlog.directory.malformedSegments ≠ [] ∨
      binlog.file = none ∨
        rolledBack fsyncPolicy tail.length binlog.directory.segments.entries.length faults = false) ↔
      rolledBack fsyncPolicy tail.length binlog.directory.segments.entries.length faults = false := by
    simp [empty, some_segments, wellNamed, opened]
  rw [only, rolledBack, begins, List.drop_one]
  simp only [appendBinlogRecords, some_records, Bool.false_eq_true, if_false, measured]
  rcases call_outcome id binlog faults with ⟨allowed, allocated⟩ | ⟨refusal, error, refused⟩
  · simp only [allocated, framed, allowed, Bool.true_and, id_eq, appendBinlogTail]
    rcases seekEnd_outcome opened faults.tail with ⟨passed, sought⟩ | ⟨stopped, error, failed⟩
    · simp only [sought, passed, Bool.true_and]
      rw [show faults.drop 2 = faults.tail.tail by rw [← List.drop_one, ← List.drop_one, List.drop_drop]]
      exact @appendAtEnd_keepsHistory_iff tail fsyncPolicy { binlog with file := some binlog.active.length }
        ⟨present.trans (congrArg some active.symm), rfl⟩ (active.trans empty) wellNamed some_segments faults.tail.tail
    · simp only [failed, stopped, Bool.false_and, iff_true]
      exact fun _ => ⟨rfl, rfl⟩
  · simp only [refused, refusal, Bool.false_and, iff_true]
    exact fun _ => ⟨rfl, rfl⟩

/-- An append keeps the durable history under every pattern of faults exactly when its rollback
cannot mistake the empty active file for a reset: the active file is not empty, or there is no
segment to lose, or the rollback stops at a malformed segment name or at a closed handle. -/
theorem appendBinlogRecords_keepsHistory_iff (binlog : ManagedBinlogFile) (before tail : Bytes)
    (records : List (Nat × Bytes)) (size : Nat) (fsyncPolicy : FsyncPolicy)
    (present : binlog.directory.binlog = some before) (nonempty : records ≠ [])
    (measured : encodedLength records = .ok size) (framed : encodedTail records = .ok tail) :
    (∀ faults, KeepsHistory binlog.directory tail
        (appendBinlogRecords records fsyncPolicy ⟨binlog, faults⟩)) ↔
      before ≠ [] ∨ binlog.directory.segments.entries = [] ∨
        binlog.directory.malformedSegments ≠ [] ∨ binlog.file = none := by
  constructor
  · intro keeps
    have long : 1 < tail.length := by
      obtain ⟨record, others, rfl⟩ := List.exists_cons_of_ne_nil nonempty
      rw [((encodedTail_eq_ok_iff _ _).mp framed).2, List.flatMap_cons, List.length_append,
        framedRecord_length]
      omega
    have kept := (appendBinlogRecords_keepsHistory_of_faults binlog before tail records size fsyncPolicy
      noSpace present nonempty measured framed).mp (keeps noSpace)
    rw [rolledBack_noSpace _ _ long] at kept
    tauto
  · intro safe faults
    refine (appendBinlogRecords_keepsHistory_of_faults binlog before tail records size fsyncPolicy
      faults present nonempty measured framed).mpr ?_
    tauto

theorem encodedTail_deletePayload : encodedTail [(2, deletePayload)] =
    .ok (framedRecord 2 deletePayload) := by
  rw [encodedTail_eq_ok_iff]
  refine ⟨?_, by simp⟩
  intro record member
  rw [List.mem_singleton.mp member]
  exact ⟨by decide, by decide⟩

/-- The history right after a seal: one record in a segment, and an empty active file. -/
def sealedHistory : ManagedBinlogFile where
  file := some 0
  directory :=
    { binlog := some [], segments := Catalog.empty.insert 1 (framedRecord 1 deletePayload) }

/-- The same record while it is still in the active file. -/
def unsealedHistory : ManagedBinlogFile where
  file := some 34
  directory := { binlog := some (framedRecord 1 deletePayload) }

end Records

theorem appendBinlogRecords_keeps_unsealedHistory :
    letI := Reference.platform (fun _ => .error "unsupported")
    KeepsHistory unsealedHistory.directory (framedRecord 2 deletePayload)
      (appendBinlogRecords [(2, deletePayload)] .always
        ⟨unsealedHistory, [.succeed, .succeed, .short 1, .fail "No space left on device"]⟩) := by
  let _ := Reference.platform (fun _ => .error "unsupported")
  exact (appendBinlogRecords_keepsHistory_iff unsealedHistory (framedRecord 1 deletePayload)
    (framedRecord 2 deletePayload) [(2, deletePayload)] 34 .always rfl (by decide)
    encodedLength_deletePayload encodedTail_deletePayload).mpr (Or.inl (by decide)) _

theorem appendBinlogRecords_discards_sealedHistory :
    letI := Reference.platform (fun _ => .error "unsupported")
    ¬ KeepsHistory sealedHistory.directory (framedRecord 2 deletePayload)
      (appendBinlogRecords [(2, deletePayload)] .always
        ⟨sealedHistory, [.succeed, .succeed, .short 1, .fail "No space left on device"]⟩) := by
  let _ := Reference.platform (fun _ => .error "unsupported")
  intro keeps
  have safe := (appendBinlogRecords_keepsHistory_of_faults sealedHistory [] (framedRecord 2 deletePayload)
    [(2, deletePayload)] 34 .always noSpace rfl (by decide) encodedLength_deletePayload
    encodedTail_deletePayload).mp keeps
  rw [rolledBack_noSpace _ _ (by rw [framedRecord_length]; decide)] at safe
  revert safe
  decide

end OnyxDB.Persistence.AppendContract
