import OnyxDB.Persistence.AppendContract
import OnyxDB.Persistence.BatchSize

/-! The append of a group of batches through the handle of the binlog. Storage whose calls all succeed stores a group
exactly when its batches are accepted and its bytes can be counted. -/

namespace OnyxDB.Persistence.BinlogFile
open OnyxDB.Engine OnyxDB.Engine.Value OnyxDB.Persistence OnyxDB.Persistence.Model OnyxDB.Persistence.Record
  OnyxDB.Persistence.Codec OnyxDB.Persistence.AppendContract

def StorageFailure.intoPersistenceError (failure : StorageFailure) : PersistenceError :=
  match failure.disposition with
  | .rejected => .new failure.message
  | .indeterminate => { message := failure.message, indeterminate := true }

def addPhysicalBytes (total : Nat) (record : Nat × Bytes) : Except PersistenceError Nat := do
  let recordLength ← framedVersionedBinlogRecordLength record.2.length
  if total + recordLength < 2 ^ 64 then .ok (total + recordLength)
  else .error (.new "Binlog append group length overflow")

/-- The physical size of a group, as the handle counts it. -/
def physicalBytes (records : List (Nat × Bytes)) : Except PersistenceError Nat := records.foldlM addPhysicalBytes 0

section Counting
variable {α ε : Type} {count : Nat → α → Except ε Nat} (fits : α → Prop) (size : α → Nat)

/-- A checked sum comes out exactly when every item fits and the sum does. -/
theorem checkedSum_ok
    (step : ∀ total item result, count total item = .ok result ↔
      fits item ∧ total + size item < 2 ^ 64 ∧ result = total + size item)
    (items : List α) {total : Nat} (start : total < 2 ^ 64) (result : Nat) :
    items.foldlM count total = .ok result ↔
      (∀ item ∈ items, fits item) ∧ total + (items.map size).sum < 2 ^ 64 ∧
        result = total + (items.map size).sum := by
  induction items generalizing total with
  | nil =>
      rw [List.foldlM_nil, List.map_nil, List.sum_nil, Nat.add_zero]
      constructor
      · intro same
        cases same
        exact ⟨fun _ member => absurd member List.not_mem_nil, start, rfl⟩
      · rintro ⟨_, _, rfl⟩
        rfl
  | cons item items rest =>
      rw [List.foldlM_cons, List.map_cons, List.sum_cons, List.forall_mem_cons]
      cases counted : count total item with
      | error failure =>
          constructor
          · intro impossible
            cases impossible
          · rintro ⟨⟨fit, _⟩, small, _⟩
            rw [(step total item _).mpr ⟨fit, by omega, rfl⟩] at counted
            cases counted
      | ok middle =>
          obtain ⟨fit, small, rfl⟩ := (step total item middle).mp counted
          rw [← Nat.add_assoc, and_iff_right fit]
          exact rest small

end Counting

theorem framedLength_ok {length framed : Nat} : framedVersionedBinlogRecordLength length = .ok framed ↔
    20 + length ≤ maxBinlogRecordSize ∧ framed = 24 + length := by
  constructor
  · intro accepted
    obtain ⟨recordLength, measured, same⟩ := bind_ok accepted
    obtain ⟨_, bounded, rfl⟩ := versionedBinlogRecordLength_ok measured
    cases same
    refine ⟨bounded, ?_⟩
    rw [binlogRecordLengthSize]
    omega
  · rintro ⟨bounded, rfl⟩
    rw [framedVersionedBinlogRecordLength, versionedBinlogRecordLength_eq Nat.one_ne_zero bounded]
    have sum : 20 + length + binlogRecordLengthSize = 24 + length := by
      rw [binlogRecordLengthSize]
      omega
    exact congrArg Except.ok sum

/-- A record is within its limit. -/
def RecordFits (record : Nat × Bytes) : Prop := 20 + record.2.length ≤ maxBinlogRecordSize

def framedSize (record : Nat × Bytes) : Nat := 24 + record.2.length

/-- The records of a group are within their limit, and their bytes can be counted. -/
structure GroupFits (records : List (Nat × Bytes)) : Prop where
  each : ∀ record ∈ records, RecordFits record
  together : (records.map framedSize).sum < 2 ^ 64

theorem addPhysicalBytes_ok (total : Nat) (record : Nat × Bytes) (result : Nat) :
    addPhysicalBytes total record = .ok result ↔
      RecordFits record ∧ total + framedSize record < 2 ^ 64 ∧ result = total + framedSize record := by
  constructor
  · intro accepted
    obtain ⟨framed, measured, accepted⟩ := bind_ok accepted
    obtain ⟨bounded, rfl⟩ := framedLength_ok.mp measured
    split at accepted
    next small =>
      cases accepted
      exact ⟨bounded, small, rfl⟩
    · cases accepted
  · rintro ⟨bounded, small, rfl⟩
    rw [addPhysicalBytes, framedLength_ok.mpr ⟨bounded, rfl⟩]
    exact if_pos small

theorem physicalBytes_ok (records : List (Nat × Bytes)) :
    (∃ bytes, physicalBytes records = .ok bytes) ↔ GroupFits records := by
  have counted := checkedSum_ok RecordFits framedSize addPhysicalBytes_ok records (Nat.two_pow_pos 64)
  simp only [Nat.zero_add] at counted
  constructor
  · rintro ⟨bytes, accepted⟩
    obtain ⟨each, together, _⟩ := (counted bytes).mp accepted
    exact ⟨each, together⟩
  · intro fit
    exact ⟨_, (counted _).mpr ⟨fit.each, fit.together, rfl⟩⟩

/-- The worker counts as the handle does. -/
theorem encodedLength_ok {records : List (Nat × Bytes)} (fit : GroupFits records) :
    ∃ bytes, encodedLength records = .ok bytes := by
  have small : 0 + (records.map framedSize).sum < 2 ^ 64 := (Nat.zero_add _).symm ▸ fit.together
  refine ⟨_, (checkedSum_ok RecordFits framedSize ?_ records (Nat.two_pow_pos 64) _).mpr ⟨fit.each, small, rfl⟩⟩
  intro total record result
  cases measured : framedVersionedBinlogRecordLength record.2.length with
  | error error =>
      constructor
      · intro impossible
        cases impossible
      · rintro ⟨bounded, _⟩
        rw [framedLength_ok.mpr ⟨bounded, rfl⟩] at measured
        cases measured
  | ok framed =>
      obtain ⟨bounded, rfl⟩ := framedLength_ok.mp measured
      simp only
      split
      next small =>
        constructor
        · intro same
          cases same
          exact ⟨bounded, small, rfl⟩
        · rintro ⟨_, _, rfl⟩
          rfl
      next large =>
        constructor
        · intro impossible
          cases impossible
        · rintro ⟨_, small, _⟩
          exact absurd small large

variable [Platform]

def encodeBatches (batches : List (Nat × CommittedBatch)) : Except PersistenceError (List (Nat × Bytes)) :=
  batches.mapM (fun entry => (encodeCommittedBatch entry.2).map (fun payload => (entry.1, payload)))

/-- `append_records` of the handle, with the worker at its other end. -/
def appendRecords (records : List (Nat × Bytes)) (fsyncPolicy : FsyncPolicy) (device : Device) :
    Except PersistenceError Nat × Device :=
  match physicalBytes records with
  | .error error => (.error error, device)
  | .ok bytes =>
      match appendBinlogRecords records fsyncPolicy device with
      | (.ok (), device) => (.ok bytes, device)
      | (.error failure, device) => (.error failure.intoPersistenceError, device)

def appendBatches (batches : List (Nat × CommittedBatch)) (fsyncPolicy : FsyncPolicy) (device : Device) :
    Except PersistenceError Nat × Device :=
  if batches.isEmpty then
    (.error (.new "A binlog append group must contain at least one committed batch"), device)
  else
    match encodeBatches batches with
    | .error error => (.error error, device)
    | .ok records => appendRecords records fsyncPolicy device

section Faultless

omit [Platform] in
theorem seekEnd_faultless {binlog : ManagedBinlogFile} (opened : binlog.file ≠ none) :
    seekEnd ⟨binlog, []⟩ =
      .ok binlog.active.length ⟨{ binlog with file := some binlog.active.length }, []⟩ := by
  obtain ⟨cursor, handle⟩ := Option.ne_none_iff_exists'.mp opened
  simp only [seekEnd, bind, EStateM.bind, fileMut, handle, call_without_faults]
  rfl

omit [Platform] in
theorem settle_faultless (fsyncPolicy : FsyncPolicy) {binlog : ManagedBinlogFile} (opened : binlog.file ≠ none) :
    settle fsyncPolicy ⟨binlog, []⟩ = .ok () ⟨binlog, []⟩ := by
  obtain ⟨cursor, handle⟩ := Option.ne_none_iff_exists'.mp opened
  have flushed : flush ⟨binlog, []⟩ = .ok () ⟨binlog, []⟩ := by
    simp only [flush, bind, EStateM.bind, fileMut, handle, call_without_faults, id_eq]
  have synced : syncData ⟨binlog, []⟩ = .ok () ⟨binlog, []⟩ := flushed
  simp only [settle, bind, EStateM.bind, flushed]
  split
  · exact synced
  · rfl

omit [Platform] in
/-- A write that nothing disturbs stores the whole buffer at once. -/
theorem writeAll_faultless (buffer : Bytes) (binlog : ManagedBinlogFile) (atEnd : AtEnd binlog) :
    ∃ modified, writeAllTrackingModification 2 buffer false ⟨binlog, []⟩ =
      ((.ok (), modified), ⟨extended binlog buffer, []⟩) := by
  have whole : stores buffer.length [] = (true, buffer.length, []) := by cases buffer <;> rfl
  obtain ⟨result, complete, wrote⟩ := writeAll_stores 2 buffer false [] atEnd le_rfl
  obtain rfl := complete.mpr (by rw [whole])
  rw [whole, List.take_length] at wrote
  exact ⟨_, wrote⟩

omit [Platform] in
theorem appendBinlogTail_faultless (tail : Bytes) (fsyncPolicy : FsyncPolicy) {binlog : ManagedBinlogFile}
    (opened : binlog.file ≠ none) (present : binlog.directory.binlog = some binlog.active) :
    ∃ after, appendBinlogTail tail fsyncPolicy ⟨binlog, []⟩ = (.ok (), after) := by
  obtain ⟨modified, wrote⟩ :=
    writeAll_faultless tail { binlog with file := some binlog.active.length } ⟨present, rfl⟩
  have settled := @settle_faultless fsyncPolicy (extended { binlog with file := some binlog.active.length } tail)
    (Option.some_ne_none _)
  refine ⟨⟨extended { binlog with file := some binlog.active.length } tail, []⟩, ?_⟩
  rw [appendBinlogTail, seekEnd_faultless opened]
  simp only [appendAtEnd, List.length_nil, Nat.zero_add, wrote, writeResult, settled, appendResult]

variable {batches : List (Nat × CommittedBatch)}

/-- Every batch of a group is accepted, and the bytes of the group can be counted. -/
structure StorableGroup (batches : List (Nat × CommittedBatch)) : Prop where
  accepted : ∀ entry ∈ batches, Accepted entry.2
  together : (batches.map (fun entry => 24 + batchSize entry.2)).sum < 2 ^ 64

theorem encodeBatches_ok {records : List (Nat × Bytes)} :
    encodeBatches batches = .ok records ↔
      (∀ entry ∈ batches, entry.2.effects ≠ [] ∧ batchSize entry.2 ≤ maxBinlogRecordSize) ∧
        records = batches.map (fun entry => (entry.1, writtenBatch entry.2)) := by
  unfold encodeBatches
  induction batches generalizing records with
  | nil =>
      rw [List.mapM_nil, List.map_nil]
      constructor
      · intro same
        cases same
        exact ⟨fun _ member => absurd member List.not_mem_nil, rfl⟩
      · rintro ⟨_, rfl⟩
        rfl
  | cons entry batches rest =>
      rw [List.mapM_cons, List.map_cons, List.forall_mem_cons]
      constructor
      · intro accepted
        obtain ⟨first, mapped, accepted⟩ := bind_ok accepted
        obtain ⟨others, later, accepted⟩ := bind_ok accepted
        obtain ⟨each, rfl⟩ := rest.mp later
        cases encoded : encodeCommittedBatch entry.2 with
        | error error =>
            rw [encoded] at mapped
            cases mapped
        | ok payload =>
            obtain ⟨fits, rfl⟩ := encodeCommittedBatch_ok.mp encoded
            rw [encoded] at mapped
            cases mapped
            cases accepted
            exact ⟨⟨fits, each⟩, rfl⟩
      · rintro ⟨⟨fits, each⟩, rfl⟩
        rw [encodeCommittedBatch_ok.mpr ⟨fits, rfl⟩, rest.mpr ⟨each, rfl⟩]
        rfl

theorem groupFits_written : GroupFits (batches.map (fun entry => (entry.1, writtenBatch entry.2))) ↔
    (∀ entry ∈ batches, 20 + batchSize entry.2 ≤ maxBinlogRecordSize) ∧
      (batches.map (fun entry => 24 + batchSize entry.2)).sum < 2 ^ 64 := by
  have sizes : (batches.map (fun entry => (entry.1, writtenBatch entry.2))).map framedSize =
      batches.map (fun entry => 24 + batchSize entry.2) := by
    rw [List.map_map]
    apply List.map_congr_left
    intro entry _
    simp only [Function.comp, framedSize, writtenBatch_length]
  constructor
  · rintro ⟨each, together⟩
    rw [sizes] at together
    refine ⟨?_, together⟩
    intro entry member
    have fits := each _ (List.mem_map_of_mem member)
    rwa [RecordFits, writtenBatch_length] at fits
  · rintro ⟨each, together⟩
    refine ⟨?_, sizes ▸ together⟩
    intro record member
    obtain ⟨entry, listed, rfl⟩ := List.mem_map.mp member
    rw [RecordFits, writtenBatch_length]
    exact each entry listed

/-- An append over storage whose calls all succeed fails for nothing but the size of the batches. -/
theorem appendBatches_faultless (fsyncPolicy : FsyncPolicy) {binlog : ManagedBinlogFile}
    (opened : binlog.file ≠ none) (present : binlog.directory.binlog = some binlog.active)
    (filled : batches ≠ []) (positive : ∀ entry ∈ batches, entry.1 ≠ 0) :
    (∃ bytes, (appendBatches batches fsyncPolicy ⟨binlog, []⟩).1 = .ok bytes) ↔ StorableGroup batches := by
  have some_batches : batches.isEmpty = false := by
    rw [List.isEmpty_eq_false_iff]
    exact filled
  unfold appendBatches
  rw [some_batches, if_neg (by simp)]
  constructor
  · rintro ⟨bytes, appended⟩
    cases encoded : encodeBatches batches with
    | error error =>
        rw [encoded] at appended
        cases appended
    | ok records =>
        obtain ⟨fits, rfl⟩ := encodeBatches_ok.mp encoded
        rw [encoded] at appended
        simp only [appendRecords] at appended
        cases counted : physicalBytes (batches.map (fun entry => (entry.1, writtenBatch entry.2))) with
        | error error =>
            rw [counted] at appended
            cases appended
        | ok bytes =>
            obtain ⟨each, together⟩ := groupFits_written.mp ((physicalBytes_ok _).mp ⟨bytes, counted⟩)
            refine ⟨?_, together⟩
            intro entry member
            exact (accepted_iff entry.2).mpr ⟨(fits entry member).1, each entry member⟩
  · rintro ⟨accepted, together⟩
    have each : ∀ entry ∈ batches, entry.2.effects ≠ [] ∧ 20 + batchSize entry.2 ≤ maxBinlogRecordSize :=
      fun entry member => (accepted_iff entry.2).mp (accepted entry member)
    have encoded := (@encodeBatches_ok _ batches _).mpr
      ⟨fun entry member => ⟨(each entry member).1, (Nat.le_add_left _ _).trans (each entry member).2⟩, rfl⟩
    have fits := groupFits_written.mpr ⟨fun entry member => (each entry member).2, together⟩
    obtain ⟨bytes, counted⟩ := (physicalBytes_ok _).mpr fits
    obtain ⟨length, measured⟩ := encodedLength_ok fits
    have framed := (encodedTail_eq_ok_iff (batches.map (fun entry => (entry.1, writtenBatch entry.2))) _).mpr
      ⟨?_, rfl⟩
    · obtain ⟨after, appended⟩ := appendBinlogTail_faultless
        ((batches.map (fun entry => (entry.1, writtenBatch entry.2))).flatMap
          (fun record => framedRecord record.1 record.2)) fsyncPolicy opened present
      have some_records : (batches.map (fun entry => (entry.1, writtenBatch entry.2))).isEmpty = false := by
        rw [List.isEmpty_map, some_batches]
      refine ⟨bytes, ?_⟩
      simp only [encoded, appendRecords, counted, appendBinlogRecords, some_records, Bool.false_eq_true, if_false,
        measured, call_without_faults, id_eq, framed, appended]
    · intro record member
      obtain ⟨entry, listed, rfl⟩ := List.mem_map.mp member
      exact ⟨positive entry listed, fits.each _ member⟩

end Faultless

end OnyxDB.Persistence.BinlogFile
