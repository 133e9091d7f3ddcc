import OnyxDB.Maintenance.Tasks

/-! The ledger of the maintenance counters and the files they count.

Every call of the runtime that touches a counter or a file makes one kind of entry in the ledger. An
entry keeps the ledger sound: the counters describe the files. -/

namespace OnyxDB.Maintenance
open OnyxDB.Library.Tasks OnyxDB.Persistence

structure Ledger where
  writeCount : Nat
  activeBinlogBytes : Nat
  unsnapshottedSegmentCount : Nat
  physicalSegmentCount : Nat
  snapshotWatermark : Nat
  sequence : Nat
  disk : Disk

def CommitRuntime.ledger (runtime : CommitRuntime) : Ledger where
  writeCount := runtime.writeCount
  activeBinlogBytes := runtime.activeBinlogBytes
  unsnapshottedSegmentCount := runtime.unsnapshottedSegmentCount
  physicalSegmentCount := runtime.physicalSegmentCount
  snapshotWatermark := runtime.snapshotWatermark
  sequence := runtime.sequence
  disk := runtime.disk

/-- The segments that end after one sequence and not after another one. -/
def segmentsWithin (low high : Nat) (segments : List Segment) : List Segment :=
  segments.filter (fun segment => decide (low < segment.endSequence) && decide (segment.endSequence ≤ high))

def segmentsAfter (watermark : Nat) (segments : List Segment) : List Segment :=
  segments.filter (fun segment => decide (watermark < segment.endSequence))

/-- The counters describe the disk. -/
structure Ledger.Describes (ledger : Ledger) : Prop where
  writes : ledger.snapshotWatermark ≤ ledger.sequence ∧
    ledger.writeCount = ledger.sequence - ledger.snapshotWatermark
  bytes : ledger.activeBinlogBytes = fileLength ledger.disk.active
  physical : ledger.physicalSegmentCount = ledger.disk.segments.length
  unsnapshotted : ledger.unsnapshottedSegmentCount =
    (segmentsAfter ledger.snapshotWatermark ledger.disk.segments).length

def Segment.wellFormed (segment : Segment) : Bool := inspectBinlog segment.records && segment.matchesIdentity

/-- The counters describe the disk, and the files are what the runtime left there. -/
structure Ledger.Sound (ledger : Ledger) : Prop extends Ledger.Describes ledger where
  installed : ledger.disk.snapshotWatermark ≤ ledger.sequence
  named : ∀ segment ∈ ledger.disk.segments, segment.wellFormed = true ∧ segment.endSequence ≤ ledger.sequence
  contiguous : inspectBinlog ledger.disk.active = true
  last : ledger.disk.active ≠ [] → maxSequence ledger.disk.active = ledger.sequence
  room : ledger.disk.segments.length ≤ maxBinlogSegments

/-- What a capture remembers is the part of the ledger that its snapshot covers. -/
structure Ledger.Covers (ledger : Ledger) (capture : Capture) : Prop where
  low : ledger.snapshotWatermark ≤ capture.watermark
  high : capture.watermark ≤ ledger.sequence
  writes : capture.compactedWriteCount = capture.watermark - ledger.snapshotWatermark
  segments : capture.compactedSegmentCount =
    (segmentsWithin ledger.snapshotWatermark capture.watermark ledger.disk.segments).length

section Files

theorem maxSequence_append {records more : List LogRecord} (present : more ≠ []) :
    maxSequence (records ++ more) = maxSequence more := by
  unfold maxSequence
  rw [List.getLast?_append_of_ne_nil _ present]

theorem fileLength_append (records more : List LogRecord) :
    fileLength (records ++ more) = fileLength records + fileLength more := by
  unfold fileLength
  rw [List.map_append, List.sum_append]

theorem fileLength_eq_zero {records : List LogRecord} : fileLength records = 0 ↔ records = [] := by
  constructor
  · intro empty
    cases records with
    | nil => rfl
    | cons record rest =>
        have positive := record.framed
        simp only [fileLength, List.map_cons, List.sum_cons] at empty
        omega
  · intro empty
    rw [empty]
    rfl

theorem maxSequence_consecutive : ∀ {records : List LogRecord} {expected : Nat}, records ≠ [] →
    CommitRuntime.consecutive expected records = true →
    maxSequence records + 1 = expected + records.length ∧ maxSequence records ≤ u64Max ∧
      inspectBinlog records = true ∧ records.head?.map (·.sequence) = some expected
  | [], _, present, _ => absurd rfl present
  | [record], expected, _, next => by
      simp only [CommitRuntime.consecutive, Bool.and_true, Bool.and_eq_true, decide_eq_true_eq] at next
      obtain ⟨bound, rfl⟩ := next
      refine ⟨rfl, bound, rfl, rfl⟩
  | record :: second :: rest, expected, _, next => by
      rw [CommitRuntime.consecutive, Bool.and_eq_true, Bool.and_eq_true, decide_eq_true_eq,
        decide_eq_true_eq] at next
      obtain ⟨⟨_, here⟩, later⟩ := next
      obtain ⟨total, bound, gapless, first⟩ := maxSequence_consecutive (by simp) later
      have tail : maxSequence (record :: second :: rest) = maxSequence (second :: rest) :=
        @maxSequence_append [record] _ (by simp)
      simp only [List.head?_cons, Option.map_some, Option.some.injEq] at first
      refine ⟨?_, ?_, ?_, ?_⟩
      · rw [tail, total]
        simp only [List.length_cons]
        omega
      · rw [tail]
        exact bound
      · simp only [inspectBinlog, gapless, Bool.and_true, decide_eq_true_eq]
        omega
      · simp [here]

theorem inspectBinlog_append : ∀ {records more : List LogRecord} {expected : Nat},
    inspectBinlog records = true → inspectBinlog more = true →
    (records ≠ [] → maxSequence records + 1 = expected) → more.head?.map (·.sequence) = some expected →
    inspectBinlog (records ++ more) = true
  | [], more, _, _, gapless, _, _ => gapless
  | [record], [], _, _, _, _, first => nomatch first
  | [record], next :: more, expected, _, gapless, meets, first => by
      have meets := meets (by simp)
      simp only [List.head?_cons, Option.map_some, Option.some.injEq] at first
      simp only [maxSequence, List.getLast?_singleton, Option.map_some, Option.getD_some] at meets
      simp only [List.cons_append, List.nil_append, inspectBinlog, gapless, Bool.and_true, decide_eq_true_eq]
      omega
  | record :: second :: rest, more, expected, inner, gapless, meets, first => by
      simp only [inspectBinlog, Bool.and_eq_true, decide_eq_true_eq] at inner
      have tail : maxSequence (record :: second :: rest) = maxSequence (second :: rest) :=
        @maxSequence_append [record] _ (by simp)
      have later := inspectBinlog_append inner.2 gapless (fun _ => by rw [← tail]; exact meets (by simp)) first
      simp only [List.cons_append] at later
      simp only [List.cons_append, inspectBinlog, later, inner.1, decide_true, Bool.and_self]

theorem segmentsAfter_append (watermark : Nat) (segments more : List Segment) :
    segmentsAfter watermark (segments ++ more) =
      segmentsAfter watermark segments ++ segmentsAfter watermark more := List.filter_append ..

theorem segmentsWithin_append (low high : Nat) (segments more : List Segment) :
    segmentsWithin low high (segments ++ more) =
      segmentsWithin low high segments ++ segmentsWithin low high more := List.filter_append ..

/-- A later watermark leaves the segments that do not end within the two. -/
theorem segmentsAfter_length {low high : Nat} (ordered : low ≤ high) (segments : List Segment) :
    (segmentsAfter low segments).length =
      (segmentsWithin low high segments).length + (segmentsAfter high segments).length := by
  induction segments with
  | nil => rfl
  | cons segment rest ih =>
      simp only [segmentsAfter, segmentsWithin] at ih ⊢
      simp only [List.filter_cons]
      by_cases after : low < segment.endSequence
      · by_cases within : segment.endSequence ≤ high
        · have before : ¬ high < segment.endSequence := by omega
          simp only [after, within, before, decide_true, decide_false, Bool.and_self, if_true,
            Bool.false_eq_true, if_false, List.length_cons, ih]
          omega
        · have beyond : high < segment.endSequence := by omega
          simp only [after, within, beyond, decide_true, decide_false, Bool.and_false, if_true,
            Bool.false_eq_true, if_false, List.length_cons, ih]
          omega
      · have before : ¬ high < segment.endSequence := by omega
        simp only [after, before, decide_false, Bool.false_and, Bool.false_eq_true, if_false, ih]

/-- Where every segment ends by a sequence, those after a watermark are those within the two. -/
theorem segmentsWithin_of_named {low high : Nat} {segments : List Segment}
    (named : ∀ segment ∈ segments, segment.endSequence ≤ high) :
    segmentsWithin low high segments = segmentsAfter low segments := by
  unfold segmentsWithin segmentsAfter
  apply List.filter_congr
  intro segment member
  simp [named segment member]

theorem removeCovered_wellFormed (watermark : Nat) (fails : Nat → Bool) {segments : List Segment}
    (named : ∀ segment ∈ segments, segment.wellFormed = true) :
    removeCovered watermark fails segments =
      (segments.filter (fun segment =>
        decide (watermark < segment.endSequence) || fails segment.endSequence), true) := by
  induction segments with
  | nil => rfl
  | cons segment rest ih =>
      have here : (inspectBinlog segment.records && segment.matchesIdentity) = true :=
        named segment (List.mem_cons_self ..)
      have later := ih (fun other member => named other (List.mem_cons_of_mem _ member))
      simp only [removeCovered, later, here, if_true, List.filter_cons]
      by_cases after : watermark < segment.endSequence
      · simp [after]
      · cases fails segment.endSequence <;> simp [after]

/-- Removing segments a watermark covers changes no count of those after it. -/
theorem segmentsWithin_filter {low watermark high : Nat} (ordered : watermark ≤ low) (fails : Nat → Bool)
    (segments : List Segment) :
    segmentsWithin low high (segments.filter (fun segment =>
      decide (watermark < segment.endSequence) || fails segment.endSequence)) =
    segmentsWithin low high segments := by
  unfold segmentsWithin
  rw [List.filter_filter]
  apply List.filter_congr
  intro segment _
  by_cases after : low < segment.endSequence
  · have beyond : watermark < segment.endSequence := by omega
    simp [after, beyond]
  · simp [after]

theorem segmentsAfter_filter (watermark : Nat) (fails : Nat → Bool) (segments : List Segment) :
    segmentsAfter watermark (segments.filter (fun segment =>
      decide (watermark < segment.endSequence) || fails segment.endSequence)) =
    segmentsAfter watermark segments := by
  unfold segmentsAfter
  rw [List.filter_filter]
  apply List.filter_congr
  intro segment _
  by_cases after : watermark < segment.endSequence <;> simp [after]

end Files

section Entries

/-- A group of records is accepted. -/
def Ledger.accepted (ledger : Ledger) (records : List LogRecord) : Ledger :=
  { ledger with
    disk := { ledger.disk with active := ledger.disk.active ++ records }
    activeBinlogBytes := ledger.activeBinlogBytes + fileLength records
    sequence := maxSequence records
    writeCount := ledger.writeCount + records.length }

/-- The segments that the watermark covers are removed, but for those whose removal fails. -/
def Ledger.cleaned (ledger : Ledger) (fails : Nat → Bool) : Ledger :=
  let kept := ledger.disk.segments.filter (fun segment =>
    decide (ledger.snapshotWatermark < segment.endSequence) || fails segment.endSequence)
  { ledger with
    disk := { ledger.disk with segments := kept }
    physicalSegmentCount := kept.length }

/-- The active file becomes the segment that ends at the current sequence. -/
def Ledger.rotated (ledger : Ledger) : Ledger :=
  { ledger with
    disk := { ledger.disk with
      segments := ledger.disk.segments ++ [⟨ledger.sequence, ledger.disk.active⟩]
      active := [] }
    activeBinlogBytes := 0
    physicalSegmentCount := ledger.physicalSegmentCount + 1
    unsnapshottedSegmentCount := ledger.unsnapshottedSegmentCount + 1 }

/-- The snapshot of a capture takes the place of what it covers. -/
def Ledger.finalized (ledger : Ledger) (capture : Capture) : Ledger :=
  { ledger with
    snapshotWatermark := capture.watermark
    writeCount := ledger.writeCount - capture.compactedWriteCount
    unsnapshottedSegmentCount := ledger.unsnapshottedSegmentCount - capture.compactedSegmentCount }

def Ledger.snapshotted (ledger : Ledger) (watermark : Nat) : Ledger :=
  { ledger with disk := { ledger.disk with snapshotWatermark := watermark } }

def Ledger.truncated (ledger : Ledger) : Ledger := { ledger with disk := truncateBinlog ledger.disk }

def Ledger.baseline (ledger : Ledger) (sequence : Nat) : Ledger :=
  { ledger with
    sequence := sequence
    writeCount := 0
    activeBinlogBytes := 0
    unsnapshottedSegmentCount := 0
    physicalSegmentCount := 0
    snapshotWatermark := sequence }

variable {ledger : Ledger}

theorem Ledger.Sound.accepted (sound : ledger.Sound) {records : List LogRecord} (present : records ≠ [])
    (next : CommitRuntime.consecutive (ledger.sequence + 1) records = true) :
    (ledger.accepted records).Sound := by
  obtain ⟨total, _, gapless, first⟩ := maxSequence_consecutive present next
  have later : maxSequence records = ledger.sequence + records.length := by omega
  constructor
  · constructor
    · have writes := sound.writes
      simp only [Ledger.accepted, later]
      omega
    · simp only [Ledger.accepted, fileLength_append, sound.bytes]
    · exact sound.physical
    · exact sound.unsnapshotted
  · have installed := sound.installed
    simp only [Ledger.accepted, later]
    omega
  · intro segment member
    have named := sound.named segment member
    refine ⟨named.1, ?_⟩
    simp only [Ledger.accepted, later]
    omega
  · apply inspectBinlog_append sound.contiguous gapless _ first
    intro active
    rw [sound.last active]
  · intro _
    exact maxSequence_append present
  · exact sound.room

theorem Ledger.Sound.cleaned (sound : ledger.Sound) (fails : Nat → Bool) : (ledger.cleaned fails).Sound := by
  constructor
  · constructor
    · exact sound.writes
    · exact sound.bytes
    · rfl
    · simp only [Ledger.cleaned, segmentsAfter_filter, sound.unsnapshotted]
  · exact sound.installed
  · intro segment member
    exact sound.named segment (List.mem_of_mem_filter member)
  · exact sound.contiguous
  · exact sound.last
  · exact Nat.le_trans (List.length_filter_le ..) sound.room

theorem Ledger.Sound.rotated (sound : ledger.Sound) (active : ledger.disk.active ≠ [])
    (fresh : ledger.snapshotWatermark < ledger.sequence)
    (room : ledger.physicalSegmentCount < maxBinlogSegments) : ledger.rotated.Sound := by
  have count := sound.physical
  constructor
  · constructor
    · exact sound.writes
    · rfl
    · simp only [Ledger.rotated, List.length_append, List.length_singleton, sound.physical]
    · simp only [Ledger.rotated, segmentsAfter_append, List.length_append, sound.unsnapshotted]
      simp [segmentsAfter, fresh]
  · exact sound.installed
  · intro segment member
    simp only [Ledger.rotated, List.mem_append, List.mem_singleton] at member
    rcases member with old | rfl
    · exact sound.named segment old
    · refine ⟨?_, Nat.le_refl _⟩
      simp [Segment.wellFormed, Segment.matchesIdentity, sound.contiguous, active, sound.last active]
  · rfl
  · intro empty
    exact absurd rfl empty
  · simp only [Ledger.rotated, List.length_append, List.length_singleton]
    omega

theorem Ledger.Sound.covers (sound : ledger.Sound) {capture : Capture}
    (watermark : capture.watermark = ledger.sequence)
    (writes : capture.compactedWriteCount = ledger.writeCount)
    (segments : capture.compactedSegmentCount = ledger.unsnapshottedSegmentCount) : ledger.Covers capture := by
  constructor
  · rw [watermark]
    exact sound.writes.1
  · rw [watermark]
  · rw [writes, watermark, sound.writes.2]
  · rw [segments, watermark, sound.unsnapshotted]
    rw [segmentsWithin_of_named (fun segment member => (sound.named segment member).2)]

theorem Ledger.Sound.finalized (sound : ledger.Sound) {capture : Capture} (covers : ledger.Covers capture) :
    (ledger.finalized capture).Sound := by
  constructor
  · constructor
    · have low := covers.low
      have high := covers.high
      simp only [Ledger.finalized, sound.writes.2, covers.writes]
      omega
    · exact sound.bytes
    · exact sound.physical
    · simp only [Ledger.finalized, sound.unsnapshotted, covers.segments]
      rw [segmentsAfter_length covers.low]
      omega
  · exact sound.installed
  · exact sound.named
  · exact sound.contiguous
  · exact sound.last
  · exact sound.room

theorem Ledger.Sound.snapshotted (sound : ledger.Sound) {watermark : Nat}
    (within : watermark ≤ ledger.sequence) : (ledger.snapshotted watermark).Sound :=
  { sound with installed := within }

end Entries

section Calls
variable {runtime : CommitRuntime}

theorem requestMaintenanceIfNeeded_ledger (threshold : Nat) :
    (runtime.requestMaintenanceIfNeeded threshold).1.ledger = runtime.ledger := by
  obtain ⟨_, _, flags⟩ := runtime.requestMaintenanceIfNeeded_flags threshold
  rw [flags]
  rfl

theorem finishCompactionScheduleAndRearm_ledger (threshold : Nat) (retryImmediately : Bool) :
    (runtime.finishCompactionScheduleAndRearm threshold retryImmediately).1.ledger = runtime.ledger := by
  obtain ⟨_, _, flags⟩ := runtime.finishCompactionScheduleAndRearm_flags threshold retryImmediately
  rw [flags]
  rfl

theorem finishRolloverScheduleAndRearm_ledger (threshold : Nat) (retryImmediately : Bool) :
    (runtime.finishRolloverScheduleAndRearm threshold retryImmediately).1.ledger = runtime.ledger := by
  obtain ⟨_, _, flags⟩ := runtime.finishRolloverScheduleAndRearm_flags threshold retryImmediately
  rw [flags]
  rfl

theorem acceptNextBatches_ledger {records : List LogRecord} {accepted : CommitRuntime}
    (accepting : runtime.acceptNextBatches records = some accepted) :
    records ≠ [] ∧ CommitRuntime.consecutive (runtime.ledger.sequence + 1) records = true ∧
      (runtime.ledger.Sound → accepted.ledger = runtime.ledger.accepted records) := by
  unfold CommitRuntime.acceptNextBatches at accepting
  split at accepting
  · cases accepting
  · rename_i present
    split at accepting
    · rename_i next
      refine ⟨present, next, ?_⟩
      intro sound
      obtain ⟨disk, appended, rfl⟩ := Option.map_eq_some_iff.mp accepting
      unfold appendRecords at appended
      split at appended
      · rename_i fits
        cases appended
        have bytes := sound.bytes
        have writes := sound.writes
        obtain ⟨total, bound, _, _⟩ := maxSequence_consecutive present next
        rw [fileLength_append] at fits
        simp only [CommitRuntime.ledger] at bytes writes
        have count : (runtime.writeCount + records.length) % 2 ^ 64 = runtime.writeCount + records.length := by
          apply Nat.mod_eq_of_lt
          simp only [u64Max] at bound
          omega
        have sum : min (runtime.activeBinlogBytes + fileLength records) u64Max =
            runtime.activeBinlogBytes + fileLength records := by
          apply Nat.min_eq_left
          omega
        simp only [CommitRuntime.ledger, CommitRuntime.recordAcceptedBinlogBytes, Ledger.accepted,
          CommitRuntime.sequence, count, sum]
      · cases appended
    · cases accepting

theorem refreshSegmentCatalog_ledger (fails : Nat → Bool) (sound : runtime.ledger.Sound) :
    (runtime.refreshSegmentCatalog fails false).1.ledger = runtime.ledger.cleaned fails := by
  have named : ∀ segment ∈ runtime.disk.segments, segment.wellFormed = true :=
    fun segment member => (sound.named segment member).1
  simp only [CommitRuntime.refreshSegmentCatalog, cleanupBinlogSegmentsThrough,
    removeCovered_wellFormed _ _ named, Bool.false_eq_true, if_false, if_true]
  rfl

/-- A seal under the boundary leaves an empty file as it is, and counts a segment for any other. -/
theorem sealGeneration_ledger {counted : CommitRuntime} {asserted : Bool}
    (done : sealGeneration runtime = some (counted, asserted)) :
    (runtime.ledger.disk.active = [] ∧ asserted = true ∧
      (runtime.ledger.Sound → counted.ledger = runtime.ledger)) ∨
    (runtime.ledger.disk.active ≠ [] ∧
      (runtime.ledger.physicalSegmentCount < maxBinlogSegments →
        asserted = true ∧ counted.ledger = runtime.ledger.rotated)) := by
  unfold sealGeneration sealActive at done
  by_cases empty : fileLength runtime.disk.active = 0
  · rw [if_pos empty] at done
    cases done
    have none := fileLength_eq_zero.mp empty
    refine .inl ⟨none, rfl, ?_⟩
    intro sound
    have bytes := sound.bytes
    simp only [CommitRuntime.ledger, none] at bytes
    simp only [CommitRuntime.ledger, bytes, CommitRuntime.sequence]
    rfl
  · rw [if_neg empty] at done
    refine .inr ⟨fun none => empty (fileLength_eq_zero.mpr none), ?_⟩
    intro room
    simp only [CommitRuntime.ledger] at room
    split at done
    · rename_i kept
      split at kept
      · cases done
      · split at kept <;> cases done
    · rename_i disk bytes rotated
      split at rotated
      · cases rotated
      · split at rotated
        · cases rotated
        · cases rotated
          simp only [CommitRuntime.recordSealedSegment, if_neg empty, if_pos room, Option.some.injEq,
            Prod.mk.injEq] at done
          obtain ⟨rfl, rfl⟩ := done
          exact ⟨rfl, rfl⟩

theorem activate_ledger {activated : CommitRuntime}
    (activating : runtime.activateCompactionWriteBudget = some activated) : activated.ledger = runtime.ledger := by
  unfold CommitRuntime.activateCompactionWriteBudget at activating
  split at activating
  · rw [← Option.some.inj activating]
    simp only [CommitRuntime.ledger, CommitRuntime.sequence]
  · cases activating

theorem rolloverLimit_le : binlogSegmentRolloverLimit ≤ maxBinlogSegments := by decide

theorem moveSupervisor_ledger {stage : SupervisorStage} {choice : Choice} {after : CommitRuntime}
    {next : Option SupervisorStage} (moved : moveSupervisor runtime stage choice = some (after, next)) :
    after.ledger = runtime.ledger := by
  cases stage with
  | acquiring =>
      cases choice <;> cases moved
      rfl
  | _ =>
      cases choice <;> try cases moved
      simp only [moveSupervisor] at moved
      split at moved <;> cases moved <;> rfl

end Calls

section Recovered

theorem Ledger.Sound.baseline {ledger : Ledger} {sequence : Nat} (segments : ledger.disk.segments = [])
    (active : ledger.disk.active = []) (written : ledger.disk.snapshotWatermark = sequence) :
    (ledger.baseline sequence).Sound := by
  constructor
  · constructor
    · exact ⟨Nat.le_refl _, (Nat.sub_self _).symm⟩
    · simp only [Ledger.baseline, active]
      rfl
    · simp only [Ledger.baseline, segments]
      rfl
    · simp only [Ledger.baseline, segments]
      rfl
  · simp only [Ledger.baseline, written]
    exact Nat.le_refl _
  · intro segment member
    simp only [Ledger.baseline, segments] at member
    cases member
  · simp only [Ledger.baseline, active]
    rfl
  · intro present
    exact absurd active present
  · simp only [Ledger.baseline, segments]
    exact Nat.zero_le _

theorem sequence_le_maxSequence : ∀ {records : List LogRecord}, inspectBinlog records = true →
    ∀ record ∈ records, record.sequence ≤ maxSequence records
  | [], _, _, member => nomatch member
  | [record], _, other, member => by
      rw [List.mem_singleton.mp member]
      exact Nat.le_refl _
  | record :: second :: rest, gapless, other, member => by
      simp only [inspectBinlog, Bool.and_eq_true, decide_eq_true_eq] at gapless
      have tail : maxSequence (record :: second :: rest) = maxSequence (second :: rest) :=
        @maxSequence_append [record] _ (by simp)
      rw [tail]
      rcases List.mem_cons.mp member with rfl | later
      · have next := sequence_le_maxSequence gapless.2 second (List.mem_cons_self ..)
        omega
      · exact sequence_le_maxSequence gapless.2 other later

theorem maxSequence_mem {records : List LogRecord} (present : records ≠ []) :
    ∃ record ∈ records, record.sequence = maxSequence records := by
  refine ⟨records.getLast present, List.getLast_mem present, ?_⟩
  simp [maxSequence, List.getLast?_eq_some_getLast present]

/-- The records that are replayed are numbered from the watermark on. -/
theorem replayRecords_total {watermark : Nat} : ∀ {records : List LogRecord} {replayed total : Nat},
    replayRecords watermark (watermark + 1 + replayed) replayed records = some total →
    replayed ≤ total ∧ (∀ record ∈ records, record.sequence ≤ watermark + total) ∧
      (replayed < total → ∃ record ∈ records, record.sequence = watermark + total)
  | [], replayed, total, done => by
      cases done
      exact ⟨Nat.le_refl _, nofun, fun impossible => absurd impossible (Nat.lt_irrefl _)⟩
  | record :: rest, replayed, total, done => by
      simp only [replayRecords] at done
      split at done
      · rename_i covered
        obtain ⟨grown, bounded, reached⟩ := replayRecords_total done
        refine ⟨grown, ?_, ?_⟩
        · intro other member
          rcases List.mem_cons.mp member with rfl | later
          · omega
          · exact bounded other later
        · intro more
          obtain ⟨last, member, equal⟩ := reached more
          exact ⟨last, List.mem_cons_of_mem _ member, equal⟩
      · split at done
        · rename_i next
          have shifted : watermark + 1 + replayed + 1 = watermark + 1 + (replayed + 1) := by omega
          rw [shifted] at done
          obtain ⟨grown, bounded, reached⟩ := replayRecords_total done
          have here := next.2
          refine ⟨by omega, ?_, ?_⟩
          · intro other member
            rcases List.mem_cons.mp member with rfl | later
            · omega
            · exact bounded other later
          · intro _
            rcases Nat.lt_or_ge (replayed + 1) total with more | only
            · obtain ⟨last, member, equal⟩ := reached more
              exact ⟨last, List.mem_cons_of_mem _ member, equal⟩
            · exact ⟨record, List.mem_cons_self .., by omega⟩
        · cases done

theorem le_foldl_max : ∀ (values : List Nat) (start : Nat),
    start ≤ values.foldl max start ∧ ∀ value ∈ values, value ≤ values.foldl max start
  | [], start => ⟨Nat.le_refl _, fun _ member => nomatch member⟩
  | first :: rest, start => by
      obtain ⟨above, each⟩ := le_foldl_max rest (max start first)
      simp only [List.foldl_cons]
      refine ⟨by omega, ?_⟩
      intro value member
      rcases List.mem_cons.mp member with rfl | later
      · omega
      · exact each value later

theorem foldl_max_le : ∀ {values : List Nat} {start bound : Nat}, start ≤ bound →
    (∀ value ∈ values, value ≤ bound) → values.foldl max start ≤ bound
  | [], _, _, low, _ => low
  | first :: rest, start, bound, low, each => by
      simp only [List.foldl_cons]
      apply foldl_max_le
      · have first := each first (List.mem_cons_self ..)
        omega
      · exact fun value member => each value (List.mem_cons_of_mem _ member)

/-- The number of replayed records is what the history has beyond the snapshot. -/
theorem replayRecords_history {watermark total : Nat} {files : List (List LogRecord)}
    (gapless : files.all inspectBinlog = true)
    (done : replayRecords watermark (watermark + 1) 0 files.flatten = some total) :
    max watermark ((files.map maxSequence).foldl max 0) = watermark + total := by
  obtain ⟨_, bounded, reached⟩ := @replayRecords_total watermark _ 0 total done
  have upper : (files.map maxSequence).foldl max 0 ≤ watermark + total := by
    apply foldl_max_le (Nat.zero_le _)
    intro value member
    obtain ⟨file, inside, rfl⟩ := List.mem_map.mp member
    by_cases empty : file = []
    · rw [empty]
      exact Nat.zero_le _
    · obtain ⟨record, within, equal⟩ := maxSequence_mem empty
      rw [← equal]
      exact bounded record (List.mem_flatten.mpr ⟨file, inside, within⟩)
  rcases Nat.eq_zero_or_pos total with none | some
  · omega
  · obtain ⟨record, member, equal⟩ := reached some
    obtain ⟨file, inside, within⟩ := List.mem_flatten.mp member
    have below := sequence_le_maxSequence (List.all_eq_true.mp gapless file inside) record within
    have counted := (le_foldl_max (files.map maxSequence) 0).2 _ (List.mem_map_of_mem inside)
    omega

/-- The last file with records carries the highest sequence of the directory. -/
def Disk.Ordered (disk : Disk) : Prop :=
  disk.active ≠ [] → disk.snapshotWatermark ≤ maxSequence disk.active ∧
    ∀ segment ∈ disk.segments, segment.endSequence ≤ maxSequence disk.active

/-- The catalog that recovery leaves, counted as recovery counts it. -/
theorem recovered_catalog (watermark : Nat) (fails : Nat → Bool) {segments : List Segment}
    (named : ∀ segment ∈ segments, maxSequence segment.records = segment.endSequence) :
    let covered := fun segment : Segment =>
      decide (maxSequence segment.records ≤ watermark) && !fails segment.endSequence
    segments.length - (segments.filter covered).length = (segments.filter (fun segment => !covered segment)).length ∧
    (segmentsAfter watermark (segments.filter (fun segment => !covered segment))).length =
      (segmentsAfter watermark segments).length := by
  intro covered
  constructor
  · have parts := List.length_eq_length_filter_add (l := segments) covered
    omega
  · unfold segmentsAfter
    rw [List.filter_filter]
    congr 1
    apply List.filter_congr
    intro segment member
    simp only [covered, named segment member]
    by_cases after : watermark < segment.endSequence
    · have beyond : ¬ segment.endSequence ≤ watermark := by omega
      simp [after, beyond]
    · simp [after]

theorem sound_startup {disk recovered : Disk} {fails : Nat → Bool}
    {recovery : Persistence.Recovery.RecoveryState} (ordered : disk.Ordered)
    (loaded : loadDataFromPaths disk fails = some (recovered, recovery)) (totalKeys : Nat) :
    (startup recovered recovery totalKeys).shared.ledger.Sound := by
  simp only [loadDataFromPaths] at loaded
  split at loaded
  · rename_i checked
    obtain ⟨room, gapless, identified, _, _⟩ := checked
    obtain ⟨replayed, done, result⟩ := Option.map_eq_some_iff.mp loaded
    have total := replayRecords_history gapless done
    have members : ∀ segment, segment ∈ disk.segments.insertionSort
        (fun first second => first.endSequence ≤ second.endSequence) ↔ segment ∈ disk.segments :=
      fun segment => List.mem_insertionSort _
    have length := List.length_insertionSort
      (fun (first second : Segment) => first.endSequence ≤ second.endSequence) disk.segments
    generalize disk.segments.insertionSort (fun first second => first.endSequence ≤ second.endSequence) =
      segments at *
    have identity : ∀ segment ∈ segments, maxSequence segment.records = segment.endSequence := by
      intro segment member
      have identity := List.all_eq_true.mp identified segment member
      simp only [Segment.matchesIdentity, Bool.and_eq_true, decide_eq_true_eq] at identity
      exact identity.2
    have highest := (le_foldl_max ((segments.map (·.records) ++ [disk.active]).map maxSequence) 0).2
    obtain ⟨physical, unsnapshotted⟩ := recovered_catalog disk.snapshotWatermark fails identity
    cases result
    simp only [startup, requestMaintenanceIfNeeded_ledger]
    constructor
    · constructor
      · simp only [CommitRuntime.ledger, CommitRuntime.restoreMaintenanceState, CommitRuntime.sequence,
          CommitRuntime.new, total]
        omega
      · rfl
      · exact physical
      · exact unsnapshotted.symm
    · exact Nat.le_max_left ..
    · intro segment member
      have inside := List.mem_of_mem_filter member
      constructor
      · simp only [Segment.wellFormed, List.all_eq_true.mp identified segment inside, Bool.and_true]
        exact List.all_eq_true.mp gapless _ (List.mem_append_left _ (List.mem_map_of_mem inside))
      · apply Nat.le_trans _ (Nat.le_max_right _ _)
        rw [← identity segment inside]
        exact highest _ (List.mem_map_of_mem (List.mem_append_left _ (List.mem_map_of_mem inside)))
    · exact List.all_eq_true.mp gapless _ (List.mem_append_right _ (List.mem_singleton_self _))
    · intro present
      obtain ⟨snapshot, segmentsBelow⟩ := ordered present
      apply Nat.le_antisymm
      · apply Nat.le_trans _ (Nat.le_max_right _ _)
        exact highest _ (List.mem_map_of_mem (List.mem_append_right _ (List.mem_singleton_self _)))
      · apply Nat.max_le.mpr
        refine ⟨snapshot, foldl_max_le (Nat.zero_le _) ?_⟩
        intro value member
        obtain ⟨file, inside, rfl⟩ := List.mem_map.mp member
        rcases List.mem_append.mp inside with old | active
        · obtain ⟨segment, among, rfl⟩ := List.mem_map.mp old
          rw [identity segment among]
          exact segmentsBelow segment ((members segment).mp among)
        · rw [List.mem_singleton.mp active]
          exact Nat.le_refl _
    · apply Nat.le_trans (List.length_filter_le ..)
      rw [length]
      exact room
  · cases loaded

end Recovered

end OnyxDB.Maintenance
