import Mathlib.Data.List.Chain
import OnyxDB.Persistence.Recovery

/-! What the inspection of a binlog file finds: its complete records, read in order, and the bytes
after them. -/

namespace OnyxDB.Persistence.Recovery
open OnyxDB.Library OnyxDB.Library.BigEndian OnyxDB.Engine OnyxDB.Engine.Value OnyxDB.Store
  OnyxDB.Persistence OnyxDB.Persistence.Codec OnyxDB.Persistence.Commit OnyxDB.Persistence.Model
  OnyxDB.Persistence.Record OnyxDB.Persistence.Snapshot

theorem checkedSucc_eq_some {sequence next : Nat} (bounded : next < 2 ^ 64) :
    checkedSucc sequence = some next ↔ next = sequence + 1 := by
  unfold checkedSucc
  constructor
  · intro found
    split at found
    · exact (Option.some.inj found).symm
    · cases found
  · rintro rfl
    rw [if_pos bounded]

/-- A length field and a record that the loop accepts. -/
structure Framed (header record : Bytes) : Prop where
  width : header.length = 4
  length : record.length = ofBigEndian header
  positive : record.length ≠ 0
  bounded : record.length ≤ maxBinlogRecordSize
  embedded : ¬ (binlogRecordMagic.isPrefixOf (record.take 8) = true ∧ 8 ≤ record.length ∧
    ofBigEndian ((record.take 8).drop 4) ≠ record.length)

/-- The next record of some bytes is what follows a length field, whatever comes after it. -/
theorem nextBinlogRecord_some {bytes record rest : Bytes} :
    nextBinlogRecord bytes = .ok (some (record, rest)) ↔
      ∃ header, Framed header record ∧ bytes = header ++ (record ++ rest) := by
  constructor
  · intro next
    unfold nextBinlogRecord at next
    split at next
    · cases next
    next long =>
      dsimp only at next
      split at next
      · cases next
      next valid =>
        split at next
        · split at next
          · cases next
          · split at next
            · cases next
            · cases next
        · split at next
          · cases next
          next embedded =>
            split at next
            · split at next
              · cases next
              · split at next
                · cases next
                · cases next
            next enough =>
              simp only [Except.ok.injEq, Option.some.injEq, Prod.mk.injEq] at next
              obtain ⟨rfl, rfl⟩ := next
              have size : ((bytes.drop 4).take (ofBigEndian (bytes.take 4))).length =
                  ofBigEndian (bytes.take 4) := by
                rw [List.length_take]
                omega
              refine ⟨bytes.take 4, ⟨?_, size, by omega, by omega, ?_⟩, ?_⟩
              · rw [List.length_take]
                omega
              · rw [size, List.take_take, Nat.min_comm]
                exact embedded
              · rw [List.take_append_drop, List.take_append_drop]
  · rintro ⟨header, ⟨width, length, positive, bounded, embedded⟩, rfl⟩
    have start : (header ++ (record ++ rest)).take 4 = header := List.take_left' width
    have body : (header ++ (record ++ rest)).drop 4 = record ++ rest := List.drop_left' width
    have long : ¬ (header ++ (record ++ rest)).length < 4 := by
      rw [List.length_append]
      omega
    have probe : (record ++ rest).take (min record.length 8) = record.take 8 := by
      rw [List.take_append_of_le_length (Nat.min_le_left _ _), Nat.min_comm, ← List.take_take,
        List.take_length]
    have full : ¬ (record.take 8).length < min record.length 8 := by
      rw [List.length_take]
      omega
    have enough : ¬ (record ++ rest).length < record.length := by
      rw [List.length_append]
      omega
    have four : List.length binlogRecordMagic = 4 := rfl
    have eight : 4 + binlogRecordLengthSize = 8 := rfl
    unfold nextBinlogRecord
    simp only [start, body, ← length, four, eight, probe]
    rw [if_neg long, if_neg (by omega), if_neg full, if_neg embedded, if_neg enough,
      List.take_left' rfl, List.drop_left' rfl]

theorem nextBinlogRecord_shrinks {bytes record rest : Bytes}
    (next : nextBinlogRecord bytes = .ok (some (record, rest))) : rest.length < bytes.length := by
  obtain ⟨header, framed, rfl⟩ := nextBinlogRecord_some.mp next
  have positive := framed.positive
  simp only [List.length_append]
  omega

/-- Fuel beyond the length of the bytes makes no difference. -/
theorem scanBinlogRecords_fuel {σ : Type} (visitor : σ → Bytes → Except PersistenceError σ)
    (fuel more : Nat) (bytes : Bytes) (state : σ) (enough : bytes.length < fuel)
    (plenty : bytes.length < more) :
    scanBinlogRecords visitor fuel bytes state = scanBinlogRecords visitor more bytes state := by
  induction fuel generalizing more bytes state with
  | zero => omega
  | succ fuel shorter =>
      cases more with
      | zero => omega
      | succ more =>
          simp only [scanBinlogRecords]
          cases next : nextBinlogRecord bytes with
          | error failure => rfl
          | ok found =>
              cases found with
              | none => rfl
              | some pair =>
                  have less := nextBinlogRecord_shrinks next
                  cases visited : visitor state pair.1 with
                  | error failure => simp [visited, bind, Except.bind]
                  | ok state =>
                      simp only [visited, bind, Except.bind]
                      exact shorter more _ _ (by omega) (by omega)

/-- One step of the loop over the records. -/
theorem forEachBinlogRecord_eq {σ : Type} (bytes : Bytes)
    (visitor : σ → Bytes → Except PersistenceError σ) (state : σ) :
    forEachBinlogRecord bytes visitor state =
      match nextBinlogRecord bytes with
      | .error failure => .error failure
      | .ok none => .ok (state, bytes)
      | .ok (some (record, rest)) =>
          match visitor state record with
          | .error failure => .error failure
          | .ok state => forEachBinlogRecord rest visitor state := by
  unfold forEachBinlogRecord
  rw [scanBinlogRecords]
  cases next : nextBinlogRecord bytes with
  | error failure => rfl
  | ok found =>
      cases found with
      | none => rfl
      | some pair =>
          have less := nextBinlogRecord_shrinks next
          cases visited : visitor state pair.1 with
          | error failure => simp [visited, bind, Except.bind]
          | ok state =>
              simp only [visited, bind, Except.bind]
              exact scanBinlogRecords_fuel visitor _ _ _ _ (by omega) (by omega)

/-- A decoded record of the log. -/
structure LogRecord where
  sequence : Nat
  batch : CommittedBatch
  integrity : BinlogRecordIntegrity

/-- Records under consecutive sequences. -/
def Consecutive (records : List LogRecord) : Prop :=
  records.IsChain (fun first second => second.sequence = first.sequence + 1)

theorem decodeSequencedEffects_sequence {fields : Bytes} {trailer : Nat}
    {integrity : BinlogRecordIntegrity} {decoded : DecodedBinlogRecord}
    (accepted : decodeSequencedEffects fields trailer integrity = .ok decoded) :
    0 < decoded.sequence ∧ decoded.sequence < 2 ^ 64 := by
  unfold decodeSequencedEffects at accepted
  cases read : readU64Be fields with
  | none =>
      rw [read] at accepted
      cases accepted
  | some pair =>
      obtain ⟨sequence, rest⟩ := pair
      rw [read] at accepted
      have bounded : sequence < 2 ^ 64 := by
        unfold readU64Be readBe at read
        split at read
        · cases read
        next long =>
          cases read
          have bound := ofBigEndian_lt (fields.take 8)
          have width : (fields.take 8).length = 8 := by
            rw [List.length_take]
            omega
          rw [width] at bound
          exact lt_of_lt_of_eq bound (by norm_num)
      dsimp only at accepted
      split at accepted
      · cases accepted
      next positive =>
        split at accepted
        · cases accepted
        · split at accepted
          · cases accepted
          · cases accepted
            exact ⟨Nat.pos_of_ne_zero positive, bounded⟩

/-- What the inspection notes of one more record. -/
def note (inspection : BinlogInspection) (log : LogRecord) : BinlogInspection :=
  { inspection with
    minSequence := some (inspection.minSequence.getD log.sequence)
    maxSequence := log.sequence
    containsChecksumlessRecords := inspection.containsChecksumlessRecords ||
      decide (log.integrity = .checksumlessLegacy) }

theorem note_minSequence (inspection : BinlogInspection) (log : LogRecord) :
    (note inspection log).minSequence.isSome := rfl

/-- The records continue where an inspection has stopped. -/
def Continues (inspection : BinlogInspection) (logs : List LogRecord) : Prop :=
  Consecutive logs ∧ (inspection.minSequence.isSome →
    ∀ log ∈ logs.head?, log.sequence = inspection.maxSequence + 1)

theorem continues_cons {inspection : BinlogInspection} {log : LogRecord} {logs : List LogRecord} :
    Continues inspection (log :: logs) ↔
      (inspection.minSequence.isSome → log.sequence = inspection.maxSequence + 1) ∧
        Continues (note inspection log) logs := by
  simp only [Continues, Consecutive, List.isChain_cons, note_minSequence, List.head?_cons,
    Option.mem_some_iff, forall_eq', true_imp_iff]
  constructor
  · rintro ⟨⟨next, chain⟩, start⟩
    exact ⟨start, chain, next⟩
  · rintro ⟨start, chain, next⟩
    exact ⟨⟨next, chain⟩, start⟩

/-- What an inspection reports of a file with the given records and tail. -/
def summary (bytes : Bytes) (logs : List LogRecord) (tail : Bytes) : BinlogInspection where
  minSequence := logs.head?.map LogRecord.sequence
  maxSequence := (logs.getLast?.map LogRecord.sequence).getD 0
  validLen := bytes.length - tail.length
  truncatedTail := !tail.isEmpty
  containsChecksumlessRecords := logs.any (fun log => decide (log.integrity = .checksumlessLegacy))

theorem foldl_note (logs : List LogRecord) (inspection : BinlogInspection) :
    logs.foldl note inspection = { inspection with
      minSequence := inspection.minSequence.or (logs.head?.map LogRecord.sequence)
      maxSequence := (logs.getLast?.map LogRecord.sequence).getD inspection.maxSequence
      containsChecksumlessRecords := inspection.containsChecksumlessRecords ||
        logs.any (fun log => decide (log.integrity = .checksumlessLegacy)) } := by
  induction logs generalizing inspection with
  | nil => simp
  | cons log logs rest =>
      rw [List.foldl_cons, rest]
      simp only [note]
      congr 1
      · cases inspection.minSequence <;> rfl
      · cases logs with
        | nil => rfl
        | cons second logs =>
            rw [List.getLast?_cons_cons]
            simp [List.getLast?_eq_some_getLast]
      · rw [List.any_cons, Bool.or_assoc]

variable [Platform]

def readLogRecord (record : Bytes) : Except PersistenceError LogRecord := do
  let decoded ← decodeBinlogRecord record
  let batch ← decodeCommittedBatch decoded.effects
  return ⟨decoded.sequence, batch, decoded.integrity⟩

/-- The complete records of `bytes` and what follows them. -/
inductive Reads : Bytes → List LogRecord → Bytes → Prop where
  | finish {bytes : Bytes} (next : nextBinlogRecord bytes = .ok none) : Reads bytes [] bytes
  | record {bytes record rest tail : Bytes} {log : LogRecord} {logs : List LogRecord}
      (next : nextBinlogRecord bytes = .ok (some (record, rest)))
      (read : readLogRecord record = .ok log) (later : Reads rest logs tail) :
      Reads bytes (log :: logs) tail

theorem decodeBinlogRecord_sequence {record : Bytes} {decoded : DecodedBinlogRecord}
    (accepted : decodeBinlogRecord record = .ok decoded) :
    0 < decoded.sequence ∧ decoded.sequence < 2 ^ 64 := by
  unfold decodeBinlogRecord at accepted
  dsimp only at accepted
  split at accepted
  · split at accepted
    · cases accepted
    · split at accepted
      · cases accepted
      · split at accepted
        · cases accepted
        · split at accepted
          · cases accepted
          · exact decodeSequencedEffects_sequence accepted
  · split at accepted
    · exact decodeSequencedEffects_sequence accepted
    · cases accepted

theorem readLogRecord_ok {record : Bytes} {log : LogRecord} :
    readLogRecord record = .ok log ↔ ∃ decoded, decodeBinlogRecord record = .ok decoded ∧
      decodeCommittedBatch decoded.effects = .ok log.batch ∧ log.sequence = decoded.sequence ∧
      log.integrity = decoded.integrity := by
  unfold readLogRecord
  cases first : decodeBinlogRecord record with
  | error failure => simp [bind, Except.bind]
  | ok decoded =>
      cases second : decodeCommittedBatch decoded.effects with
      | error failure => simp [second, bind, Except.bind]
      | ok batch =>
          simp only [second, bind, Except.bind, pure, Except.pure, Except.ok.injEq]
          constructor
          · rintro rfl
            exact ⟨decoded, rfl, second, rfl, rfl⟩
          · rintro ⟨_, rfl, payload, sequence, integrity⟩
            rw [second] at payload
            cases payload
            cases log
            simp_all

theorem readLogRecord_sequence {record : Bytes} {log : LogRecord}
    (read : readLogRecord record = .ok log) : 0 < log.sequence ∧ log.sequence < 2 ^ 64 := by
  obtain ⟨decoded, accepted, _, same, _⟩ := readLogRecord_ok.mp read
  rw [same]
  exact decodeBinlogRecord_sequence accepted

theorem Reads.sequence {bytes tail : Bytes} {logs : List LogRecord} (reads : Reads bytes logs tail) :
    ∀ log ∈ logs, 0 < log.sequence ∧ log.sequence < 2 ^ 64 := by
  induction reads with
  | finish _ => simp
  | record _ read _ rest =>
      intro log member
      rcases List.mem_cons.mp member with rfl | later
      · exact readLogRecord_sequence read
      · exact rest log later

theorem Reads.next_tail {bytes tail : Bytes} {logs : List LogRecord} (reads : Reads bytes logs tail) :
    nextBinlogRecord tail = .ok none := by
  induction reads with
  | finish next => exact next
  | record _ _ _ rest => exact rest

/-- The records can be read without the tail, and before anything else. -/
theorem Reads.split {bytes tail : Bytes} {logs : List LogRecord} (reads : Reads bytes logs tail) :
    ∃ front, bytes = front ++ tail ∧ ∀ rest later end_, Reads rest later end_ →
      Reads (front ++ rest) (logs ++ later) end_ := by
  induction reads with
  | finish _ => exact ⟨[], rfl, fun _ _ _ next => next⟩
  | @record _ piece _ _ _ _ next read _ shorter =>
      obtain ⟨header, framed, rfl⟩ := nextBinlogRecord_some.mp next
      obtain ⟨front, rfl, extend⟩ := shorter
      refine ⟨header ++ (piece ++ front), by simp, ?_⟩
      intro more later end_ follows
      refine .record (nextBinlogRecord_some.mpr ⟨header, framed, ?_⟩) read (extend more later end_ follows)
      simp

theorem Reads.nil : Reads [] [] [] := .finish rfl

theorem Reads.append {bytes rest end_ : Bytes} {logs later : List LogRecord} (reads : Reads bytes logs [])
    (follows : Reads rest later end_) : Reads (bytes ++ rest) (logs ++ later) end_ := by
  obtain ⟨front, rfl, extend⟩ := reads.split
  rw [List.append_nil]
  exact extend rest later end_ follows

/-- What follows complete records in a file is read on its own. -/
theorem reads_append_inv {bytes rest tail : Bytes} {logs all : List LogRecord}
    (reads : Reads bytes logs []) (whole : Reads (bytes ++ rest) all tail) :
    ∃ later, all = logs ++ later ∧ Reads rest later tail := by
  generalize finished : ([] : Bytes) = nothing at reads
  induction reads generalizing all with
  | finish next =>
      subst finished
      exact ⟨all, rfl, whole⟩
  | @record bytes record middle _ log logs next read _ later =>
      obtain ⟨header, framed, rfl⟩ := nextBinlogRecord_some.mp next
      have first : nextBinlogRecord (header ++ (record ++ middle) ++ rest) =
          .ok (some (record, middle ++ rest)) :=
        nextBinlogRecord_some.mpr ⟨header, framed, by simp⟩
      cases whole with
      | finish none_left =>
          rw [first] at none_left
          cases none_left
      | @record _ _ _ _ log' logs' next' read' later' =>
          rw [first] at next'
          cases next'
          rw [read] at read'
          cases read'
          obtain ⟨others, rfl, reads⟩ := later later' finished
          exact ⟨others, rfl, reads⟩

theorem Reads.take {bytes tail : Bytes} {logs : List LogRecord} (reads : Reads bytes logs tail) :
    Reads (bytes.take (bytes.length - tail.length)) logs [] := by
  obtain ⟨front, rfl, extend⟩ := reads.split
  have complete := extend [] [] [] Reads.nil
  rw [List.append_nil, List.append_nil] at complete
  rw [List.length_append, Nat.add_sub_cancel, List.take_left' rfl]
  exact complete

/-- The bytes determine what is read. -/
theorem Reads.unique {bytes tail other : Bytes} {logs others : List LogRecord}
    (first : Reads bytes logs tail) (second : Reads bytes others other) :
    logs = others ∧ tail = other := by
  induction first generalizing others other with
  | finish next =>
      cases second with
      | finish _ => exact ⟨rfl, rfl⟩
      | record found _ _ => rw [next] at found; cases found
  | record next read _ rest =>
      cases second with
      | finish found => rw [next] at found; cases found
      | record found read' later =>
          rw [next] at found
          cases found
          rw [read] at read'
          cases read'
          obtain ⟨rfl, rfl⟩ := rest later
          exact ⟨rfl, rfl⟩

theorem inspectRecord_ok {inspection result : BinlogInspection} {record : Bytes} :
    inspectRecord inspection record = .ok result ↔ ∃ log, readLogRecord record = .ok log ∧
      (inspection.minSequence.isSome → log.sequence = inspection.maxSequence + 1) ∧
      result = note inspection log := by
  unfold inspectRecord
  constructor
  · intro accepted
    cases first : decodeBinlogRecord record with
    | error failure =>
        rw [first] at accepted
        cases accepted
    | ok decoded =>
        have bounded := (decodeBinlogRecord_sequence first).2
        rw [first] at accepted
        simp only [bind, Except.bind] at accepted
        split at accepted
        · cases accepted
        next follows =>
          cases second : decodeCommittedBatch decoded.effects with
          | error failure =>
              rw [second] at accepted
              cases accepted
          | ok batch =>
              rw [second] at accepted
              cases accepted
              refine ⟨⟨decoded.sequence, batch, decoded.integrity⟩,
                readLogRecord_ok.mpr ⟨decoded, first, second, rfl, rfl⟩, ?_, rfl⟩
              intro started
              rw [not_and_not_right] at follows
              exact (checkedSucc_eq_some bounded).mp (follows started)
  · rintro ⟨log, read, follows, rfl⟩
    obtain ⟨decoded, first, second, sequence, integrity⟩ := readLogRecord_ok.mp read
    have bounded := (decodeBinlogRecord_sequence first).2
    have passed : ¬ (inspection.minSequence.isSome = true ∧
        checkedSucc inspection.maxSequence ≠ some decoded.sequence) := by
      rw [not_and_not_right]
      intro started
      rw [checkedSucc_eq_some bounded, ← sequence]
      exact follows started
    rw [first]
    simp only [bind, Except.bind, if_neg passed, second, pure, Except.pure, note, sequence, integrity]

theorem forEach_inspectRecord {bytes tail : Bytes} {inspection result : BinlogInspection} :
    forEachBinlogRecord bytes inspectRecord inspection = .ok (result, tail) ↔
      ∃ logs, Reads bytes logs tail ∧ Continues inspection logs ∧
        result = logs.foldl note inspection := by
  induction length : bytes.length using Nat.strong_induction_on generalizing bytes inspection with
  | _ size shorter =>
      rw [forEachBinlogRecord_eq]
      constructor
      · intro accepted
        cases next : nextBinlogRecord bytes with
        | error failure =>
            rw [next] at accepted
            cases accepted
        | ok found =>
            rw [next] at accepted
            cases found with
            | none =>
                cases accepted
                exact ⟨[], .finish next, ⟨List.isChain_nil, by simp⟩, rfl⟩
            | some pair =>
                obtain ⟨record, rest⟩ := pair
                cases visited : inspectRecord inspection record with
                | error failure =>
                    simp only [visited] at accepted
                    cases accepted
                | ok noted =>
                    simp only [visited] at accepted
                    obtain ⟨log, read, start, rfl⟩ := inspectRecord_ok.mp visited
                    obtain ⟨logs, reads, continues, rfl⟩ :=
                      (shorter rest.length (length ▸ nextBinlogRecord_shrinks next) rfl).mp accepted
                    exact ⟨log :: logs, .record next read reads,
                      continues_cons.mpr ⟨start, continues⟩, rfl⟩
      · rintro ⟨logs, reads, continues, rfl⟩
        cases reads with
        | finish next => rw [next]; rfl
        | record next read later =>
            obtain ⟨start, continues⟩ := continues_cons.mp continues
            rw [next]
            simp only [inspectRecord_ok.mpr ⟨_, read, start, rfl⟩]
            exact (shorter _ (length ▸ nextBinlogRecord_shrinks next) rfl).mpr
              ⟨_, later, continues, rfl⟩

/-- An inspection succeeds exactly on files whose complete records can be read and are consecutive. -/
theorem inspectBinlog_ok {bytes : Bytes} {inspection : BinlogInspection} :
    inspectBinlog bytes = .ok inspection ↔ ∃ logs tail, Reads bytes logs tail ∧ Consecutive logs ∧
      inspection = summary bytes logs tail := by
  have fresh (logs : List LogRecord) : Continues {} logs ↔ Consecutive logs := by
    simp [Continues]
  unfold inspectBinlog
  constructor
  · intro accepted
    cases scanned : forEachBinlogRecord bytes inspectRecord {} with
    | error failure =>
        rw [scanned] at accepted
        cases accepted
    | ok pair =>
        obtain ⟨noted, tail⟩ := pair
        rw [scanned] at accepted
        cases accepted
        obtain ⟨logs, reads, continues, rfl⟩ := forEach_inspectRecord.mp scanned
        refine ⟨logs, tail, reads, (fresh logs).mp continues, ?_⟩
        rw [foldl_note]
        simp [summary]
  · rintro ⟨logs, tail, reads, consecutive, rfl⟩
    rw [forEach_inspectRecord.mpr ⟨logs, reads, (fresh logs).mpr consecutive, rfl⟩, foldl_note]
    simp [summary, bind, Except.bind, pure, Except.pure]

end OnyxDB.Persistence.Recovery
