import OnyxDB.Persistence.WrittenFiles

/-! The durable replica state: one line of tab-separated fields that names the upstream a directory
follows and the sequence of the baseline it was given. -/

namespace OnyxDB.Replication
open OnyxDB.Library.Decimal OnyxDB.Engine.Value OnyxDB.Persistence.Codec OnyxDB.Persistence.Model
  OnyxDB.Persistence.Snapshot

def replicaStateMagic : List Char := "ONYXREPL".toList

def replicaStateVersion : Nat := 2

structure ReplicaIdentity where
  replid : Nat
  baselineSequence : Nat
  deriving DecidableEq, Repr

inductive DurableReplicaState where
  | detached
  | installing
  | ready (identity : ReplicaIdentity)
  deriving DecidableEq, Repr

/-- `char::is_whitespace`. -/
def isWhitespace (char : Char) : Bool :=
  let code := char.toNat
  (9 ≤ code && code ≤ 13) || code == 0x20 || code == 0x85 || code == 0xA0 || code == 0x1680 ||
    (0x2000 ≤ code && code ≤ 0x200A) || code == 0x2028 || code == 0x2029 || code == 0x202F ||
    code == 0x205F || code == 0x3000

/-- `str::trim_end`. -/
def trimEnd (text : List Char) : List Char := text.rdropWhile isWhitespace

def detachedStatus : List Char := "DETACHED".toList

def installingStatus : List Char := "INSTALLING".toList

def readyStatus : List Char := "READY".toList

/-- What the status of a marker and its two numbers say. A baseline other than the installed snapshot
is no identity. -/
def interpretReplicaState (status : List Char) (replid baselineSequence snapshotWatermark : Nat) :
    Except PersistenceError DurableReplicaState :=
  if status = detachedStatus ∧ replid = 0 ∧ baselineSequence = 0 then .ok .detached
  else if status = installingStatus ∧ replid = 0 ∧ baselineSequence = 0 then .ok .installing
  else if status = readyStatus ∧ replid ≠ 0 then
    if baselineSequence ≠ snapshotWatermark then .ok .installing
    else .ok (.ready ⟨replid, baselineSequence⟩)
  else .error (.new "Invalid durable replica state fields")

def parseReplicaState (contents : List Char) (snapshotWatermark : Nat) :
    Except PersistenceError DurableReplicaState :=
  match (trimEnd contents).splitOn '\t' with
  | [magic, version, status, replid, baseline] => do
      if magic ≠ replicaStateMagic then throw (.new "Malformed durable replica state")
      let version ← orError "Invalid durable replica state version" (parseUnsigned (2 ^ 8) version)
      if version ≠ replicaStateVersion then
        throw (.new s!"Unsupported durable replica state version: {version}")
      let replid ← orError "Invalid upstream replication ID" (parseUnsigned (2 ^ 64) replid)
      let baseline ← orError "Invalid replica baseline sequence" (parseUnsigned (2 ^ 64) baseline)
      interpretReplicaState status replid baseline snapshotWatermark
  | _ => .error (.new "Malformed durable replica state")

def loadDurableReplicaState (file : Option Bytes) (snapshotWatermark : Nat) :
    Except PersistenceError (Option DurableReplicaState) :=
  match file with
  | none => .ok none
  | some bytes => do
      if bytes.length > maxSnapshotMetadataSize then
        throw (.new "Replica identity metadata exceeds the format limit")
      let contents ← orError "stream did not contain valid UTF-8" (decodeUtf8 bytes)
      let state ← parseReplicaState contents snapshotWatermark
      return some state

/-- The status `write_durable_replica_state` gives a state, with its two numbers. -/
def replicaStateStatus : DurableReplicaState → List Char × Nat × Nat
  | .detached => (detachedStatus, 0, 0)
  | .installing => (installingStatus, 0, 0)
  | .ready identity => (readyStatus, identity.replid, identity.baselineSequence)

/-- The fields of the line `write_durable_replica_state` writes. -/
def replicaStateFields (state : DurableReplicaState) : List (List Char) :=
  let (status, replid, baselineSequence) := replicaStateStatus state
  [replicaStateMagic, Nat.toDigits 10 replicaStateVersion, status, Nat.toDigits 10 replid,
    Nat.toDigits 10 baselineSequence]

/-- The contents of the marker file. -/
def durableReplicaState (state : DurableReplicaState) : Bytes :=
  (['\t'].intercalate (replicaStateFields state) ++ ['\n']).flatMap String.utf8EncodeChar

/-- What startup makes of the marker: the identity to resume, and the marker it writes instead. -/
def prepareReplicationStartup (file : Option Bytes) (snapshotWatermark : Nat)
    (configuredAsReplica : Bool) : Except PersistenceError (Option ReplicaIdentity × Option Bytes) := do
  let state ← loadDurableReplicaState file snapshotWatermark
  if configuredAsReplica then
    match state with
    | some (.ready identity) => return (some identity, file)
    | _ => return (none, file)
  else
    match state with
    | some .installing =>
        throw (.new "Cannot start as master while replica baseline installation is incomplete")
    | some (.ready _) => return (none, some (durableReplicaState .detached))
    | _ => return (none, file)

/-- The numbers of a state fit their fields, and an upstream has an identity. -/
def DurableReplicaState.Valid : DurableReplicaState → Prop
  | .ready identity => identity.replid ≠ 0 ∧ identity.replid < 2 ^ 64 ∧ identity.baselineSequence < 2 ^ 64
  | _ => True

/-- The state a marker names beside an installed snapshot. -/
def DurableReplicaState.observed (snapshotWatermark : Nat) : DurableReplicaState → DurableReplicaState
  | .ready identity =>
      if identity.baselineSequence ≠ snapshotWatermark then .installing else .ready identity
  | state => state

section RoundTrip

/-- A field of printable characters of one byte each. -/
def Plain (field : List Char) : Prop :=
  ∀ char ∈ field, char.val ≤ 127 ∧ char ≠ '\t' ∧ isWhitespace char = false

theorem plain_digits (value : Nat) : Plain (Nat.toDigits 10 value) := by
  intro char member
  have bounds := OnyxDB.Persistence.Recovery.isDigit_bounds
    (Nat.isDigit_of_mem_toDigits (by decide) (by decide) member)
  have low : 48 ≤ char.toNat := bounds.1
  have high : char.toNat ≤ 57 := bounds.2
  refine ⟨UInt32.le_trans bounds.2 (by decide), ?_, ?_⟩
  · rintro rfl
    exact absurd low (by decide)
  · simp only [isWhitespace, Bool.or_eq_false_iff, Bool.and_eq_false_iff, decide_eq_false_iff_not,
      beq_eq_false_iff_ne]
    omega

theorem plain_status (state : DurableReplicaState) : Plain (replicaStateStatus state).1 := by
  have constant {text : List Char} (letters : text.all (fun char =>
      decide (char.val ≤ 127 ∧ char ≠ '\t' ∧ isWhitespace char = false)) = true) : Plain text :=
    fun char member => of_decide_eq_true (List.all_eq_true.mp letters char member)
  cases state with
  | detached => exact constant rfl
  | installing => exact constant rfl
  | ready identity => exact constant rfl

theorem plain_fields (state : DurableReplicaState) : ∀ field ∈ replicaStateFields state, Plain field := by
  have magic : Plain replicaStateMagic := by
    have letters : replicaStateMagic.all (fun char =>
      decide (char.val ≤ 127 ∧ char ≠ '\t' ∧ isWhitespace char = false)) = true := rfl
    exact fun char member => of_decide_eq_true (List.all_eq_true.mp letters char member)
  intro field member
  simp only [replicaStateFields, List.mem_cons, List.not_mem_nil, or_false] at member
  rcases member with rfl | rfl | rfl | rfl | rfl
  · exact magic
  · exact plain_digits _
  · exact plain_status state
  · exact plain_digits _
  · exact plain_digits _

/-- The line of a marker without its newline. -/
def markerText (state : DurableReplicaState) : List Char := ['\t'].intercalate (replicaStateFields state)

theorem markerText_eq (state : DurableReplicaState) :
    markerText state = replicaStateMagic ++ '\t' :: (Nat.toDigits 10 replicaStateVersion ++ '\t' ::
      ((replicaStateStatus state).1 ++ '\t' :: (Nat.toDigits 10 (replicaStateStatus state).2.1 ++ '\t' ::
        Nat.toDigits 10 (replicaStateStatus state).2.2))) := by
  simp [markerText, replicaStateFields, List.intercalate]

theorem markerText_small (state : DurableReplicaState) : ∀ char ∈ markerText state, char.val ≤ 127 := by
  have plain := plain_fields state
  simp only [replicaStateFields, List.forall_mem_cons] at plain
  obtain ⟨magic, version, status, replid, baseline, _⟩ := plain
  have tab : ('\t').val ≤ 127 := by decide
  intro char member
  simp only [markerText_eq, List.mem_append, List.mem_cons] at member
  rcases member with inside | rfl | inside | rfl | inside | rfl | inside | rfl | inside
  · exact (magic char inside).1
  · exact tab
  · exact (version char inside).1
  · exact tab
  · exact (status char inside).1
  · exact tab
  · exact (replid char inside).1
  · exact tab
  · exact (baseline char inside).1

/-- Only the newline of a marker is trimmed. -/
theorem trimEnd_marker (state : DurableReplicaState) :
    trimEnd (markerText state ++ ['\n']) = markerText state := by
  rw [trimEnd, List.rdropWhile_concat_pos _ _ _ (by decide), List.rdropWhile_eq_self_iff]
  intro nonempty
  have written : Nat.toDigits 10 (replicaStateStatus state).2.2 ≠ [] := Nat.toDigits_ne_nil
  have ending : ∃ front, markerText state = front ++ Nat.toDigits 10 (replicaStateStatus state).2.2 :=
    ⟨replicaStateMagic ++ '\t' :: (Nat.toDigits 10 replicaStateVersion ++ '\t' ::
      ((replicaStateStatus state).1 ++ '\t' :: (Nat.toDigits 10 (replicaStateStatus state).2.1 ++ ['\t']))),
      by simp [markerText_eq]⟩
  obtain ⟨front, shape⟩ := ending
  have last : (markerText state).getLast nonempty =
      (Nat.toDigits 10 (replicaStateStatus state).2.2).getLast written := by
    simp only [shape, List.getLast_append_of_ne_nil _ written]
  rw [last, (plain_digits _ _ (List.getLast_mem written)).2.2]
  exact Bool.false_ne_true

theorem marker_fields (state : DurableReplicaState) :
    (markerText state).splitOn '\t' = replicaStateFields state := by
  apply List.splitOn_intercalate
  · intro field member listed
    exact (plain_fields state field member '\t' listed).2.1 rfl
  · simp [replicaStateFields]

theorem interpret_status {state : DurableReplicaState} (valid : state.Valid) (snapshotWatermark : Nat) :
    interpretReplicaState (replicaStateStatus state).1 (replicaStateStatus state).2.1
        (replicaStateStatus state).2.2 snapshotWatermark =
      .ok (state.observed snapshotWatermark) := by
  cases state with
  | detached => rfl
  | installing => rfl
  | ready identity =>
      have differ : ¬ (readyStatus = detachedStatus) := by decide
      have apart : ¬ (readyStatus = installingStatus) := by decide
      simp only [replicaStateStatus, interpretReplicaState, DurableReplicaState.observed, differ, apart,
        false_and, if_false, true_and]
      rw [if_pos valid.1]
      by_cases same : identity.baselineSequence = snapshotWatermark
      · simp only [same, ne_eq, not_true_eq_false, if_false]
        rw [← same]
      · simp only [ne_eq, same, not_false_eq_true, if_true]

theorem status_bounded {state : DurableReplicaState} (valid : state.Valid) :
    (replicaStateStatus state).2.1 < 2 ^ 64 ∧ (replicaStateStatus state).2.2 < 2 ^ 64 := by
  cases state with
  | detached => exact ⟨by decide, by decide⟩
  | installing => exact ⟨by decide, by decide⟩
  | ready identity => exact valid.2

theorem markerText_length {state : DurableReplicaState} (valid : state.Valid) :
    (markerText state).length ≤ 63 := by
  have digits {value : Nat} (bounded : value < 2 ^ 64) : (Nat.toDigits 10 value).length ≤ 20 :=
    (Nat.length_toDigits_le_iff (by decide) (by decide)).mpr (bounded.trans (by decide))
  have version : (Nat.toDigits 10 replicaStateVersion).length = 1 := by decide
  have magic : replicaStateMagic.length = 8 := by decide
  have status : (replicaStateStatus state).1.length ≤ 10 := by
    cases state with
    | detached => decide
    | installing => decide
    | ready identity => exact (by decide : readyStatus.length ≤ 10)
  have numbers := status_bounded valid
  have replid := digits numbers.1
  have baseline := digits numbers.2
  simp only [markerText_eq, List.length_append, List.length_cons, version, magic]
  omega

/-- A marker that was written completely is read as the state it records. -/
theorem loadDurableReplicaState_marker {state : DurableReplicaState} (valid : state.Valid)
    (snapshotWatermark : Nat) :
    loadDurableReplicaState (some (durableReplicaState state)) snapshotWatermark =
      .ok (some (state.observed snapshotWatermark)) := by
  have small : ¬ (durableReplicaState state).length > maxSnapshotMetadataSize := by
    have line := markerText_length valid
    have written : durableReplicaState state =
        (markerText state ++ ['\n']).map (fun char => char.val.toUInt8) := by
      apply OnyxDB.Persistence.Recovery.encode_ascii_list
      intro char member
      rcases List.mem_append.mp member with inside | newline
      · exact markerText_small state char inside
      · rw [List.mem_singleton.mp newline]
        decide
    rw [written, List.length_map, List.length_append, List.length_singleton, maxSnapshotMetadataSize]
    omega
  have decoded : decodeUtf8 (durableReplicaState state) = some (markerText state ++ ['\n']) :=
    decodeUtf8_encode _
  have numbers := status_bounded valid
  have parsed : parseReplicaState (markerText state ++ ['\n']) snapshotWatermark =
      .ok (state.observed snapshotWatermark) := by
    unfold parseReplicaState
    rw [trimEnd_marker, marker_fields]
    have version : parseUnsigned (2 ^ 8) (Nat.toDigits 10 replicaStateVersion) = some replicaStateVersion :=
      parseUnsigned_toDigits (by decide)
    simp only [replicaStateFields, version, parseUnsigned_toDigits numbers.1,
      parseUnsigned_toDigits numbers.2, orError, ne_eq, not_true_eq_false, if_false, bind, Except.bind,
      interpret_status valid]
  simp only [loadDurableReplicaState, small, if_false, decoded, orError, parsed, bind, Except.bind, pure,
    Except.pure]

theorem startup_installing (watermark : Nat) :
    prepareReplicationStartup (some (durableReplicaState .installing)) watermark true =
      .ok (none, some (durableReplicaState .installing)) := by
  have loaded := @loadDurableReplicaState_marker .installing trivial watermark
  simp only [prepareReplicationStartup, loaded, DurableReplicaState.observed, bind, Except.bind, if_true,
    pure, Except.pure]

theorem startup_ready {identity : ReplicaIdentity} (valid : DurableReplicaState.Valid (.ready identity)) :
    prepareReplicationStartup (some (durableReplicaState (.ready identity))) identity.baselineSequence true =
      .ok (some identity, some (durableReplicaState (.ready identity))) := by
  have loaded := loadDurableReplicaState_marker valid identity.baselineSequence
  simp only [prepareReplicationStartup, loaded, DurableReplicaState.observed, ne_eq, not_true_eq_false,
    if_false, bind, Except.bind, if_true, pure, Except.pure]

end RoundTrip

end OnyxDB.Replication
