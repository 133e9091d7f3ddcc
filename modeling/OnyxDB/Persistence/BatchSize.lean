import OnyxDB.Persistence.CodecRoundTrip

/-! The size of encoded batches. The encoder and the record length check accept a batch exactly when its size is within
the limit of a record; all other limits of the format follow from that one. -/

namespace OnyxDB.Persistence.Codec
open OnyxDB.Engine OnyxDB.Engine.Value OnyxDB.Library.BigEndian OnyxDB.Persistence.Model
  OnyxDB.Persistence.Record

section Collections
variable {α : Type} {append : Bytes → α → Except PersistenceError Bytes} {fits : α → Prop} {written : α → Bytes}

/-- A collection is written after its tag and its count. -/
theorem appendCollection_ok
    (step : ∀ record item encoded, append record item = .ok encoded ↔
      fits item ∧ encoded = record ++ written item) (items : List α) (tooLarge : String) (tag : UInt8)
    {record encoded : Bytes} :
    ((collectionCount items.length tooLarge).bind (fun count =>
        items.foldlM append (record ++ [tag] ++ writeU32Be count)) = .ok encoded) ↔
      (items.length < 2 ^ 32 ∧ ∀ item ∈ items, fits item) ∧
        encoded = record ++ tag :: (writeU32Be items.length ++ items.flatMap written) := by
  have shape (body : Bytes) : record ++ [tag] ++ writeU32Be items.length ++ body =
      record ++ tag :: (writeU32Be items.length ++ body) := by
    simp only [List.append_assoc, List.cons_append, List.nil_append]
  constructor
  · intro accepted
    obtain ⟨count, counted, accepted⟩ := bind_ok accepted
    obtain ⟨few, rfl⟩ := collectionCount_ok.mp counted
    obtain ⟨all, rfl⟩ := (foldlM_append_ok step items _ encoded).mp accepted
    exact ⟨⟨few, all⟩, shape _⟩
  · rintro ⟨⟨few, all⟩, rfl⟩
    rw [collectionCount_ok.mpr ⟨few, rfl⟩]
    exact (foldlM_append_ok step items _ _).mpr ⟨all, (shape _).symm⟩

theorem written_le_flatMap (written : α → Bytes) {items : List α} {item : α} (member : item ∈ items) :
    (written item).length ≤ (items.flatMap written).length := by
  induction items with
  | nil => exact absurd member List.not_mem_nil
  | cons first items rest =>
      rw [List.flatMap_cons, List.length_append]
      rcases List.mem_cons.mp member with rfl | later
      · exact Nat.le_add_right _ _
      · exact (rest later).trans (Nat.le_add_left _ _)

/-- Every item takes a byte at least. -/
theorem length_le_flatMap (written : α → Bytes) (wide : ∀ item, 0 < (written item).length) (items : List α) :
    items.length ≤ (items.flatMap written).length := by
  have count := count_le_flatMap written Nat.one_pos wide items []
  rwa [List.append_nil, Nat.div_one] at count

end Collections

variable [Platform]

section Values

/-- A value as the codec writes it. -/
def writtenValue : OnyxValue → Bytes
  | .blob value => 1 :: lengthPrefixed value
  | .int value => 2 :: writeU64Be value.toUInt64.toNat
  | .float value => 3 :: writeU64Be value.bits.toNat
  | .list values => 4 :: (writeU32Be values.length ++ values.flatMap lengthPrefixed)
  | .hash values => 5 :: (writeU32Be values.entries.length ++ values.entries.flatMap writtenField)
  | .set values => 6 :: (writeU32Be values.members.length ++ values.members.flatMap lengthPrefixed)
  | .json value => 7 :: lengthPrefixed (utf8Bytes (Platform.jsonToString value))
  | .vector values => 8 :: (writeU32Be values.length ++ values.flatMap writtenComponent)

/-- All lengths and counts of a value have 32 bits. -/
def ValueFits : OnyxValue → Prop
  | .blob value => value.length < 2 ^ 32
  | .int _ | .float _ => True
  | .list values => values.length < 2 ^ 32 ∧ ∀ value ∈ values, value.length < 2 ^ 32
  | .hash values => values.entries.length < 2 ^ 32 ∧
      ∀ field ∈ values.entries, field.1.length < 2 ^ 32 ∧ field.2.length < 2 ^ 32
  | .set values => values.members.length < 2 ^ 32 ∧ ∀ member ∈ values.members, member.length < 2 ^ 32
  | .json value => (utf8Bytes (Platform.jsonToString value)).length < 2 ^ 32
  | .vector values => values.length < 2 ^ 32

omit [Platform] in
theorem appendTagged_ok {record bytes encoded : Bytes} (tag : UInt8) :
    appendSnapshotBytes (record ++ [tag]) bytes = .ok encoded ↔
      bytes.length < 2 ^ 32 ∧ encoded = record ++ tag :: lengthPrefixed bytes := by
  rw [appendSnapshotBytes_ok, List.append_assoc, List.singleton_append]

theorem appendSnapshotValue_ok {record encoded : Bytes} (value : OnyxValue) :
    appendSnapshotValue record value = .ok encoded ↔ ValueFits value ∧ encoded = record ++ writtenValue value := by
  have appendsBytes (record bytes encoded : Bytes) : appendSnapshotBytes record bytes = .ok encoded ↔
      bytes.length < 2 ^ 32 ∧ encoded = record ++ lengthPrefixed bytes := appendSnapshotBytes_ok
  have number (tag : UInt8) (digits : Bytes) :
      (Except.ok (record ++ [tag] ++ digits) : Except PersistenceError Bytes) = .ok encoded ↔
        True ∧ encoded = record ++ tag :: digits := by
    rw [Except.ok.injEq, true_and, List.append_assoc, List.singleton_append]
    exact eq_comm
  cases value with
  | blob value => exact appendTagged_ok 1
  | int value => exact number 2 _
  | float value => exact number 3 _
  | list values => exact appendCollection_ok appendsBytes values "Snapshot list is too large" 4
  | hash values => exact appendCollection_ok appendHashField_ok values.entries "Snapshot hash is too large" 5
  | set values => exact appendCollection_ok appendsBytes values.members "Snapshot set is too large" 6
  | json value => exact appendTagged_ok 7
  | vector values =>
      have shape : record ++ [8] ++ writeU32Be values.length ++ values.flatMap writtenComponent =
          record ++ 8 :: (writeU32Be values.length ++ values.flatMap writtenComponent) := by
        simp only [List.append_assoc, List.cons_append, List.nil_append]
      constructor
      · intro accepted
        obtain ⟨count, counted, accepted⟩ := bind_ok accepted
        obtain ⟨few, rfl⟩ := collectionCount_ok.mp counted
        cases accepted
        exact ⟨few, shape⟩
      · rintro ⟨few, rfl⟩
        have counted : collectionCount values.length "Snapshot vector is too large" = .ok values.length :=
          collectionCount_ok.mpr ⟨few, rfl⟩
        simp only [appendSnapshotValue, counted, bind, Except.bind]
        exact congrArg Except.ok shape

/-- The bytes a value takes, with its tag. -/
def valueSize : OnyxValue → Nat
  | .blob value => 5 + value.length
  | .int _ | .float _ => 9
  | .list values => 5 + (values.map (fun value => 4 + value.length)).sum
  | .hash values => 5 + (values.entries.map (fun field => 8 + field.1.length + field.2.length)).sum
  | .set values => 5 + (values.members.map (fun member => 4 + member.length)).sum
  | .json value => 5 + (utf8Bytes (Platform.jsonToString value)).length
  | .vector values => 5 + 4 * values.length

omit [Platform] in
theorem writtenField_length (field : Sigma fun _ : Bytes => Bytes) :
    (writtenField field).length = 8 + field.1.length + field.2.length := by
  rw [writtenField, List.length_append, lengthPrefixed_length, lengthPrefixed_length]
  omega

omit [Platform] in
theorem flatMap_lengthPrefixed_length (values : List Bytes) :
    (values.flatMap lengthPrefixed).length = (values.map (fun value => 4 + value.length)).sum := by
  simp only [List.length_flatMap, lengthPrefixed_length]

theorem writtenValue_length (value : OnyxValue) : (writtenValue value).length = valueSize value := by
  cases value with
  | blob value =>
      rw [writtenValue, List.length_cons, lengthPrefixed_length, valueSize]
      omega
  | int value => rw [writtenValue, List.length_cons, writeU64Be_length, valueSize]
  | float value => rw [writtenValue, List.length_cons, writeU64Be_length, valueSize]
  | list values =>
      rw [writtenValue, List.length_cons, List.length_append, writeU32Be_length, flatMap_lengthPrefixed_length, valueSize]
      omega
  | hash values =>
      have fields : (values.entries.flatMap writtenField).length =
          (values.entries.map (fun field => 8 + field.1.length + field.2.length)).sum := by
        simp only [List.length_flatMap, writtenField_length]
      rw [writtenValue, List.length_cons, List.length_append, writeU32Be_length, fields, valueSize]
      omega
  | set values =>
      rw [writtenValue, List.length_cons, List.length_append, writeU32Be_length, flatMap_lengthPrefixed_length, valueSize]
      omega
  | json value =>
      rw [writtenValue, List.length_cons, lengthPrefixed_length, valueSize]
      omega
  | vector values =>
      rw [writtenValue, List.length_cons, List.length_append, writeU32Be_length, flatMap_writtenComponent_length,
        valueSize]
      omega

omit [Platform] in
theorem prefixed_fit {values : List Bytes} (small : (values.flatMap lengthPrefixed).length < 2 ^ 32) :
    values.length < 2 ^ 32 ∧ ∀ value ∈ values, value.length < 2 ^ 32 := by
  have wide (value : Bytes) : 0 < (lengthPrefixed value).length := by
    rw [lengthPrefixed_length]
    omega
  refine ⟨(length_le_flatMap lengthPrefixed wide values).trans_lt small, ?_⟩
  intro value member
  have within := written_le_flatMap lengthPrefixed member
  rw [lengthPrefixed_length] at within
  omega

/-- What is written in fewer than four gigabytes has lengths and counts of 32 bits. -/
theorem valueFits_of_size {value : OnyxValue} (small : valueSize value < 2 ^ 32) : ValueFits value := by
  rw [← writtenValue_length] at small
  cases value <;> simp only [writtenValue, List.length_cons, List.length_append, lengthPrefixed_length] at small <;>
    simp only [ValueFits]
  case blob => omega
  case list => exact prefixed_fit (by omega)
  case hash values =>
      have wide (field : Sigma fun _ : Bytes => Bytes) : 0 < (writtenField field).length := by
        rw [writtenField_length]
        omega
      refine ⟨(length_le_flatMap writtenField wide values.entries).trans_lt (by omega), ?_⟩
      intro field member
      have within := written_le_flatMap writtenField member
      rw [writtenField_length] at within
      omega
  case set => exact prefixed_fit (by omega)
  case json => omega
  case vector values =>
      rw [flatMap_writtenComponent_length] at small
      omega

end Values

section Batches

def writtenEntry (key : Bytes) (entry : PersistentEntry) : Bytes :=
  lengthPrefixed key ++ (writeU64Be (entry.expiresAt.getD 0) ++ writtenValue entry.value)

/-- The bytes of a snapshot entry. -/
def entrySize (key : Bytes) (entry : PersistentEntry) : Nat := 12 + key.length + valueSize entry.value

theorem writtenEntry_length (key : Bytes) (entry : PersistentEntry) :
    (writtenEntry key entry).length = entrySize key entry := by
  rw [writtenEntry, List.length_append, List.length_append, lengthPrefixed_length, writeU64Be_length,
    writtenValue_length, entrySize]
  omega

theorem encodeSnapshotEntry_ok {key record : Bytes} {entry : PersistentEntry} :
    encodeSnapshotEntry key entry = .ok record ↔
      (key.length < 2 ^ 32 ∧ ValueFits entry.value ∧ entrySize key entry ≤ maxSnapshotRecordSize) ∧
        record = writtenEntry key entry := by
  have shape : ([] ++ lengthPrefixed key) ++ writeU64Be (entry.expiresAt.getD 0) ++ writtenValue entry.value =
      writtenEntry key entry := by
    rw [List.nil_append, List.append_assoc, writtenEntry]
  constructor
  · intro accepted
    obtain ⟨opening, keyed, accepted⟩ := bind_ok accepted
    obtain ⟨short, rfl⟩ := appendSnapshotBytes_ok.mp keyed
    obtain ⟨whole, valued, accepted⟩ := bind_ok accepted
    obtain ⟨fits, rfl⟩ := (appendSnapshotValue_ok entry.value).mp valued
    rw [shape, writtenEntry_length] at accepted
    split at accepted
    · cases accepted
    next bounded =>
      cases accepted
      exact ⟨⟨short, fits, Nat.not_lt.mp bounded⟩, rfl⟩
  · rintro ⟨⟨short, fits, bounded⟩, rfl⟩
    have keyed : appendSnapshotBytes [] key = .ok ([] ++ lengthPrefixed key) := appendSnapshotBytes_ok.mpr ⟨short, rfl⟩
    have valued : appendSnapshotValue ([] ++ lengthPrefixed key ++ writeU64Be (entry.expiresAt.getD 0)) entry.value =
        .ok (writtenEntry key entry) := (appendSnapshotValue_ok entry.value).mpr ⟨fits, shape.symm⟩
    simp only [encodeSnapshotEntry, keyed, valued, bind, Except.bind, writtenEntry_length, gt_iff_lt,
      Nat.not_lt.mpr bounded, if_false]
    rfl

def writtenEffect : CommittedEffect → Bytes
  | .put key entry => effectPut :: lengthPrefixed (writtenEntry key entry)
  | .delete key => effectDelete :: lengthPrefixed key

/-- The bytes of an effect in a batch. -/
def effectSize : CommittedEffect → Nat
  | .put key entry => 5 + entrySize key entry
  | .delete key => 5 + key.length

theorem writtenEffect_length (effect : CommittedEffect) : (writtenEffect effect).length = effectSize effect := by
  cases effect with
  | put key entry =>
      rw [writtenEffect, List.length_cons, lengthPrefixed_length, writtenEntry_length, effectSize]
      omega
  | delete key =>
      rw [writtenEffect, List.length_cons, lengthPrefixed_length, effectSize]
      omega

/-- The limits of the format on a single effect. -/
def EffectFits : CommittedEffect → Prop
  | .put key entry => (key.length < 2 ^ 32 ∧ ValueFits entry.value ∧ entrySize key entry ≤ maxSnapshotRecordSize) ∧
      entrySize key entry < 2 ^ 32
  | .delete key => key.length < 2 ^ 32

theorem appendEffect_ok (record : Bytes) (effect : CommittedEffect) (encoded : Bytes) :
    appendEffect record effect = .ok encoded ↔ EffectFits effect ∧ encoded = record ++ writtenEffect effect := by
  cases effect with
  | put key entry =>
      constructor
      · intro accepted
        obtain ⟨payload, encodes, accepted⟩ := bind_ok accepted
        obtain ⟨fits, rfl⟩ := encodeSnapshotEntry_ok.mp encodes
        obtain ⟨short, shape⟩ := (appendTagged_ok effectPut).mp accepted
        rw [writtenEntry_length] at short
        exact ⟨⟨fits, short⟩, shape⟩
      · rintro ⟨⟨fits, short⟩, rfl⟩
        rw [← writtenEntry_length] at short
        simp only [appendEffect, encodeSnapshotEntry_ok.mpr ⟨fits, rfl⟩, bind, Except.bind]
        exact (appendTagged_ok effectPut).mpr ⟨short, rfl⟩
  | delete key => exact appendTagged_ok effectDelete

/-- The bytes of an encoded batch. -/
def batchSize (batch : CommittedBatch) : Nat := 4 + (batch.effects.map effectSize).sum

/-- An effect within the limit of a record is within all limits of the format. -/
theorem effectFits_of_size {effect : CommittedEffect} (small : effectSize effect ≤ maxBinlogRecordSize) :
    EffectFits effect := by
  have limit : maxBinlogRecordSize < 2 ^ 32 := by decide
  have same : maxSnapshotRecordSize = maxBinlogRecordSize := rfl
  cases effect with
  | put key entry =>
      simp only [effectSize, entrySize] at small
      simp only [EffectFits, entrySize]
      exact ⟨⟨by omega, valueFits_of_size (by omega), by omega⟩, by omega⟩
  | delete key =>
      simp only [effectSize] at small
      simp only [EffectFits]
      omega

def writtenBatch (batch : CommittedBatch) : Bytes :=
  writeU32Be batch.effects.length ++ batch.effects.flatMap writtenEffect

theorem writtenBatch_length (batch : CommittedBatch) : (writtenBatch batch).length = batchSize batch := by
  simp only [writtenBatch, List.length_append, writeU32Be_length, List.length_flatMap, writtenEffect_length, batchSize]

/-- The encoder accepts the batches with effects whose size is within the limit. -/
theorem encodeCommittedBatch_ok {batch : CommittedBatch} {payload : Bytes} :
    encodeCommittedBatch batch = .ok payload ↔
      (batch.effects ≠ [] ∧ batchSize batch ≤ maxBinlogRecordSize) ∧ payload = writtenBatch batch := by
  have size := writtenBatch_length batch
  unfold writtenBatch at size ⊢
  constructor
  · intro accepted
    unfold encodeCommittedBatch at accepted
    split at accepted
    · cases accepted
    next filled =>
      obtain ⟨count, counted, accepted⟩ := bind_ok accepted
      obtain ⟨few, rfl⟩ := collectionCount_ok.mp counted
      obtain ⟨encoded, folded, accepted⟩ := bind_ok accepted
      obtain ⟨_, rfl⟩ := (foldlM_append_ok appendEffect_ok _ _ _).mp folded
      rw [size] at accepted
      split at accepted
      · cases accepted
      next bounded =>
        cases accepted
        rw [List.isEmpty_iff] at filled
        exact ⟨⟨filled, Nat.not_lt.mp bounded⟩, rfl⟩
  · rintro ⟨⟨filled, bounded⟩, rfl⟩
    have filled : batch.effects.isEmpty = false := by
      rw [List.isEmpty_eq_false_iff]
      exact filled
    have total : (batch.effects.flatMap writtenEffect).length ≤ maxBinlogRecordSize := by
      rw [← size, List.length_append] at bounded
      omega
    have wide (effect : CommittedEffect) : 0 < (writtenEffect effect).length := by
      rw [writtenEffect_length]
      cases effect <;> simp only [effectSize] <;> omega
    have few : batch.effects.length < 2 ^ 32 :=
      ((length_le_flatMap writtenEffect wide batch.effects).trans total).trans_lt (by decide)
    have each : ∀ effect ∈ batch.effects, EffectFits effect := by
      intro effect member
      have within := written_le_flatMap writtenEffect member
      rw [writtenEffect_length] at within
      exact effectFits_of_size (within.trans total)
    have counted : collectionCount batch.effects.length "Committed-effect batch is too large" =
        .ok batch.effects.length := collectionCount_ok.mpr ⟨few, rfl⟩
    have folded := (foldlM_append_ok appendEffect_ok batch.effects (writeU32Be batch.effects.length) _).mpr ⟨each, rfl⟩
    simp only [encodeCommittedBatch, filled, Bool.false_eq_true, if_false, counted, folded, bind, Except.bind, size,
      gt_iff_lt, Nat.not_lt.mpr bounded]
    rfl

theorem encodeCommittedBatch_length {batch : CommittedBatch} {payload : Bytes}
    (encoded : encodeCommittedBatch batch = .ok payload) : payload.length = batchSize batch := by
  rw [(encodeCommittedBatch_ok.mp encoded).2, writtenBatch_length]

/-- The encoder and the length check of a framed record accept the batch. -/
def Accepted (batch : CommittedBatch) : Prop :=
  ∃ payload length, encodeCommittedBatch batch = .ok payload ∧
    framedVersionedBinlogRecordLength payload.length = .ok length

/-- A batch is accepted exactly when it has an effect and its record is within the limit. -/
theorem accepted_iff (batch : CommittedBatch) :
    Accepted batch ↔ batch.effects ≠ [] ∧ 20 + batchSize batch ≤ maxBinlogRecordSize := by
  constructor
  · rintro ⟨payload, length, encoded, framed⟩
    obtain ⟨recordLength, measured, _⟩ := bind_ok framed
    have bounded := (versionedBinlogRecordLength_ok measured).2.1
    rw [encodeCommittedBatch_length encoded] at bounded
    exact ⟨(encodeCommittedBatch_ok.mp encoded).1.1, bounded⟩
  · rintro ⟨filled, bounded⟩
    have encoded := (@encodeCommittedBatch_ok _ batch _).mpr ⟨⟨filled, by omega⟩, rfl⟩
    have measured := versionedBinlogRecordLength_eq Nat.one_ne_zero
      ((encodeCommittedBatch_length encoded).symm ▸ bounded)
    have framed : framedVersionedBinlogRecordLength _ = .ok _ := congrArg (· >>= fun length =>
      pure (length + binlogRecordLengthSize)) measured
    exact ⟨_, _, encoded, framed⟩

end Batches

end OnyxDB.Persistence.Codec
