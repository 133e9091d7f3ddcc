import OnyxDB.Persistence.Codec

/-! What the decoder makes of an encoded entry or batch. Everything but JSON documents comes back as
it was written; a document comes back as the parser reads its text. -/

namespace OnyxDB.Persistence.Codec
open OnyxDB.Engine OnyxDB.Engine.Value OnyxDB.Library.BigEndian OnyxDB.Persistence.Model
  OnyxDB.Persistence.Record

/-- A byte string as the codec writes it. -/
def lengthPrefixed (bytes : Bytes) : Bytes := writeU32Be bytes.length ++ bytes

theorem appendSnapshotBytes_ok {record bytes encoded : Bytes} :
    appendSnapshotBytes record bytes = .ok encoded ↔
      bytes.length < 2 ^ 32 ∧ encoded = record ++ lengthPrefixed bytes := by
  unfold appendSnapshotBytes checkedU32Length
  by_cases small : bytes.length < 2 ^ 32
  · rw [if_pos small, and_iff_right small, lengthPrefixed, ← List.append_assoc]
    constructor
    · intro same
      cases same
      rfl
    · rintro rfl
      rfl
  · rw [if_neg small]
    constructor
    · intro impossible
      cases impossible
    · intro fits
      exact absurd fits.1 small

theorem readSnapshotBytes_lengthPrefixed {bytes : Bytes} (small : bytes.length < 2 ^ 32)
    (rest : Bytes) : readSnapshotBytes (lengthPrefixed bytes ++ rest) = some (bytes, rest) := by
  have enough : ¬ (bytes ++ rest).length < bytes.length := by simp
  simp only [readSnapshotBytes, lengthPrefixed, List.append_assoc, readU32Be_writeU32Be small,
    Option.bind_eq_bind, Option.bind_some, enough, if_false]
  rw [List.take_left, List.drop_left]

/-- A fold that only appends: it succeeds exactly when every item fits. -/
theorem foldlM_append_ok {α : Type} {append : Bytes → α → Except PersistenceError Bytes}
    {fits : α → Prop} {written : α → Bytes}
    (step : ∀ record item encoded, append record item = .ok encoded ↔
      fits item ∧ encoded = record ++ written item) (items : List α) (record encoded : Bytes) :
    items.foldlM append record = .ok encoded ↔
      (∀ item ∈ items, fits item) ∧ encoded = record ++ items.flatMap written := by
  induction items generalizing record with
  | nil =>
      simp only [List.foldlM_nil, pure, Except.pure, Except.ok.injEq, List.flatMap_nil, List.append_nil]
      constructor
      · intro same
        exact ⟨by simp, same.symm⟩
      · intro same
        exact same.2.symm
  | cons item items rest =>
      rw [List.foldlM_cons]
      cases appended : append record item with
      | error failure =>
          have unfit : ¬ fits item := by
            intro fit
            rw [(step record item _).mpr ⟨fit, rfl⟩] at appended
            cases appended
          simp [bind, Except.bind, unfit]
      | ok longer =>
          obtain ⟨fit, rfl⟩ := (step record item longer).mp appended
          simp only [bind, Except.bind, rest, List.forall_mem_cons, fit, true_and, List.flatMap_cons,
            List.append_assoc]

theorem readSnapshotValues_written (values : List Bytes)
    (small : ∀ value ∈ values, value.length < 2 ^ 32) (rest : Bytes) :
    readSnapshotValues values.length (values.flatMap lengthPrefixed ++ rest) = .ok (values, rest) := by
  induction values with
  | nil => rfl
  | cons value values later =>
      have here := readSnapshotBytes_lengthPrefixed (small value List.mem_cons_self)
        (values.flatMap lengthPrefixed ++ rest)
      have others := later (fun value member => small value (List.mem_cons_of_mem _ member))
      simp only [List.length_cons, List.flatMap_cons, List.append_assoc, readSnapshotValues, here, others,
        bind, Except.bind, pure, Except.pure]

theorem lengthPrefixed_length (bytes : Bytes) : (lengthPrefixed bytes).length = 4 + bytes.length := by
  simp [lengthPrefixed]

/-- Items of at least `width` bytes each pass the bound that the decoder sets on their count. -/
theorem count_le_flatMap {α : Type} (written : α → Bytes) {width : Nat} (positive : 0 < width)
    (wide : ∀ item, width ≤ (written item).length) (items : List α) (rest : Bytes) :
    items.length ≤ (items.flatMap written ++ rest).length / width := by
  rw [Nat.le_div_iff_mul_le positive, List.length_append]
  induction items with
  | nil => simp
  | cons item items later =>
      have here := wide item
      simp only [List.length_cons, List.flatMap_cons, List.length_append, Nat.add_mul, Nat.one_mul]
      omega

theorem readValues_written {values : List Bytes} (count : values.length < 2 ^ 32)
    (small : ∀ value ∈ values, value.length < 2 ^ 32) (rest : Bytes) :
    readValues (writeU32Be values.length ++ (values.flatMap lengthPrefixed ++ rest)) =
      .ok (values, rest) := by
  have bound := count_le_flatMap lengthPrefixed (by decide : 0 < 4)
    (fun bytes => by rw [lengthPrefixed_length]; omega) values rest
  simp only [readValues, readU32Be_writeU32Be count, gt_iff_lt, Nat.not_lt.mpr bound, if_false,
    readSnapshotValues_written values small]

/-- A field of a hash as the codec writes it. -/
def writtenField (field : Sigma fun _ : Bytes => Bytes) : Bytes :=
  lengthPrefixed field.1 ++ lengthPrefixed field.2

theorem appendHashField_ok (record : Bytes) (field : Sigma fun _ : Bytes => Bytes) (encoded : Bytes) :
    appendHashField record field = .ok encoded ↔
      (field.1.length < 2 ^ 32 ∧ field.2.length < 2 ^ 32) ∧ encoded = record ++ writtenField field := by
  unfold appendHashField
  cases first : appendSnapshotBytes record field.1 with
  | error failure =>
      have long : ¬ field.1.length < 2 ^ 32 := by
        intro small
        rw [appendSnapshotBytes_ok.mpr ⟨small, rfl⟩] at first
        cases first
      simp only [bind, Except.bind, long, false_and, reduceCtorEq]
  | ok longer =>
      obtain ⟨small, rfl⟩ := appendSnapshotBytes_ok.mp first
      simp only [bind, Except.bind, appendSnapshotBytes_ok, small, true_and, writtenField,
        List.append_assoc]

/-- Reading distinct fields puts them after the ones already there. -/
theorem readHashFields_written (fields : List (Sigma fun _ : Bytes => Bytes)) (values : HashMap)
    (distinct : (values.entries ++ fields).NodupKeys)
    (small : ∀ field ∈ fields, field.1.length < 2 ^ 32 ∧ field.2.length < 2 ^ 32) (rest : Bytes) :
    readHashFields fields.length values (fields.flatMap writtenField ++ rest) =
      .ok (⟨values.entries ++ fields, distinct⟩, rest) := by
  induction fields generalizing values with
  | nil =>
      simp only [List.length_nil, readHashFields, List.flatMap_nil, List.nil_append, Except.ok.injEq,
        Prod.mk.injEq, and_true]
      ext1
      simp
  | cons field fields later =>
      obtain ⟨smallKey, smallValue⟩ := small field List.mem_cons_self
      have absent : field.1 ∉ values.entries.keys := by
        intro present
        have apart := distinct
        simp only [List.NodupKeys, List.keys, List.map_append, List.map_cons, List.nodup_append] at apart
        exact apart.2.2 field.1 present field.1 List.mem_cons_self rfl
      have inserted : (values.insert field.1 field.2).2.entries = values.entries ++ [field] := by
        simp only [HashMap.insert, absent, not_false_eq_true, dite_true]
      have apart : ((values.insert field.1 field.2).2.entries ++ fields).NodupKeys := by
        rw [inserted, List.append_assoc]
        exact distinct
      have others := later (values.insert field.1 field.2).2 apart
        (fun field member => small field (List.mem_cons_of_mem _ member))
      simp only [List.length_cons, List.flatMap_cons, writtenField, List.append_assoc, readHashFields,
        readSnapshotBytes_lengthPrefixed smallKey, readSnapshotBytes_lengthPrefixed smallValue]
      rw [others]
      simp only [inserted, List.append_assoc, List.singleton_append]

/-- Collecting distinct members gives them back in order. -/
theorem foldl_insert_members (members : List Bytes) (set : HashSet)
    (distinct : (set.members ++ members).Nodup) :
    members.foldl (fun set member => (set.insert member).2) set = ⟨set.members ++ members, distinct⟩ := by
  induction members generalizing set with
  | nil => simp
  | cons member members later =>
      have absent : member ∉ set.members := by
        intro present
        exact (List.nodup_append.mp distinct).2.2 member present member List.mem_cons_self rfl
      have inserted : (set.insert member).2.members = set.members ++ [member] := by
        simp only [HashSet.insert, absent, not_false_eq_true, dite_true]
      have apart : ((set.insert member).2.members ++ members).Nodup := by
        rw [inserted, List.append_assoc]
        exact distinct
      rw [List.foldl_cons, later _ apart]
      simp only [inserted, List.append_assoc, List.singleton_append]

/-- A component of a vector as the codec writes it. -/
def writtenComponent (component : F32) : Bytes := writeU32Be component.bits.toNat

theorem readComponents_written (components : List F32) (rest : Bytes) :
    readComponents components.length (components.flatMap writtenComponent ++ rest) = components := by
  induction components with
  | nil => rfl
  | cons component components later =>
      have width : (writeU32Be component.bits.toNat).length = 4 := writeU32Be_length _
      have value : ofBigEndian (writeU32Be component.bits.toNat) = component.bits.toNat :=
        ofBigEndian_toBigEndian_of_lt (component.bits.toNat_lt.trans_le (by decide))
      simp only [List.length_cons, List.flatMap_cons, writtenComponent, List.append_assoc, readComponents,
        List.take_left' width, List.drop_left' width, value, UInt32.ofNat_toNat]
      rw [later]

theorem flatMap_writtenComponent_length (components : List F32) :
    (components.flatMap writtenComponent).length = components.length * 4 := by
  induction components with
  | nil => rfl
  | cons component components later =>
      simp only [List.flatMap_cons, List.length_append, writtenComponent, writeU32Be_length,
        List.length_cons] at *
      omega

theorem collectionCount_ok {length count : Nat} {tooLarge : String} :
    collectionCount length tooLarge = .ok count ↔ length < 2 ^ 32 ∧ count = length := by
  unfold collectionCount
  split
  next small =>
    rw [and_iff_right small, Except.ok.injEq]
    exact eq_comm
  next large =>
    constructor
    · intro impossible
      cases impossible
    · intro fits
      exact absurd fits.1 large

theorem bind_ok {α β : Type} {first : Except PersistenceError α} {next : α → Except PersistenceError β}
    {result : β} (succeeds : first >>= next = .ok result) :
    ∃ value, first = .ok value ∧ next value = .ok result := by
  cases first with
  | error failure => cases succeeds
  | ok value => exact ⟨value, rfl, succeeds⟩

section Decoded
variable [Platform]

/-- What the decoder makes of a value. -/
def readBackValue : OnyxValue → Except PersistenceError OnyxValue
  | .json document =>
      match Platform.jsonFromSlice (utf8Bytes (Platform.jsonToString document)) with
      | .ok document => .ok (.json document)
      | .error message => .error (.new message)
  | value => .ok value

/-- Decoding undoes encoding up to the text of a JSON document. -/
theorem decodeSnapshotValue_written {record encoded : Bytes} {value : OnyxValue}
    (written : appendSnapshotValue record value = .ok encoded) :
    ∃ tag body, encoded = record ++ tag :: body ∧
      ∀ rest, decodeSnapshotValue tag (body ++ rest) = (readBackValue value).map (·, rest) := by
  have wide (bytes : Bytes) : 4 ≤ (lengthPrefixed bytes).length := by
    rw [lengthPrefixed_length]
    omega
  have appendsBytes (record bytes encoded : Bytes) : appendSnapshotBytes record bytes = .ok encoded ↔
      bytes.length < 2 ^ 32 ∧ encoded = record ++ lengthPrefixed bytes := appendSnapshotBytes_ok
  cases value with
  | blob value =>
      obtain ⟨small, rfl⟩ := appendSnapshotBytes_ok.mp written
      refine ⟨1, lengthPrefixed value, by simp, ?_⟩
      intro rest
      simp only [decodeSnapshotValue, readSnapshotBytes_lengthPrefixed small]
      rfl
  | int value =>
      cases written
      refine ⟨2, writeU64Be value.toUInt64.toNat, by simp, ?_⟩
      intro rest
      simp only [decodeSnapshotValue, readU64Be_writeU64Be value.toUInt64.toNat_lt]
      simp [orError, readBackValue, bind, Except.bind, Except.map, pure, Except.pure]
  | float value =>
      cases written
      refine ⟨3, writeU64Be value.bits.toNat, by simp, ?_⟩
      intro rest
      simp only [decodeSnapshotValue, readU64Be_writeU64Be value.bits.toNat_lt]
      simp [orError, readBackValue, bind, Except.bind, Except.map, pure, Except.pure]
  | list values =>
      obtain ⟨count, counted, written⟩ := bind_ok written
      obtain ⟨few, rfl⟩ := collectionCount_ok.mp counted
      obtain ⟨small, rfl⟩ := (foldlM_append_ok appendsBytes _ _ _).mp written
      refine ⟨4, writeU32Be values.length ++ values.flatMap lengthPrefixed, by simp, ?_⟩
      intro rest
      simp only [decodeSnapshotValue, List.append_assoc, readValues_written few small]
      rfl
  | hash values =>
      obtain ⟨count, counted, written⟩ := bind_ok written
      obtain ⟨few, rfl⟩ := collectionCount_ok.mp counted
      obtain ⟨small, rfl⟩ := (foldlM_append_ok appendHashField_ok _ _ _).mp written
      refine ⟨5, writeU32Be values.entries.length ++ values.entries.flatMap writtenField, by simp, ?_⟩
      intro rest
      have bound := count_le_flatMap writtenField (by decide : 0 < 8) (fun field => by
        have first := wide field.1
        have second := wide field.2
        rw [writtenField, List.length_append]
        omega) values.entries rest
      have fields := readHashFields_written values.entries ∅ values.nodupKeys small rest
      simp only [decodeSnapshotValue, List.append_assoc, readU32Be_writeU32Be few, orError,
        bind, Except.bind, gt_iff_lt, Nat.not_lt.mpr bound, if_false, pure, Except.pure, fields]
      rfl
  | set values =>
      obtain ⟨count, counted, written⟩ := bind_ok written
      obtain ⟨few, rfl⟩ := collectionCount_ok.mp counted
      obtain ⟨small, rfl⟩ := (foldlM_append_ok appendsBytes _ _ _).mp written
      refine ⟨6, writeU32Be values.members.length ++ values.members.flatMap lengthPrefixed, by simp, ?_⟩
      intro rest
      have members := foldl_insert_members values.members .empty values.nodup
      simp only [decodeSnapshotValue, List.append_assoc, readValues_written few small, bind, Except.bind,
        members]
      rfl
  | json document =>
      obtain ⟨small, rfl⟩ := appendSnapshotBytes_ok.mp written
      refine ⟨7, lengthPrefixed (utf8Bytes (Platform.jsonToString document)), by simp, ?_⟩
      intro rest
      simp only [decodeSnapshotValue, readSnapshotBytes_lengthPrefixed small, orError, bind, Except.bind,
        readBackValue]
      cases Platform.jsonFromSlice (utf8Bytes (Platform.jsonToString document)) <;> rfl
  | vector values =>
      obtain ⟨count, counted, written⟩ := bind_ok written
      obtain ⟨few, rfl⟩ := collectionCount_ok.mp counted
      cases written
      refine ⟨8, writeU32Be values.length ++ values.flatMap writtenComponent, ?_, ?_⟩
      · simp only [List.append_assoc, List.singleton_append]
        rfl
      intro rest
      have width := flatMap_writtenComponent_length values
      have enough : ¬ (values.flatMap writtenComponent ++ rest).length < values.length * 4 := by
        rw [List.length_append, width]
        omega
      simp only [decodeSnapshotValue, List.append_assoc, readU32Be_writeU32Be few, orError, bind,
        Except.bind, enough, if_false, pure, Except.pure, readComponents_written,
        List.drop_left' width]
      rfl

/-- An expiry that the codec can represent: zero stands for none, and the field has 64 bits. -/
def Storable (entry : PersistentEntry) : Prop :=
  ∀ expiry ∈ entry.expiresAt, 0 < expiry ∧ expiry < 2 ^ 64

def readBackEntry (entry : PersistentEntry) : Except PersistenceError PersistentEntry :=
  (readBackValue entry.value).map (fun value => ⟨value, entry.expiresAt⟩)

theorem decodeSnapshotEntry_written {key record : Bytes} {entry : PersistentEntry}
    (storable : Storable entry) (written : encodeSnapshotEntry key entry = .ok record) :
    decodeSnapshotEntry record = (readBackEntry entry).map (key, ·) := by
  obtain ⟨opening, keyed, written⟩ := bind_ok written
  obtain ⟨small, rfl⟩ := appendSnapshotBytes_ok.mp keyed
  obtain ⟨whole, valued, written⟩ := bind_ok written
  have same : whole = record := by
    split at written
    · cases written
    · cases written
      rfl
  subst same
  obtain ⟨tag, body, rfl, reads⟩ := decodeSnapshotValue_written valued
  have bounded : entry.expiresAt.getD 0 < 2 ^ 64 := by
    cases expires : entry.expiresAt with
    | none => simp
    | some expiry => exact (storable expiry expires).2
  have expiry : (if entry.expiresAt.getD 0 = 0 then none else some (entry.expiresAt.getD 0)) =
      entry.expiresAt := by
    cases expires : entry.expiresAt with
    | none => simp
    | some expiry =>
        have positive := (storable expiry expires).1
        simp only [Option.getD_some]
        rw [if_neg (by omega)]
  have value := reads []
  rw [List.append_nil] at value
  simp only [decodeSnapshotEntry, List.nil_append, List.append_assoc,
    readSnapshotBytes_lengthPrefixed small, readU64Be_writeU64Be bounded, orError, bind, Except.bind,
    List.head?_cons, Option.map_some, List.tail_cons, value, readBackEntry]
  cases readBackValue entry.value with
  | error failure => rfl
  | ok decoded => simp [Except.map, pure, Except.pure, expiry]

def readBackEffect : CommittedEffect → Except PersistenceError CommittedEffect
  | .put key entry => (readBackEntry entry).map (.put key)
  | .delete key => .ok (.delete key)

/-- The effects of a batch whose expiries can be represented. -/
def StorableEffect : CommittedEffect → Prop
  | .put _ entry => Storable entry
  | .delete _ => True

theorem decodeEffects_written {effects : List CommittedEffect}
    (storable : ∀ effect ∈ effects, StorableEffect effect) {record encoded : Bytes}
    (written : effects.foldlM appendEffect record = .ok encoded) :
    ∃ body, encoded = record ++ body ∧ 5 * effects.length ≤ body.length ∧ ∀ rest,
      decodeEffects effects.length (body ++ rest) = (effects.mapM readBackEffect).map (·, rest) := by
  induction effects generalizing record with
  | nil =>
      cases written
      exact ⟨[], by simp, by simp, fun rest => rfl⟩
  | cons effect effects later =>
      rw [List.foldlM_cons] at written
      obtain ⟨middle, appended, written⟩ := bind_ok written
      obtain ⟨body, rfl, wide, reads⟩ :=
        later (fun effect member => storable effect (List.mem_cons_of_mem _ member)) written
      have here := storable effect List.mem_cons_self
      cases effect with
      | put key entry =>
          obtain ⟨payload, encodes, appended⟩ := bind_ok appended
          obtain ⟨small, rfl⟩ := appendSnapshotBytes_ok.mp appended
          refine ⟨effectPut :: (lengthPrefixed payload ++ body), by simp, ?_, ?_⟩
          · simp only [List.length_cons, List.length_append, lengthPrefixed_length]
            omega
          · intro rest
            simp only [List.length_cons, List.cons_append, List.append_assoc, decodeEffects,
              List.head?_cons, Option.map_some, List.tail_cons, orError,
              readSnapshotBytes_lengthPrefixed small, bind, Except.bind, if_true,
              decodeSnapshotEntry_written here encodes, reads, List.mapM_cons, readBackEffect]
            cases readBackEntry entry with
            | error failure => rfl
            | ok decoded => cases effects.mapM readBackEffect <;> rfl
      | delete key =>
          obtain ⟨small, rfl⟩ := appendSnapshotBytes_ok.mp appended
          refine ⟨effectDelete :: (lengthPrefixed key ++ body), by simp, ?_, ?_⟩
          · simp only [List.length_cons, List.length_append, lengthPrefixed_length]
            omega
          · intro rest
            have other : effectDelete ≠ effectPut := by decide
            simp only [List.length_cons, List.cons_append, List.append_assoc, decodeEffects,
              List.head?_cons, Option.map_some, List.tail_cons, orError,
              readSnapshotBytes_lengthPrefixed small, bind, Except.bind, other, if_true, if_false, reads,
              List.mapM_cons, readBackEffect]
            cases effects.mapM readBackEffect <;> rfl

def readBackBatch (batch : CommittedBatch) : Except PersistenceError CommittedBatch :=
  (batch.effects.mapM readBackEffect).map CommittedBatch.mk

theorem mapM_readBackEffect_length {effects decoded : List CommittedEffect}
    (succeeds : effects.mapM readBackEffect = .ok decoded) : decoded.length = effects.length := by
  induction effects generalizing decoded with
  | nil =>
      cases succeeds
      rfl
  | cons effect effects later =>
      rw [List.mapM_cons] at succeeds
      obtain ⟨first, _, succeeds⟩ := bind_ok succeeds
      obtain ⟨others, read, succeeds⟩ := bind_ok succeeds
      cases succeeds
      simp [later read]

/-- The decoder reads a batch back as its effects are read back, one by one. -/
theorem decodeCommittedBatch_written {batch : CommittedBatch} {payload : Bytes}
    (storable : ∀ effect ∈ batch.effects, StorableEffect effect)
    (written : encodeCommittedBatch batch = .ok payload) :
    decodeCommittedBatch payload = readBackBatch batch := by
  unfold encodeCommittedBatch at written
  split at written
  · cases written
  next nonempty =>
    obtain ⟨count, counted, written⟩ := bind_ok written
    obtain ⟨few, rfl⟩ := collectionCount_ok.mp counted
    obtain ⟨encoded, folded, written⟩ := bind_ok written
    have same : encoded = payload := by
      split at written
      · cases written
      · cases written
        rfl
    subst same
    obtain ⟨body, rfl, wide, reads⟩ := decodeEffects_written storable folded
    have some_effects : batch.effects.length ≠ 0 := by
      intro none_left
      rw [List.length_eq_zero_iff] at none_left
      simp [none_left] at nonempty
    have bound : ¬ batch.effects.length > body.length / 5 := by
      rw [gt_iff_lt, Nat.not_lt, Nat.le_div_iff_mul_le (by decide)]
      omega
    have whole := reads []
    rw [List.append_nil] at whole
    simp only [decodeCommittedBatch, readU32Be_writeU32Be few, orError, bind, Except.bind, some_effects,
      if_false, bound, whole, readBackBatch]
    cases decoded : batch.effects.mapM readBackEffect with
    | error failure => rfl
    | ok effects =>
        have kept : effects.isEmpty = false := by
          have length := mapM_readBackEffect_length decoded
          cases effects with
          | nil => exact absurd length.symm some_effects
          | cons => rfl
        simp [Except.map, CommittedBatch.new, kept]

/-- The nesting that `serde_json` parses. -/
def maxJsonDepth : Nat := 127

/-- `serde_json` on one document: it writes any nesting and reads back the nesting it parses. -/
structure JsonLaw (document : Json) : Prop where
  inverts : document.depth ≤ maxJsonDepth →
    Platform.jsonFromSlice (utf8Bytes (Platform.jsonToString document)) = .ok document
  rejects : maxJsonDepth < document.depth →
    ∃ message, Platform.jsonFromSlice (utf8Bytes (Platform.jsonToString document)) = .error message

end Decoded

/-- The JSON documents that a batch puts. -/
def CommittedBatch.documents (batch : CommittedBatch) : List Json :=
  batch.effects.filterMap (fun effect =>
    match effect with
    | .put _ ⟨.json document, _⟩ => some document
    | _ => none)

/-- No document of the batch is nested deeper than the parser goes. -/
def Shallow (batch : CommittedBatch) : Prop :=
  ∀ document ∈ CommittedBatch.documents batch, document.depth ≤ maxJsonDepth

theorem documents_cons (effect : CommittedEffect) (effects : List CommittedEffect) :
    CommittedBatch.documents ⟨effect :: effects⟩ =
      CommittedBatch.documents ⟨[effect]⟩ ++ CommittedBatch.documents ⟨effects⟩ := by
  rw [CommittedBatch.documents, CommittedBatch.documents, CommittedBatch.documents,
    ← List.filterMap_append, List.singleton_append]

theorem shallow_cons {effect : CommittedEffect} {effects : List CommittedEffect} :
    Shallow ⟨effect :: effects⟩ ↔ Shallow ⟨[effect]⟩ ∧ Shallow ⟨effects⟩ := by
  rw [Shallow, documents_cons, List.forall_mem_append]
  rfl

section Readable
variable [Platform]

/-- A document that `serde_json` reads back leaves an entry as it was written. -/
theorem readBackEntry_inverts {entry : PersistentEntry}
    (inverts : ∀ document, entry.value = .json document →
      Platform.jsonFromSlice (utf8Bytes (Platform.jsonToString document)) = .ok document) :
    readBackEntry entry = .ok entry := by
  obtain ⟨value, expiresAt⟩ := entry
  cases value with
  | json document =>
      rw [readBackEntry, readBackValue, inverts document rfl]
      rfl
  | _ => rfl

theorem readBackBatch_inverts {batch : CommittedBatch}
    (inverts : ∀ document ∈ CommittedBatch.documents batch,
      Platform.jsonFromSlice (utf8Bytes (Platform.jsonToString document)) = .ok document) :
    readBackBatch batch = .ok batch := by
  obtain ⟨effects⟩ := batch
  suffices mapped : effects.mapM readBackEffect = .ok effects by
    simp only [readBackBatch, mapped]
    rfl
  induction effects with
  | nil => rfl
  | cons effect effects later =>
      rw [documents_cons] at inverts
      have others := later (fun document member => inverts document (List.mem_append_right _ member))
      have here : readBackEffect effect = .ok effect := by
        cases effect with
        | delete key => rfl
        | put key entry =>
            rw [readBackEffect, readBackEntry_inverts]
            · rfl
            · intro document stored
              obtain ⟨value, expiresAt⟩ := entry
              obtain rfl : value = .json document := stored
              exact inverts document (List.mem_append_left _ (List.mem_singleton_self document))
      rw [List.mapM_cons, here, others]
      rfl

theorem readBackEffect_shallow {effect : CommittedEffect}
    (law : ∀ document ∈ CommittedBatch.documents ⟨[effect]⟩, JsonLaw document) :
    (Shallow ⟨[effect]⟩ → readBackEffect effect = .ok effect) ∧
      (¬ Shallow ⟨[effect]⟩ → ∃ failure, readBackEffect effect = .error failure) := by
  have flat {effect : CommittedEffect} (none_put : CommittedBatch.documents ⟨[effect]⟩ = []) :
      Shallow ⟨[effect]⟩ := by
    rw [Shallow, none_put]
    simp
  cases effect with
  | delete key => exact ⟨fun _ => rfl, fun deep => absurd (flat rfl) deep⟩
  | put key entry =>
      obtain ⟨value, expiresAt⟩ := entry
      cases value with
      | json document =>
          have documents : CommittedBatch.documents ⟨[.put key ⟨.json document, expiresAt⟩]⟩ = [document] := rfl
          have one := law document (by rw [documents]; exact List.mem_singleton_self _)
          have depth : Shallow ⟨[.put key ⟨.json document, expiresAt⟩]⟩ ↔
              document.depth ≤ maxJsonDepth := by
            rw [Shallow, documents, List.forall_mem_singleton]
          rw [depth, Nat.not_le]
          constructor
          · intro fits
            simp only [readBackEffect, readBackEntry, readBackValue, one.inverts fits]
            rfl
          · intro deep
            obtain ⟨message, refused⟩ := one.rejects deep
            refine ⟨.new message, ?_⟩
            simp only [readBackEffect, readBackEntry, readBackValue, refused]
            rfl
      | _ => exact ⟨fun _ => rfl, fun deep => absurd (flat rfl) deep⟩

/-- A batch is read back as it was written exactly when its documents are shallow; else not at all. -/
theorem readBackBatch_shallow {batch : CommittedBatch}
    (law : ∀ document ∈ CommittedBatch.documents batch, JsonLaw document) :
    (Shallow batch → readBackBatch batch = .ok batch) ∧
      (¬ Shallow batch → ∃ failure, readBackBatch batch = .error failure) := by
  obtain ⟨effects⟩ := batch
  suffices mapped : (Shallow ⟨effects⟩ → effects.mapM readBackEffect = .ok effects) ∧
      (¬ Shallow ⟨effects⟩ → ∃ failure, effects.mapM readBackEffect = .error failure) by
    constructor
    · intro shallow
      simp only [readBackBatch, mapped.1 shallow]
      rfl
    · intro deep
      obtain ⟨failure, refused⟩ := mapped.2 deep
      refine ⟨failure, ?_⟩
      simp only [readBackBatch, refused]
      rfl
  induction effects with
  | nil => exact ⟨fun _ => rfl, fun deep => absurd (by simp [Shallow, CommittedBatch.documents]) deep⟩
  | cons effect effects later =>
      rw [documents_cons] at law
      have here := readBackEffect_shallow (fun document member => law document (List.mem_append_left _ member))
      have others := later (fun document member => law document (List.mem_append_right _ member))
      rw [shallow_cons, List.mapM_cons]
      constructor
      · intro shallow
        rw [here.1 shallow.1, others.1 shallow.2]
        rfl
      · intro deep
        by_cases first : Shallow ⟨[effect]⟩
        · obtain ⟨failure, refused⟩ := others.2 (fun rest => deep ⟨first, rest⟩)
          exact ⟨failure, by rw [here.1 first, refused]; rfl⟩
        · obtain ⟨failure, refused⟩ := here.2 first
          exact ⟨failure, by rw [refused]; rfl⟩

end Readable

end OnyxDB.Persistence.Codec
