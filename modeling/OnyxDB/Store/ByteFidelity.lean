import OnyxDB.Engine.Confinement
import OnyxDB.Engine.Reference
import OnyxDB.Store.GlobSpec

/-! What the commands on strings do to the bytes of a value. The commands work on text; a value may hold any
bytes, since the binary protocol stores what it is sent. -/

namespace OnyxDB.Store
open OnyxDB.Library OnyxDB.Library.Decimal OnyxDB.Engine OnyxDB.Engine.Value OnyxDB.Protocol

/-- The bytes of a string value; an integer stands for its decimal text. -/
def storedBytes : OnyxValue → Option Bytes
  | .blob bytes => some bytes
  | .int value => some (utf8Bytes (integerText value))
  | _ => none

/-- Bytes that are the UTF-8 encoding of a text. -/
def IsUtf8 (bytes : Bytes) : Prop := ∃ text, bytes = utf8Bytes text

section Text

theorem utf8Bytes_append (first second : String) :
    utf8Bytes (first ++ second) = utf8Bytes first ++ utf8Bytes second := by
  rw [utf8Bytes, String.toList_append, List.flatMap_append]
  rfl

theorem valueText_eq {value : OnyxValue} {bytes : Bytes} (stored : storedBytes value = some bytes) :
    ∃ text, valueText value = .ok text ∧ (IsUtf8 bytes → bytes = utf8Bytes text) := by
  cases value <;> simp only [storedBytes, reduceCtorEq, Option.some.injEq] at stored
  case blob held =>
    subst stored
    refine ⟨fromUtf8Lossy held, rfl, ?_⟩
    rintro ⟨text, rfl⟩
    rw [fromUtf8Lossy_utf8Bytes]
  case int number => exact ⟨integerText number, rfl, fun _ => stored.symm⟩

/-- Appending a text keeps the bytes exactly if they are a text themselves. -/
theorem appended_iff {value : OnyxValue} {bytes : Bytes} (stored : storedBytes value = some bytes)
    (suffix : String) :
    appended suffix value =
        (.ok (bytes.length + (utf8Bytes suffix).length), .blob (bytes ++ utf8Bytes suffix)) ↔ IsUtf8 bytes := by
  obtain ⟨text, shown, same⟩ := valueText_eq stored
  simp only [appended, shown, utf8Bytes_append]
  constructor
  · intro equal
    have joined : utf8Bytes text ++ utf8Bytes suffix = bytes ++ utf8Bytes suffix :=
      OnyxValue.blob.inj (Prod.ext_iff.mp equal).2
    exact ⟨text, (List.append_cancel_right joined).symm⟩
  · intro encoded
    rw [← same encoded, List.length_append]

end Text

variable [Platform]

/-- `key` holds a string value with these bytes and this expiry. -/
def Holds (store : ShardedStore) (key : String) (bytes : Bytes) (expiresAt : Option Nat) : Prop :=
  ∃ entry, store.engine.lookup (utf8Bytes key) = some entry ∧ storedBytes entry.value = some bytes ∧
    entry.expiresAt = expiresAt

/-- A program that ends by `time` leaves `key`, if anything, the bytes. -/
def Leaves {α : Type} (store : ShardedStore) (program : StoreM α) (key : String) (bytes : Bytes) (time : Nat) :
    Prop :=
  (program store).2.engine.clock.now ≤ time →
    ∀ entry, (program store).2.engine.lookup (utf8Bytes key) = some entry → storedBytes entry.value = some bytes

/-- The commands on strings treat the value under `key` as these bytes, as far as they end by `time`. -/
structure Faithful (store : ShardedStore) (key suffix : String) (bytes : Bytes) (expiresAt : Option Nat)
    (time : Nat) : Prop where
  append : (ShardedStore.append key suffix store).2.engine.clock.now ≤ time →
    (ShardedStore.append key suffix store).1 = .ok (bytes.length + (utf8Bytes suffix).length) ∧
      Holds (ShardedStore.append key suffix store).2 key (bytes ++ utf8Bytes suffix) expiresAt
  strlen : (ShardedStore.strlen key store).2.engine.clock.now ≤ time →
    (ShardedStore.strlen key store).1 = .ok bytes.length ∧
      Holds (ShardedStore.strlen key store).2 key bytes expiresAt
  copy (target : String) : (ShardedStore.copy key target store).2.engine.clock.now ≤ time →
    (ShardedStore.copy key target store).1 = true ∧
      Holds (ShardedStore.copy key target store).2 target bytes expiresAt ∧
      Holds (ShardedStore.copy key target store).2 key bytes expiresAt
  rename (target : String) : (ShardedStore.rename key target store).2.engine.clock.now ≤ time →
    (ShardedStore.rename key target store).1 = true ∧
      Holds (ShardedStore.rename key target store).2 target bytes expiresAt
  expireAt (timestamp : Nat) : Leaves store (ShardedStore.expireAt key timestamp) key bytes time
  expire (seconds : Nat) : Leaves store (ShardedStore.expire key seconds) key bytes time
  expireConditional (seconds : Nat) (condition : String) :
    Leaves store (ShardedStore.expireConditional key seconds condition) key bytes time

/-- The binary protocol's `SET` stores any bytes. -/
theorem setValue_holds (store : ShardedStore) (key : String) (bytes : Bytes) :
    Holds (store.setValue (utf8Bytes key) (.blob bytes) none).2 key bytes none := by
  obtain ⟨reading, created, accessed, -, sets⟩ := store.engine.set_sets (utf8Bytes key) (.blob bytes) none
  exact ⟨⟨.blob bytes, none, created, accessed⟩, sets.slot, rfl, rfl⟩

section Single

variable {store : ShardedStore} {time : Nat} {key : String} {entry : DataEntry} {bytes : Bytes}

/-- An operation answers as the flat map does at readings up to its end. -/
theorem perform_answers {α : Type} (steady : store.engine.clock.Nondecreasing) (operation : Operation α)
    (ends : (ShardedStore.perform operation store).2.engine.clock.now ≤ time) :
    ∃ readings : Readings, readings.time ≤ time ∧
      FlatMap.Answers operation readings store.engine.lookup (ShardedStore.perform operation store).1
        (ShardedStore.perform operation store).2.engine.lookup := by
  obtain ⟨-, readings, within, answers⟩ := OnyxEngine.refines steady operation
  exact ⟨readings, within.time.2.trans ends, answers⟩

/-- What a `GET` returns of the answer of the engine. -/
theorem get_run (store : ShardedStore) (key : String) :
    ShardedStore.get key store =
      ((match (ShardedStore.perform (.read (utf8Bytes key) (fun entry => valueText entry.value)) store).1 with
        | some (.ok text) => .ok (some text)
        | some (.error error) => .error error
        | none => .ok none),
        (ShardedStore.perform (.read (utf8Bytes key) (fun entry => valueText entry.value)) store).2) := by
  simp only [ShardedStore.get, bind, StateT.bind]
  cases ShardedStore.perform (.read (utf8Bytes key) (fun entry => valueText entry.value)) store with
  | mk answer later => rcases answer with _ | (_ | _) <;> rfl

variable (steady : store.engine.clock.Nondecreasing) (held : store.engine.lookup (utf8Bytes key) = some entry)
  (live : entry.expired time = false) (stored : storedBytes entry.value = some bytes)
include steady held live stored

omit stored in
theorem append_answers (suffix : String) (ends : (ShardedStore.append key suffix store).2.engine.clock.now ≤ time) :
    (ShardedStore.append key suffix store).1 = (appended suffix entry.value).1 ∧
      ∃ after, (ShardedStore.append key suffix store).2.engine.lookup (utf8Bytes key) = some after ∧
        after.value = (appended suffix entry.value).2 ∧ after.expiresAt = entry.expiresAt := by
  obtain ⟨readings, early, answers⟩ := perform_answers steady _ ends
  simp only [FlatMap.Answers, FlatMap.atKey, held, fresh_live live early, Guard.prepared, Prod.mk.injEq] at answers
  obtain ⟨result, after⟩ := answers
  have slot := congrFun after (utf8Bytes key)
  rw [Function.update_self] at slot
  exact ⟨result, _, slot, rfl, rfl⟩

/-- `APPEND` keeps the bytes of the value exactly if they are UTF-8. -/
theorem append_iff (suffix : String) (ends : (ShardedStore.append key suffix store).2.engine.clock.now ≤ time) :
    ((ShardedStore.append key suffix store).1 = .ok (bytes.length + (utf8Bytes suffix).length) ∧
      Holds (ShardedStore.append key suffix store).2 key (bytes ++ utf8Bytes suffix) entry.expiresAt) ↔
      IsUtf8 bytes := by
  obtain ⟨result, after, shape, value, expiry⟩ := append_answers steady held live suffix ends
  rw [← appended_iff stored suffix, Prod.ext_iff, ← result]
  constructor
  · rintro ⟨length, other, found, contents, -⟩
    refine ⟨length, ?_⟩
    rw [shape, Option.some.injEq] at found
    rw [← found, value] at contents
    obtain ⟨text, shown, -⟩ := valueText_eq stored
    rw [appended, shown] at contents ⊢
    exact congrArg OnyxValue.blob (Option.some.inj contents)
  · rintro ⟨length, contents⟩
    refine ⟨length, after, shape, ?_, expiry⟩
    rw [value, contents]
    rfl

theorem get_answers (ends : (ShardedStore.get key store).2.engine.clock.now ≤ time) :
    (ShardedStore.get key store).1 = (valueText entry.value).map some ∧
      Holds (ShardedStore.get key store).2 key bytes entry.expiresAt := by
  rw [get_run] at ends ⊢
  change (ShardedStore.perform (.read (utf8Bytes key) (fun entry => valueText entry.value)) store).2.engine.clock.now ≤
    time at ends
  obtain ⟨readings, early, answers⟩ := perform_answers steady _ ends
  simp only [FlatMap.Answers, FlatMap.atKey, held, fresh_live live early, FlatMap.stamp, Option.map_some,
    Prod.mk.injEq] at answers
  obtain ⟨result, slots⟩ := answers
  constructor
  · rw [result]
    cases valueText entry.value <;> rfl
  · have slot := congrFun slots (utf8Bytes key)
    rw [Function.update_self] at slot
    exact ⟨_, slot, stored, rfl⟩

theorem strlen_utf8 (encoded : IsUtf8 bytes)
    (ends : (ShardedStore.strlen key store).2.engine.clock.now ≤ time) :
    (ShardedStore.strlen key store).1 = .ok bytes.length ∧
      Holds (ShardedStore.strlen key store).2 key bytes entry.expiresAt := by
  obtain ⟨text, shown, same⟩ := valueText_eq stored
  obtain ⟨result, holds⟩ := get_answers steady held live stored ends
  refine ⟨?_, holds⟩
  have length : (ShardedStore.strlen key store).1 =
      (ShardedStore.get key store).1.map (fun value => value.elim 0 (fun text => (utf8Bytes text).length)) := rfl
  rw [length, result, shown, same encoded]
  rfl

theorem copy_keeps (target : String) (ends : (ShardedStore.copy key target store).2.engine.clock.now ≤ time) :
    (ShardedStore.copy key target store).1 = true ∧
      Holds (ShardedStore.copy key target store).2 target bytes entry.expiresAt ∧
      Holds (ShardedStore.copy key target store).2 key bytes entry.expiresAt := by
  obtain ⟨readings, early, answers⟩ := perform_answers steady _ ends
  simp only [FlatMap.Answers, FlatMap.copied, held, fresh_live live early] at answers
  split at answers
  next same =>
    obtain ⟨result, slots⟩ := Prod.mk.inj answers
    have there : (ShardedStore.copy key target store).2.engine.lookup (utf8Bytes key) = some entry := by
      rw [← held]
      exact congrFun slots _
    exact ⟨result, ⟨entry, same ▸ there, stored, rfl⟩, entry, there, stored, rfl⟩
  next differs =>
    obtain ⟨result, slots⟩ := Prod.mk.inj answers
    have new := congrFun slots (utf8Bytes target)
    have old := congrFun slots (utf8Bytes key)
    rw [Function.update_self] at new
    rw [Function.update_of_ne differs, held] at old
    exact ⟨result, ⟨_, new, stored, rfl⟩, _, old, stored, rfl⟩

theorem rename_keeps (target : String)
    (ends : (ShardedStore.rename key target store).2.engine.clock.now ≤ time) :
    (ShardedStore.rename key target store).1 = true ∧
      Holds (ShardedStore.rename key target store).2 target bytes entry.expiresAt := by
  obtain ⟨readings, early, answers⟩ := perform_answers steady _ ends
  simp only [FlatMap.Answers, FlatMap.moved, held, fresh_live live early] at answers
  obtain ⟨result, slots⟩ := Prod.mk.inj answers
  have new := congrFun slots (utf8Bytes target)
  rw [Function.update_self] at new
  exact ⟨result, _, new, stored, rfl⟩

/-- A change of the expiry keeps the bytes of whatever it leaves. -/
theorem setExpiry_leaves (timestamp : Nat) (condition : Option Bool) :
    Leaves store (ShardedStore.perform (.setExpiryConditional (utf8Bytes key) timestamp condition)) key bytes
      time := by
  intro ends after found
  obtain ⟨readings, early, answers⟩ := perform_answers steady _ ends
  simp only [FlatMap.Answers, FlatMap.atKey, held, fresh_live live early, Prod.mk.injEq] at answers
  have slot := congrFun answers.2 (utf8Bytes key)
  rw [Function.update_self, found] at slot
  rw [FlatMap.withExpiry] at slot
  split at slot
  next => exact Option.some.inj slot ▸ stored
  next =>
    split at slot
    next => exact absurd slot (Option.some_ne_none after)
    next => exact Option.some.inj slot ▸ stored

theorem expire_leaves (seconds : Nat) (condition : Option Bool) :
    Leaves store (ShardedStore.now >>= fun reading => ShardedStore.perform
      (.setExpiryConditional (utf8Bytes key) (u64SaturatingAdd reading seconds) condition)) key bytes time := by
  have later : (ShardedStore.now store).2.engine.clock.Nondecreasing :=
    store.engine.clock.leads_tick.nondecreasing steady
  exact setExpiry_leaves later held live stored (u64SaturatingAdd store.engine.clock.now seconds) condition

theorem expireConditional_leaves (seconds : Nat) (condition : String) :
    Leaves store (ShardedStore.expireConditional key seconds condition) key bytes time := by
  unfold ShardedStore.expireConditional
  split
  · exact expire_leaves steady held live stored seconds (some false)
  · exact expire_leaves steady held live stored seconds (some true)
  · intro _ after found
    rw [show (pure false : StoreM Bool) store = (false, store) from rfl, held, Option.some.injEq] at found
    rw [← found]
    exact stored

/-- The commands on strings work on exactly the bytes of a value if and only if these are UTF-8. -/
theorem strings_faithful_iff (suffix : String) (ends : (ShardedStore.append key suffix store).2.engine.clock.now ≤ time) :
    Faithful store key suffix bytes entry.expiresAt time ↔ IsUtf8 bytes := by
  constructor
  · intro faithful
    exact (append_iff steady held live stored suffix ends).mp (faithful.append ends)
  · intro encoded
    exact {
      append := fun ends => (append_iff steady held live stored suffix ends).mpr encoded
      strlen := strlen_utf8 steady held live stored encoded
      copy := copy_keeps steady held live stored
      rename := rename_keeps steady held live stored
      expireAt := fun timestamp => setExpiry_leaves steady held live stored timestamp none
      expire := fun seconds => expire_leaves steady held live stored seconds none
      expireConditional := expireConditional_leaves steady held live stored }

end Single

end OnyxDB.Store

namespace OnyxDB.Store
open OnyxDB.Engine OnyxDB.Engine.Value

/-- A store in which the binary protocol has put a value under the key `k`. -/
def holding [Platform] (value : OnyxValue) : ShardedStore :=
  ((ShardedStore.new (.constant 0)).setValue (utf8Bytes "k") value none).2

theorem not_isUtf8_stray : ¬ IsUtf8 [0xFF] := by
  rintro ⟨text, same⟩
  have decoded : Library.Decimal.decodeUtf8 [0xFF] = some text.toList := by
    rw [same, utf8Bytes, Library.Decimal.decodeUtf8_encode]
  have undefined : Library.Decimal.decodeUtf8 [0xFF] = none := by decide
  exact Option.some_ne_none _ (decoded.symm.trans undefined)

/-- `APPEND` to the byte `0xFF` replaces it by the encoding of the replacement character. -/
theorem append_replaces_stray :
    letI := Reference.platform (fun _ => .error "unsupported")
    Holds (holding (.blob [0xFF])) "k" [0xFF] none ∧ ¬ Faithful (holding (.blob [0xFF])) "k" "a" [0xFF] none 0 := by
  let _ := Reference.platform (fun _ => .error "unsupported")
  have held : (holding (.blob [0xFF])).engine.lookup (utf8Bytes "k") = some ⟨.blob [0xFF], none, 0, 0⟩ := rfl
  have steady : (holding (.blob [0xFF])).engine.clock.Nondecreasing := fun _ _ _ => le_of_eq rfl
  refine ⟨setValue_holds _ "k" [0xFF], ?_⟩
  intro faithful
  have ends : (ShardedStore.append "k" "a" (holding (.blob [0xFF]))).2.engine.clock.now ≤ 0 := le_of_eq rfl
  exact not_isUtf8_stray ((append_iff steady held rfl rfl "a" ends).mp (faithful.append ends))

/-- A stored integer is its decimal text for every command. -/
theorem strings_faithful_number :
    letI := Reference.platform (fun _ => .error "unsupported")
    Faithful (holding (.int 7)) "k" "0" (utf8Bytes "7") none 0 := by
  let _ := Reference.platform (fun _ => .error "unsupported")
  have held : (holding (.int 7)).engine.lookup (utf8Bytes "k") = some ⟨.int 7, none, 0, 0⟩ := rfl
  have steady : (holding (.int 7)).engine.clock.Nondecreasing := fun _ _ _ => le_of_eq rfl
  exact (strings_faithful_iff steady held rfl rfl "0" (le_of_eq rfl)).mpr ⟨"7", rfl⟩

end OnyxDB.Store
