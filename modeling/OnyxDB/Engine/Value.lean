import Mathlib.Algebra.Group.Int.Defs
import Mathlib.Algebra.GroupWithZero.Nat
import Mathlib.Data.List.AList
import Mathlib.Tactic.Common

/-! Values held by the engine and the equality that `OnyxValue` derives. Hash maps and sets carry
the order in which they are iterated; their equality ignores it. -/

namespace OnyxDB.Engine.Value

abbrev Bytes := List UInt8

instance Bytes.lawfulBEq : LawfulBEq Bytes := inferInstance

/-- `str::as_bytes`. -/
def utf8Bytes (text : String) : Bytes := text.toList.flatMap String.utf8EncodeChar

/-- The IEEE 754 comparison `==`: NaN differs from everything and the two zeros agree. -/
def ieeeBeq {α : Type} [DecidableEq α] (isNaN isZero : α → Bool) (x y : α) : Bool :=
  !isNaN x && !isNaN y && (x == y || (isZero x && isZero y))

/-- An IEEE 754 double, by its bit pattern. -/
structure F64 where
  bits : UInt64
  deriving DecidableEq, Repr

namespace F64

def exponentField (x : F64) : Nat := x.bits.toNat / 2 ^ 52 % 2 ^ 11

def mantissaField (x : F64) : Nat := x.bits.toNat % 2 ^ 52

def isNegative (x : F64) : Bool := decide (2 ^ 63 ≤ x.bits.toNat)

def isFinite (x : F64) : Bool := x.exponentField != 2047

def isNaN (x : F64) : Bool := x.exponentField == 2047 && x.mantissaField != 0

def isZero (x : F64) : Bool := x.bits.toNat % 2 ^ 63 == 0

def beq (x y : F64) : Bool := ieeeBeq isNaN isZero x y

end F64

/-- An IEEE 754 single, by its bit pattern. -/
structure F32 where
  bits : UInt32
  deriving DecidableEq, Repr

namespace F32

def isNaN (x : F32) : Bool :=
  x.bits.toNat / 2 ^ 23 % 2 ^ 8 == 255 && x.bits.toNat % 2 ^ 23 != 0

def isZero (x : F32) : Bool := x.bits.toNat % 2 ^ 31 == 0

def beq (x y : F32) : Bool := ieeeBeq isNaN isZero x y

end F32

/-- `serde_json::Number`: the negative form holds negative integers only and the float form finite
doubles only. -/
inductive JsonNumber where
  | posInt (n : UInt64)
  | negInt (n : Int64) (negative : n < 0)
  | float (x : F64) (finite : x.isFinite = true)
  deriving DecidableEq

def JsonNumber.beq : JsonNumber → JsonNumber → Bool
  | .posInt a, .posInt b => a == b
  | .negInt a _, .negInt b _ => a == b
  | .float a _, .float b _ => a.beq b
  | _, _ => false

/-- `serde_json::Value`; an object lists its fields in the order of its `BTreeMap`. -/
inductive Json where
  | null
  | bool (value : Bool)
  | number (value : JsonNumber)
  | string (value : String)
  | array (items : List Json)
  | object (fields : List (String × Json))

mutual

def Json.beq : Json → Json → Bool
  | .null, .null => true
  | .bool a, .bool b => a == b
  | .number a, .number b => a.beq b
  | .string a, .string b => a == b
  | .array a, .array b => Json.beqItems a b
  | .object a, .object b => Json.beqFields a b
  | _, _ => false

def Json.beqItems : List Json → List Json → Bool
  | [], [] => true
  | a :: as, b :: bs => Json.beq a b && Json.beqItems as bs
  | _, _ => false

def Json.beqFields : List (String × Json) → List (String × Json) → Bool
  | [], [] => true
  | (field, a) :: as, (other, b) :: bs => field == other && Json.beq a b && Json.beqFields as bs
  | _, _ => false

end

mutual

/-- Nesting depth: scalars are at depth zero, every array or object adds one level. -/
def Json.depth : Json → Nat
  | .array items => Json.depthItems items + 1
  | .object fields => Json.depthFields fields + 1
  | _ => 0

def Json.depthItems : List Json → Nat
  | [] => 0
  | item :: rest => max (Json.depth item) (Json.depthItems rest)

def Json.depthFields : List (String × Json) → Nat
  | [] => 0
  | (_, item) :: rest => max (Json.depth item) (Json.depthFields rest)

end

mutual

/-- The fields of every object are in the order of their names, as `BTreeMap` keeps them. -/
def Json.Ordered : Json → Prop
  | .array items => Json.OrderedItems items
  | .object fields =>
      (fields.map Prod.fst).Pairwise (fun first second => first < second) ∧ Json.OrderedFields fields
  | _ => True

def Json.OrderedItems : List Json → Prop
  | [] => True
  | item :: rest => Json.Ordered item ∧ Json.OrderedItems rest

def Json.OrderedFields : List (String × Json) → Prop
  | [] => True
  | (_, item) :: rest => Json.Ordered item ∧ Json.OrderedFields rest

end

/-- `HashMap<Bytes, Bytes>`, with its iteration order. -/
abbrev HashMap := AList (fun _ : Bytes => Bytes)

private theorem nodupKeys_append_singleton {entries : List (Sigma fun _ : Bytes => Bytes)}
    (distinct : entries.NodupKeys) {key : Bytes} (absent : key ∉ entries.keys) (value : Bytes) :
    (entries ++ [Sigma.mk key value]).NodupKeys := by
  have keys : (entries ++ [Sigma.mk key value]).keys = entries.keys ++ [key] := by
    simp [List.keys]
  rw [List.NodupKeys, keys, List.nodup_append]
  refine ⟨distinct, List.nodup_singleton key, ?_⟩
  intro first member second singleton same
  rw [List.mem_singleton.mp singleton] at same
  exact absent (same ▸ member)

/-- Inserts a field and returns the value it replaces. New fields are iterated last. -/
def HashMap.insert (map : HashMap) (key value : Bytes) : Option Bytes × HashMap :=
  (map.lookup key,
    if absent : key ∉ map.entries.keys then
      ⟨map.entries ++ [⟨key, value⟩], nodupKeys_append_singleton map.nodupKeys absent value⟩
    else map.replace key value)

/-- Removes a field and returns its value. -/
def HashMap.remove (map : HashMap) (key : Bytes) : Option Bytes × HashMap :=
  (map.lookup key, map.erase key)

/-- Equality of hash maps: equal sizes, and every entry of the first is in the second. -/
def HashMap.beq (first second : HashMap) : Bool :=
  first.entries.length == second.entries.length &&
    first.entries.all (fun entry => second.lookup entry.1 == some entry.2)

/-- `HashSet<Bytes>`, with its iteration order. -/
structure HashSet where
  members : List Bytes
  nodup : members.Nodup
  deriving DecidableEq

def HashSet.empty : HashSet := ⟨[], List.nodup_nil⟩

/-- Adds a member, iterated last, and reports whether it is new. -/
def HashSet.insert (set : HashSet) (member : Bytes) : Bool × HashSet :=
  if absent : member ∉ set.members then
    (true, ⟨set.members ++ [member], by
      rw [List.nodup_append]
      refine ⟨set.nodup, List.nodup_singleton member, ?_⟩
      intro first present second singleton same
      rw [List.mem_singleton.mp singleton] at same
      exact absent (same ▸ present)⟩)
  else (false, set)

/-- Removes a member and reports whether it was present. -/
def HashSet.remove (set : HashSet) (member : Bytes) : Bool × HashSet :=
  (decide (member ∈ set.members), ⟨set.members.erase member, set.nodup.erase member⟩)

def HashSet.beq (first second : HashSet) : Bool :=
  first.members.length == second.members.length &&
    first.members.all (fun member => decide (member ∈ second.members))

inductive OnyxValue where
  | blob (bytes : Bytes)
  | int (value : Int64)
  | float (value : F64)
  | list (items : List Bytes)
  | hash (fields : HashMap)
  | set (members : HashSet)
  | json (document : Json)
  | vector (components : List F32)

/-- The equality that `OnyxValue` derives. -/
def OnyxValue.beq : OnyxValue → OnyxValue → Bool
  | .blob a, .blob b => a == b
  | .int a, .int b => a == b
  | .float a, .float b => a.beq b
  | .list a, .list b => a == b
  | .hash a, .hash b => a.beq b
  | .set a, .set b => a.beq b
  | .json a, .json b => a.beq b
  | .vector a, .vector b => a.length == b.length && (a.zip b).all (fun pair => pair.1.beq pair.2)
  | _, _ => false

structure DataEntry where
  value : OnyxValue
  expiresAt : Option Nat
  createdAt : Nat
  lastAccessed : Nat

/-- Whether an expiry has passed at `timestamp`. -/
def expiryPassed (timestamp : Nat) : Option Nat → Bool
  | none => false
  | some expiry => decide (expiry ≤ timestamp)

def DataEntry.expired (entry : DataEntry) (timestamp : Nat) : Bool :=
  expiryPassed timestamp entry.expiresAt

/-- The part of an entry that is persisted. -/
structure PersistentEntry where
  value : OnyxValue
  expiresAt : Option Nat

def PersistentEntry.ofDataEntry (entry : DataEntry) : PersistentEntry :=
  ⟨entry.value, entry.expiresAt⟩

def PersistentEntry.intoDataEntry (entry : PersistentEntry) (timestamp : Nat) : DataEntry :=
  ⟨entry.value, entry.expiresAt, timestamp, timestamp⟩

def PersistentEntry.expired (entry : PersistentEntry) (timestamp : Nat) : Bool :=
  expiryPassed timestamp entry.expiresAt

theorem ieeeBeq_trans {α : Type} [DecidableEq α] {isNaN isZero : α → Bool} {x y z : α}
    (first : ieeeBeq isNaN isZero x y = true) (second : ieeeBeq isNaN isZero y z = true) :
    ieeeBeq isNaN isZero x z = true := by
  simp only [ieeeBeq, Bool.and_eq_true, Bool.or_eq_true, Bool.not_eq_true', beq_iff_eq] at *
  obtain ⟨⟨realX, _⟩, same⟩ := first
  obtain ⟨⟨_, realZ⟩, next⟩ := second
  refine ⟨⟨realX, realZ⟩, ?_⟩
  rcases same with rfl | ⟨zeroX, _⟩
  · exact next
  · rcases next with rfl | ⟨_, zeroZ⟩
    · exact Or.inr ⟨zeroX, by assumption⟩
    · exact Or.inr ⟨zeroX, zeroZ⟩

theorem JsonNumber.beq_trans {a b c : JsonNumber} (first : a.beq b = true)
    (second : b.beq c = true) : a.beq c = true := by
  cases a <;> cases b <;> simp only [JsonNumber.beq, beq_iff_eq, Bool.false_eq_true] at first <;>
    cases c <;> simp only [JsonNumber.beq, beq_iff_eq, Bool.false_eq_true] at second ⊢
  · exact first.trans second
  · exact first.trans second
  · exact ieeeBeq_trans first second

mutual

theorem Json.beq_trans (a b c : Json) (first : a.beq b = true) (second : b.beq c = true) :
    a.beq c = true := by
  cases a <;> cases b <;> simp only [Json.beq, Bool.false_eq_true] at first <;>
    cases c <;> simp only [Json.beq, Bool.false_eq_true] at second ⊢
  · simp only [beq_iff_eq] at *
    exact first.trans second
  · exact JsonNumber.beq_trans first second
  · simp only [beq_iff_eq] at *
    exact first.trans second
  · exact Json.beqItems_trans _ _ _ first second
  · exact Json.beqFields_trans _ _ _ first second

theorem Json.beqItems_trans (as bs cs : List Json) (first : Json.beqItems as bs = true)
    (second : Json.beqItems bs cs = true) : Json.beqItems as cs = true := by
  cases as <;> cases bs <;> simp only [Json.beqItems, Bool.and_eq_true, Bool.false_eq_true] at first <;>
    cases cs <;> simp only [Json.beqItems, Bool.and_eq_true, Bool.false_eq_true] at second ⊢
  exact ⟨Json.beq_trans _ _ _ first.1 second.1, Json.beqItems_trans _ _ _ first.2 second.2⟩

theorem Json.beqFields_trans (as bs cs : List (String × Json)) (first : Json.beqFields as bs = true)
    (second : Json.beqFields bs cs = true) : Json.beqFields as cs = true := by
  match as, bs, cs with
  | [], [], [] => rfl
  | (_, a) :: as, (_, b) :: bs, (_, c) :: cs =>
      simp only [Json.beqFields, Bool.and_eq_true, beq_iff_eq] at *
      exact ⟨⟨first.1.1.trans second.1.1, Json.beq_trans a b c first.1.2 second.1.2⟩,
        Json.beqFields_trans as bs cs first.2 second.2⟩

end

theorem HashMap.beq_trans {a b c : HashMap} (first : a.beq b = true) (second : b.beq c = true) :
    a.beq c = true := by
  simp only [HashMap.beq, Bool.and_eq_true, beq_iff_eq, List.all_eq_true] at *
  refine ⟨first.1.trans second.1, ?_⟩
  intro entry member
  have found := first.2 entry member
  exact second.2 ⟨entry.1, entry.2⟩ (AList.mem_lookup_iff.mp found)

theorem HashSet.beq_trans {a b c : HashSet} (first : a.beq b = true) (second : b.beq c = true) :
    a.beq c = true := by
  simp only [HashSet.beq, Bool.and_eq_true, beq_iff_eq, List.all_eq_true, decide_eq_true_eq] at *
  refine ⟨first.1.trans second.1, ?_⟩
  intro member present
  exact second.2 member (first.2 member present)

private theorem vector_beq_trans (as bs cs : List F32)
    (first : as.length = bs.length ∧ ∀ pair ∈ as.zip bs, pair.1.beq pair.2 = true)
    (second : bs.length = cs.length ∧ ∀ pair ∈ bs.zip cs, pair.1.beq pair.2 = true) :
    as.length = cs.length ∧ ∀ pair ∈ as.zip cs, pair.1.beq pair.2 = true := by
  induction as generalizing bs cs with
  | nil => simp_all
  | cons a as rest =>
      match bs, cs with
      | b :: bs, c :: cs =>
          simp only [List.length_cons, Nat.add_right_cancel_iff, List.zip_cons_cons,
            List.forall_mem_cons] at *
          obtain ⟨sizes, others⟩ := rest bs cs ⟨first.1, first.2.2⟩ ⟨second.1, second.2.2⟩
          exact ⟨sizes, ieeeBeq_trans first.2.1 second.2.1, others⟩
      | [], _ => simp at first
      | _ :: _, [] => simp at second

theorem OnyxValue.beq_trans {a b c : OnyxValue} (first : a.beq b = true)
    (second : b.beq c = true) : a.beq c = true := by
  cases a <;> cases b <;> simp only [OnyxValue.beq, Bool.false_eq_true] at first <;>
    cases c <;> simp only [OnyxValue.beq, Bool.false_eq_true] at second ⊢
  case blob.blob.blob => simp_all
  case int.int.int => simp_all
  case float.float.float => exact ieeeBeq_trans first second
  case list.list.list => simp_all
  case hash.hash.hash => exact HashMap.beq_trans first second
  case set.set.set => exact HashSet.beq_trans first second
  case json.json.json => exact Json.beq_trans _ _ _ first second
  case vector.vector.vector =>
      simp only [Bool.and_eq_true, beq_iff_eq, List.all_eq_true] at *
      exact vector_beq_trans _ _ _ first second

/-- The same value, or values that `==` identifies. A NaN is not `==` to itself, so neither
disjunct implies the other. -/
def OnyxValue.Same (a b : OnyxValue) : Prop := a = b ∨ a.beq b = true

theorem OnyxValue.Same.refl (a : OnyxValue) : a.Same a := Or.inl rfl

theorem OnyxValue.Same.trans {a b c : OnyxValue} (first : a.Same b) (second : b.Same c) :
    a.Same c := by
  rcases first with rfl | first
  · exact second
  · rcases second with rfl | second
    · exact Or.inr first
    · exact Or.inr (OnyxValue.beq_trans first second)

end OnyxDB.Engine.Value
