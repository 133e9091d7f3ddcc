import OnyxDB.Engine.EngineSpec
import OnyxDB.Engine.Reference
import OnyxDB.Store.Typed

/-! What `LRANGE` selects. The model of the closure uses integers; a version whose arithmetic is that of `i64` and
whose slice may panic agrees with it. -/

namespace OnyxDB.Store
open OnyxDB.Library OnyxDB.Engine OnyxDB.Engine.Value

/-- The index a bound stands for. -/
def standing (length : Nat) (bound : Int) : Int := if bound < 0 then length + bound else bound

/-- The elements with an index between two bounds, both included. -/
def selected (items : List Bytes) (first last : Int) : List Bytes :=
  (items.zipIdx.filter (fun entry => decide (first ≤ entry.2 ∧ (entry.2 : Int) ≤ last))).map Prod.fst

/-- Redis's inclusive range. -/
def inclusiveRange (items : List Bytes) (start stop : Int) : List String :=
  (selected items (standing items.length start) (standing items.length stop)).map fromUtf8Lossy

section Selection

theorem selected_from (items : List Bytes) (offset : Nat) (first last : Int) :
    ((items.zipIdx offset).filter (fun entry => decide (first ≤ entry.2 ∧ (entry.2 : Int) ≤ last))).map Prod.fst =
      (items.take (last + 1 - offset).toNat).drop (first - offset).toNat := by
  induction items generalizing offset with
  | nil => simp
  | cons item items rest =>
      have further := rest (offset + 1)
      rw [List.zipIdx_cons, List.filter_cons]
      by_cases past : last < offset
      · have none : (last + 1 - offset).toNat = 0 := by omega
        have later : (last + 1 - (offset + 1 : Nat)).toNat = 0 := by omega
        have outside : ¬ (first ≤ offset ∧ (offset : Int) ≤ last) := by omega
        rw [later, List.take_zero, List.drop_nil] at further
        simp only [outside, decide_false, Bool.false_eq_true, if_false]
        rw [further, none, List.take_zero, List.drop_nil]
      · have count : (last + 1 - offset).toNat = (last + 1 - (offset + 1 : Nat)).toNat + 1 := by omega
        rw [count, List.take_succ_cons]
        by_cases before : first ≤ offset
        · have none : (first - offset).toNat = 0 := by omega
          have later : (first - (offset + 1 : Nat)).toNat = 0 := by omega
          have inside : first ≤ offset ∧ (offset : Int) ≤ last := by omega
          rw [later, List.drop_zero] at further
          simp only [inside, and_self, decide_true, if_true]
          rw [List.map_cons, further, none, List.drop_zero]
        · have skipped : (first - offset).toNat = (first - (offset + 1 : Nat)).toNat + 1 := by omega
          have outside : ¬ (first ≤ offset ∧ (offset : Int) ≤ last) := by omega
          simp only [outside, decide_false, Bool.false_eq_true, if_false]
          rw [further, skipped, List.drop_succ_cons]

theorem selected_eq (items : List Bytes) (first last : Int) :
    selected items first last = (items.take (last + 1).toNat).drop first.toNat := by
  have whole := selected_from items 0 first last
  rw [Int.ofNat_zero, Int.sub_zero, Int.sub_zero] at whole
  exact whole

/-- Nothing lies between bounds that are the wrong way round, or behind the end. -/
theorem selected_nil_iff (items : List Bytes) (first last : Int) :
    selected items first last = [] ↔ (items.length : Int) ≤ first ∨ last < first ∨ last < 0 ∨ items = [] := by
  rw [selected_eq, List.drop_eq_nil_iff, List.length_take, ← List.length_eq_zero_iff]
  omega

theorem normalizeIndex_eq (length : Nat) (bound : Int) :
    normalizeIndex length bound = max (standing length bound) 0 := by
  unfold normalizeIndex standing
  split <;> omega

/-- What the closure of `lrange` returns for a list. -/
theorem listRange_eq (items : List Bytes) (start stop : Int) :
    listRange start stop (.list items) =
      .ok ((selected items (max (standing items.length start) 0)
        (max (standing items.length stop) 0)).map fromUtf8Lossy) := by
  have low : 0 ≤ max (standing items.length stop) 0 := le_max_right _ _
  simp only [listRange, normalizeIndex_eq]
  generalize max (standing items.length start) 0 = first
  generalize max (standing items.length stop) 0 = last at low ⊢
  split
  next none =>
    have empty : items = [] := List.length_eq_zero_iff.mp (by omega)
    rw [(selected_nil_iff items first last).mpr (by simp [empty]), List.map_nil]
  next some =>
    split
    next outside =>
      rw [(selected_nil_iff items first last).mpr (by omega), List.map_nil]
    next inside =>
      rw [selected_eq]
      split
      next over_ =>
        have all : items.take (last + 1).toNat = items := List.take_of_length_le (by omega)
        have same : items.take ((items.length - 1 : Int).toNat + 1) = items := List.take_of_length_le (by omega)
        rw [all, same]
      next within =>
        have count : last.toNat + 1 = (last + 1).toNat := by omega
        rw [count]

/-- A range ends before the first element and would have to start there. -/
def EndsBefore (items : List Bytes) (start stop : Int) : Prop :=
  items ≠ [] ∧ stop < -(items.length : Int) ∧ standing items.length start ≤ 0

theorem listRange_inclusive_iff (items : List Bytes) (start stop : Int) :
    listRange start stop (.list items) = .ok (inclusiveRange items start stop) ↔
      ¬ EndsBefore items start stop := by
  rw [listRange_eq, inclusiveRange]
  by_cases negative : standing items.length stop < 0
  · have none : selected items (standing items.length start) (standing items.length stop) = [] :=
      (selected_nil_iff items _ _).mpr (Or.inr (Or.inr (Or.inl negative)))
    have below : stop < -(items.length : Int) := by
      unfold standing at negative
      split at negative <;> omega
    rw [none, List.map_nil, Except.ok.injEq, List.map_eq_nil_iff, selected_nil_iff, EndsBefore,
      ← List.length_pos_iff, ← List.length_eq_zero_iff]
    omega
  · have inside : ¬ stop < -(items.length : Int) := by
      unfold standing at negative
      split at negative <;> omega
    have ends : ¬ EndsBefore items start stop := fun before => inside before.2.1
    have last : max (standing items.length stop) 0 = standing items.length stop := by omega
    have first : selected items (max (standing items.length start) 0) (standing items.length stop) =
        selected items (standing items.length start) (standing items.length stop) := by
      have same : (max (standing items.length start) 0).toNat = (standing items.length start).toNat := by omega
      rw [selected_eq, selected_eq, same]
    rw [last, first]
    simp only [ends, not_false_eq_true]

end Selection

section Machine

/-- A result of `i64` arithmetic; there is none on overflow. -/
def fitsI64 (value : Int) : Option Int := if -2 ^ 63 ≤ value ∧ value < 2 ^ 63 then some value else none

/-- `value as usize`. -/
def asUsize (value : Int) : Nat := (value % 2 ^ 64).toNat

/-- `items[first..=last]`; there is none when the slice panics. -/
def sliceInclusive (items : List Bytes) (first last : Nat) : Option (List Bytes) :=
  if first ≤ last + 1 ∧ last < items.length then some ((items.take (last + 1)).drop first) else none

def normalizeI64 (length index : Int) : Option Int :=
  if index < 0 then (fitsI64 (length + index)).map (max · 0) else some index

/-- The closure of `lrange` with the arithmetic and the slice of the machine. -/
def listRangeI64 (start stop : Int) (items : List Bytes) : Option (List String) := do
  let length : Int := items.length
  if length = 0 then return []
  else
    let first ← normalizeI64 length start
    let last ← normalizeI64 length stop
    let final ← fitsI64 (length - 1)
    if first > final ∨ first > last then return []
    else
      let last := if last > final then final else last
      return (← sliceInclusive items (asUsize first) (asUsize last)).map fromUtf8Lossy

theorem asUsize_small {value : Int} (low : 0 ≤ value) (high : value < 2 ^ 63) : asUsize value = value.toNat := by
  unfold asUsize
  rw [Int.emod_eq_of_lt low (by omega)]

theorem normalizeI64_eq {length : Nat} (room : length < 2 ^ 63) (bound : Int64) :
    normalizeI64 length bound.toInt = some (normalizeIndex length bound.toInt) := by
  have low := bound.le_toInt
  have high := bound.toInt_lt
  unfold normalizeI64 normalizeIndex fitsI64
  split
  next negative =>
    rw [if_pos (by omega)]
    rfl
  · rfl

/-- No bound overflows or makes the slice panic. -/
theorem listRangeI64_eq {items : List Bytes} (room : items.length < 2 ^ 63) (start stop : Int64) :
    (listRangeI64 start.toInt stop.toInt items).map Except.ok =
      some (listRange start.toInt stop.toInt (.list items)) := by
  have final : fitsI64 ((items.length : Int) - 1) = some ((items.length : Int) - 1) := if_pos (by omega)
  have lowFirst : 0 ≤ normalizeIndex items.length start.toInt := by
    rw [normalizeIndex_eq]
    exact le_max_right _ _
  have lowLast : 0 ≤ normalizeIndex items.length stop.toInt := by
    rw [normalizeIndex_eq]
    exact le_max_right _ _
  simp only [listRangeI64, listRange, normalizeI64_eq room, final, bind, Option.bind]
  split
  · rfl
  next present =>
    split
    · rfl
    next inside =>
      generalize normalizeIndex items.length start.toInt = first at lowFirst inside ⊢
      generalize normalizeIndex items.length stop.toInt = last at lowLast inside ⊢
      generalize shape : (if last > (items.length : Int) - 1 then (items.length : Int) - 1 else last) = clamped
      have bounds : first ≤ clamped ∧ 0 ≤ clamped ∧ clamped < items.length := by
        split at shape <;> omega
      rw [asUsize_small lowFirst (by omega), asUsize_small bounds.2.1 (by omega), sliceInclusive,
        if_pos (by omega)]
      rfl

end Machine

variable [Platform]

/-- The answer of `lrange` for a key that holds a list. -/
theorem lrange_list (store : ShardedStore) (key : String) (start stop : Int64) {entry : DataEntry}
    (held : fresh store.engine.clock.now (store.engine.lookup (utf8Bytes key)) = some entry) :
    (ShardedStore.lrange key start stop store).1 = listRange start.toInt stop.toInt entry.value := by
  have answer : (ShardedStore.lrange key start stop store).1 =
      ((store.engine.read (utf8Bytes key) (fun entry => listRange start.toInt stop.toInt entry.value)).1).getD
        (.ok []) := rfl
  rw [answer, OnyxEngine.read_fst, OnyxEngine.touched, held]
  rfl

/-- `lrange` selects Redis's inclusive range, except where the range ends before the first element and would
have to start there; no bound overflows or panics. -/
theorem lrange_inclusive_iff (store : ShardedStore) (key : String) (start stop : Int64) {entry : DataEntry}
    {items : List Bytes}
    (held : fresh store.engine.clock.now (store.engine.lookup (utf8Bytes key)) = some entry)
    (holds : entry.value = .list items) (room : items.length < 2 ^ 63) :
    (listRangeI64 start.toInt stop.toInt items).map Except.ok =
        some (ShardedStore.lrange key start stop store).1 ∧
      ((ShardedStore.lrange key start stop store).1 = .ok (inclusiveRange items start.toInt stop.toInt) ↔
        ¬ EndsBefore items start.toInt stop.toInt) := by
  rw [lrange_list store key start stop held, holds]
  exact ⟨listRangeI64_eq room start stop, listRange_inclusive_iff items start.toInt stop.toInt⟩

end OnyxDB.Store

namespace OnyxDB.Store
open OnyxDB.Engine OnyxDB.Engine.Value

/-- A store with a list of two elements under the key `k`. -/
def twoElements [Platform] : ShardedStore :=
  ((ShardedStore.new (.constant 0)).setValue (utf8Bytes "k") (.list [utf8Bytes "a", utf8Bytes "b"]) none).2

theorem twoElements_held :
    letI := Reference.platform (fun _ => .error "unsupported")
    fresh twoElements.engine.clock.now (twoElements.engine.lookup (utf8Bytes "k")) =
      some ⟨.list [utf8Bytes "a", utf8Bytes "b"], none, 0, 0⟩ := by
  let _ := Reference.platform (fun _ => .error "unsupported")
  rfl

/-- `LRANGE k 0 -3` on two elements returns the first of them. -/
theorem lrange_ends_before :
    letI := Reference.platform (fun _ => .error "unsupported")
    ¬ (ShardedStore.lrange "k" 0 (-3) twoElements).1 =
      .ok (inclusiveRange [utf8Bytes "a", utf8Bytes "b"] (0 : Int64).toInt (-3 : Int64).toInt) := by
  let _ := Reference.platform (fun _ => .error "unsupported")
  rw [lrange_list twoElements "k" 0 (-3) twoElements_held, listRange_inclusive_iff, not_not]
  exact ⟨List.cons_ne_nil _ _, by decide, by decide⟩

/-- `LRANGE k -2 5` on two elements. -/
theorem lrange_inclusive_whole :
    letI := Reference.platform (fun _ => .error "unsupported")
    (ShardedStore.lrange "k" (-2) 5 twoElements).1 =
      .ok (inclusiveRange [utf8Bytes "a", utf8Bytes "b"] (-2 : Int64).toInt (5 : Int64).toInt) := by
  let _ := Reference.platform (fun _ => .error "unsupported")
  exact (lrange_inclusive_iff twoElements "k" (-2) 5 twoElements_held rfl (by decide)).2.mpr
    (fun before => absurd before.2.1 (by decide))

end OnyxDB.Store
