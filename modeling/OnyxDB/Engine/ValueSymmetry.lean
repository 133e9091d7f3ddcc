import Mathlib.Data.List.Zip
import OnyxDB.Engine.Value

/-! The equality of values is symmetric. Maps and sets are compared from one side; their keys are distinct and their
sizes agree, so that nothing is left on the other. -/

namespace OnyxDB.Engine.Value

theorem ieeeBeq_symm {α : Type} [DecidableEq α] {isNaN isZero : α → Bool} {x y : α}
    (equal : ieeeBeq isNaN isZero x y = true) : ieeeBeq isNaN isZero y x = true := by
  simp only [ieeeBeq, Bool.and_eq_true, Bool.or_eq_true, Bool.not_eq_true', beq_iff_eq] at *
  obtain ⟨⟨real, other⟩, same⟩ := equal
  exact ⟨⟨other, real⟩, same.imp Eq.symm And.symm⟩

theorem JsonNumber.beq_symm {a b : JsonNumber} (equal : a.beq b = true) : b.beq a = true := by
  cases a <;> cases b <;> simp only [JsonNumber.beq, beq_iff_eq, Bool.false_eq_true] at equal ⊢
  · exact equal.symm
  · exact equal.symm
  · exact ieeeBeq_symm equal

mutual

theorem Json.beq_symm (a b : Json) (equal : a.beq b = true) : b.beq a = true := by
  cases a <;> cases b <;> simp only [Json.beq, beq_iff_eq, Bool.false_eq_true] at equal ⊢
  · exact equal.symm
  · exact JsonNumber.beq_symm equal
  · exact equal.symm
  · exact Json.beqItems_symm _ _ equal
  · exact Json.beqFields_symm _ _ equal

theorem Json.beqItems_symm (as bs : List Json) (equal : Json.beqItems as bs = true) :
    Json.beqItems bs as = true := by
  match as, bs with
  | [], [] => rfl
  | a :: as, b :: bs =>
      simp only [Json.beqItems, Bool.and_eq_true] at *
      exact ⟨Json.beq_symm a b equal.1, Json.beqItems_symm as bs equal.2⟩

theorem Json.beqFields_symm (as bs : List (String × Json)) (equal : Json.beqFields as bs = true) :
    Json.beqFields bs as = true := by
  match as, bs with
  | [], [] => rfl
  | (_, a) :: as, (_, b) :: bs =>
      simp only [Json.beqFields, Bool.and_eq_true, beq_iff_eq] at *
      exact ⟨⟨equal.1.1.symm, Json.beq_symm a b equal.1.2⟩, Json.beqFields_symm as bs equal.2⟩

end

/-- Of two lists of the same length, a duplicate-free one within the other is all of it. -/
theorem mem_of_matching {α : Type} {first second : List α} (distinct : first.Nodup)
    (within : ∀ item ∈ first, item ∈ second) (length : first.length = second.length) {item : α}
    (member : item ∈ second) : item ∈ first := by
  have same : first.Perm second :=
    (List.subperm_of_subset distinct within).perm_of_length_le (Nat.le_of_eq length.symm)
  exact same.mem_iff.mpr member

theorem HashMap.beq_symm {a b : HashMap} (equal : a.beq b = true) : b.beq a = true := by
  simp only [HashMap.beq, Bool.and_eq_true, beq_iff_eq, List.all_eq_true] at *
  refine ⟨equal.1.symm, ?_⟩
  intro entry member
  have within : ∀ entry ∈ a.entries, entry ∈ b.entries :=
    fun entry present => AList.mem_lookup_iff.mp (equal.2 entry present)
  exact AList.mem_lookup_iff.mpr (mem_of_matching (List.NodupKeys.nodup a.nodupKeys) within equal.1 member)

theorem HashSet.beq_symm {a b : HashSet} (equal : a.beq b = true) : b.beq a = true := by
  simp only [HashSet.beq, Bool.and_eq_true, beq_iff_eq, List.all_eq_true, decide_eq_true_eq] at *
  exact ⟨equal.1.symm, fun member present => mem_of_matching a.nodup equal.2 equal.1 present⟩

theorem vector_beq_symm (as bs : List F32)
    (equal : as.length = bs.length ∧ ∀ pair ∈ as.zip bs, pair.1.beq pair.2 = true) :
    bs.length = as.length ∧ ∀ pair ∈ bs.zip as, pair.1.beq pair.2 = true := by
  refine ⟨equal.1.symm, ?_⟩
  intro pair member
  rw [← List.zip_swap] at member
  obtain ⟨other, present, rfl⟩ := List.mem_map.mp member
  exact ieeeBeq_symm (equal.2 other present)

theorem OnyxValue.beq_symm {a b : OnyxValue} (equal : a.beq b = true) : b.beq a = true := by
  cases a <;> cases b <;> simp only [OnyxValue.beq, Bool.false_eq_true] at equal ⊢
  case blob.blob => exact beq_iff_eq.mpr (beq_iff_eq.mp equal).symm
  case int.int => exact beq_iff_eq.mpr (beq_iff_eq.mp equal).symm
  case float.float => exact ieeeBeq_symm equal
  case list.list => exact beq_iff_eq.mpr (beq_iff_eq.mp equal).symm
  case hash.hash => exact HashMap.beq_symm equal
  case set.set => exact HashSet.beq_symm equal
  case json.json => exact Json.beq_symm _ _ equal
  case vector.vector =>
      simp only [Bool.and_eq_true, beq_iff_eq, List.all_eq_true] at *
      exact vector_beq_symm _ _ equal

end OnyxDB.Engine.Value
