import Mathlib.Algebra.Order.BigOperators.Group.List
import Mathlib.Algebra.Order.Ring.Nat
import Mathlib.Data.List.Nodup
import Mathlib.Data.List.Perm.Basic
import Mathlib.Logic.Function.Basic
import Mathlib.Tactic.Common

/-! A list of pairs that lists a map with finitely many slots, and the weight of what it lists. Two
lists of one map differ in order only, so a weight belongs to the map. -/

namespace OnyxDB.Library
variable {κ ε : Type}

/-- The pairs are exactly the filled slots, each once. -/
structure Listing (entries : List (κ × ε)) (slots : κ → Option ε) : Prop where
  distinct : (entries.map Prod.fst).Nodup
  exact : ∀ key entry, (key, entry) ∈ entries ↔ slots key = some entry

namespace Listing

/-- The weight of a list of entries. -/
def weigh (weight : κ → ε → Nat) (entries : List (κ × ε)) : Nat :=
  (entries.map (fun entry => weight entry.1 entry.2)).sum

/-- The weight of one slot. -/
def slotWeight (weight : κ → ε → Nat) (key : κ) (slot : Option ε) : Nat := slot.elim 0 (weight key)

@[simp]
theorem slotWeight_none (weight : κ → ε → Nat) (key : κ) : slotWeight weight key none = 0 := rfl

@[simp]
theorem slotWeight_some (weight : κ → ε → Nat) (key : κ) (entry : ε) :
    slotWeight weight key (some entry) = weight key entry := rfl

theorem perm {first second : List (κ × ε)} {slots : κ → Option ε} (one : Listing first slots)
    (other : Listing second slots) : first.Perm second := by
  rw [List.perm_ext_iff_of_nodup one.distinct.of_map other.distinct.of_map]
  rintro ⟨key, entry⟩
  rw [one.exact, other.exact]

theorem weigh_eq {first second : List (κ × ε)} {slots : κ → Option ε} (weight : κ → ε → Nat)
    (one : Listing first slots) (other : Listing second slots) :
    weigh weight first = weigh weight second :=
  ((one.perm other).map _).sum_eq

/-- A filled slot weighs no more than the whole map. -/
theorem slotWeight_le {entries : List (κ × ε)} {slots : κ → Option ε} (weight : κ → ε → Nat)
    (lists : Listing entries slots) (key : κ) :
    slotWeight weight key (slots key) ≤ weigh weight entries := by
  cases held : slots key with
  | none => exact Nat.zero_le _
  | some entry =>
      have member := (lists.exact key entry).mpr held
      exact List.le_sum_of_mem (List.mem_map.mpr ⟨(key, entry), member, rfl⟩)

theorem weigh_one (entries : List (κ × ε)) : weigh (fun _ _ => 1) entries = entries.length := by
  simp [weigh]

variable [DecidableEq κ]

/-- A list of a map, with one slot replaced, lists the updated map. -/
theorem update {entries : List (κ × ε)} {slots : κ → Option ε} (lists : Listing entries slots) (key : κ)
    (slot : Option ε) :
    Listing (slot.toList.map (fun entry => (key, entry)) ++ entries.filter (fun entry => entry.1 ≠ key))
      (Function.update slots key slot) := by
  have others : ∀ other entry, (other, entry) ∈ entries.filter (fun entry => entry.1 ≠ key) ↔
      slots other = some entry ∧ other ≠ key := by
    intro other entry
    rw [List.mem_filter, lists.exact, decide_eq_true_eq]
  constructor
  · rw [List.map_append, List.nodup_append]
    refine ⟨?_, lists.distinct.sublist (List.filter_sublist.map _), ?_⟩
    · cases slot <;> simp
    · intro first early second late same
      subst same
      obtain ⟨⟨other, entry⟩, member, rfl⟩ := List.mem_map.mp late
      have differ := ((others other entry).mp member).2
      cases slot with
      | none => simp at early
      | some held => exact differ (by simpa using early)
  · intro other entry
    rw [List.mem_append, others]
    by_cases same : other = key
    · subst same
      cases slot <;> simp [eq_comm]
    · have elsewhere : (other, entry) ∉ slot.toList.map (fun entry => (key, entry)) := by
        intro member
        obtain ⟨_, _, pair⟩ := List.mem_map.mp member
        exact same (congrArg Prod.fst pair).symm
      rw [Function.update_of_ne same]
      exact ⟨fun found => (found.resolve_left elsewhere).1, fun held => Or.inr ⟨held, same⟩⟩

theorem weigh_update (weight : κ → ε → Nat) (key : κ) (slot : Option ε) (entries : List (κ × ε)) :
    weigh weight (slot.toList.map (fun entry => (key, entry)) ++
      entries.filter (fun entry => entry.1 ≠ key)) =
    slotWeight weight key slot + weigh weight (entries.filter (fun entry => entry.1 ≠ key)) := by
  cases slot <;> simp [weigh]

/-- Replacing a slot changes the weight by the difference of the two slots. -/
theorem weigh_replaced {before after : List (κ × ε)} {slots : κ → Option ε} {key : κ} {slot : Option ε}
    (weight : κ → ε → Nat) (old : Listing before slots)
    (new : Listing after (Function.update slots key slot)) :
    weigh weight after + slotWeight weight key (slots key) =
      weigh weight before + slotWeight weight key slot := by
  have restored : Listing (((slots key).toList.map (fun entry => (key, entry))) ++
      before.filter (fun entry => entry.1 ≠ key)) slots := by
    have updated := old.update key (slots key)
    rw [Function.update_eq_self] at updated
    exact updated
  have heavy := weigh_eq weight old restored
  have light := weigh_eq weight new (old.update key slot)
  rw [weigh_update] at heavy light
  omega

end Listing

end OnyxDB.Library
