import Mathlib.Data.List.Basic
import Mathlib.Data.List.Nodup
import Mathlib.Tactic.Common

/-! Finite maps from naturals, listed in increasing order of their keys. -/

namespace OnyxDB.Library

structure Catalog (α : Type) where
  entries : List (Nat × α)
  ordered : entries.Pairwise (fun first second => first.1 < second.1)

namespace Catalog
variable {α : Type}

def empty : Catalog α := ⟨[], List.Pairwise.nil⟩

def lookup (catalog : Catalog α) (key : Nat) : Option α :=
  (catalog.entries.find? (fun entry => entry.1 == key)).map Prod.snd

def contains (catalog : Catalog α) (key : Nat) : Bool :=
  catalog.entries.any (fun entry => entry.1 == key)

def filter (catalog : Catalog α) (keep : Nat → Bool) : Catalog α :=
  ⟨catalog.entries.filter (fun entry => keep entry.1), catalog.ordered.filter _⟩

def erase (catalog : Catalog α) (key : Nat) : Catalog α :=
  catalog.filter (fun other => other != key)

/-- Adds an entry, in the place of any other entry under its key. -/
def insert (catalog : Catalog α) (key : Nat) (value : α) : Catalog α where
  entries := catalog.entries.filter (fun entry => decide (entry.1 < key)) ++
    (key, value) :: catalog.entries.filter (fun entry => decide (key < entry.1))
  ordered := by
    rw [List.pairwise_append, List.pairwise_cons]
    refine ⟨catalog.ordered.filter _, ⟨?_, catalog.ordered.filter _⟩, ?_⟩
    · intro entry member
      simpa using (List.mem_filter.mp member).2
    · intro first before second after
      have low : first.1 < key := by simpa using (List.mem_filter.mp before).2
      rcases List.mem_cons.mp after with rfl | after
      · exact low
      · have high : key < second.1 := by simpa using (List.mem_filter.mp after).2
        exact Nat.lt_trans low high

@[ext]
theorem ext {first second : Catalog α} (same : first.entries = second.entries) : first = second := by
  cases first
  cases second
  simpa using same

theorem filter_filter (catalog : Catalog α) (first second : Nat → Bool) :
    (catalog.filter first).filter second = catalog.filter (fun key => first key && second key) := by
  ext1
  simp only [filter, List.filter_filter]
  congr 1
  funext entry
  exact Bool.and_comm _ _

theorem filter_lt_append_filter_gt {entries : List (Nat × α)}
    (ordered : entries.Pairwise (fun first second => first.1 < second.1)) (key : Nat) :
    entries.filter (fun entry => decide (entry.1 < key)) ++
        entries.filter (fun entry => decide (key < entry.1)) =
      entries.filter (fun entry => decide (entry.1 ≠ key)) := by
  induction entries with
  | nil => rfl
  | cons entry entries rest =>
      obtain ⟨first, later⟩ := List.pairwise_cons.mp ordered
      by_cases below : entry.1 < key
      · have differ : entry.1 ≠ key := by omega
        have notAbove : ¬ key < entry.1 := by omega
        simp only [List.filter_cons, below, differ, notAbove, decide_true, decide_false, ne_eq,
          not_false_eq_true, if_true, Bool.false_eq_true, if_false, List.cons_append]
        rw [← rest later]
      · have none_below : entries.filter (fun other => decide (other.1 < key)) = [] := by
          rw [List.filter_eq_nil_iff]
          intro other member
          have order := first other member
          simp only [decide_eq_true_eq]
          omega
        have all_above : entries.filter (fun other => decide (key < other.1)) =
            entries.filter (fun other => decide (other.1 ≠ key)) := by
          apply List.filter_congr
          intro other member
          have order := first other member
          simp only [decide_eq_decide]
          omega
        have here : decide (key < entry.1) = decide (entry.1 ≠ key) := by
          rw [decide_eq_decide]
          omega
        simp only [List.filter_cons, below, none_below, decide_false, Bool.false_eq_true, if_false,
          List.nil_append, all_above, here]

/-- Filters that agree on the keys of a catalog leave the same entries. -/
theorem filter_congr {catalog : Catalog α} {first second : Nat → Bool}
    (agree : ∀ entry ∈ catalog.entries, first entry.1 = second entry.1) :
    catalog.filter first = catalog.filter second := by
  ext1
  exact List.filter_congr agree

theorem filter_erase_of_not {catalog : Catalog α} {keep : Nat → Bool} {key : Nat}
    (dropped : keep key = false) : (catalog.erase key).filter keep = catalog.filter keep := by
  rw [erase, filter_filter]
  apply filter_congr
  intro entry _
  by_cases same : entry.1 = key
  · rw [same, dropped, Bool.and_false]
  · simp [same]

/-- Filtering after an insertion. -/
theorem filter_insert (catalog : Catalog α) (key : Nat) (value : α) (keep : Nat → Bool) :
    (catalog.insert key value).filter keep =
      if keep key then (catalog.filter keep).insert key value else catalog.filter keep := by
  have ends : catalog.entries.filter (fun entry => decide (entry.1 < key)) ++
      catalog.entries.filter (fun entry => decide (key < entry.1)) =
        catalog.entries.filter (fun entry => decide (entry.1 ≠ key)) :=
    filter_lt_append_filter_gt catalog.ordered key
  have swap (below : Nat × α → Bool) :
      (catalog.entries.filter below).filter (fun entry => keep entry.1) =
        (catalog.entries.filter (fun entry => keep entry.1)).filter below := by
    rw [List.filter_filter, List.filter_filter]
    congr 1
    funext entry
    exact Bool.and_comm _ _
  by_cases kept : keep key = true
  · rw [if_pos kept]
    ext1
    simp only [filter, insert, List.filter_append, List.filter_cons, kept, if_true, swap]
  · rw [if_neg kept]
    ext1
    simp only [filter, insert, List.filter_append, List.filter_cons, kept]
    rw [if_neg (by simp), ← List.filter_append, ends, List.filter_filter]
    apply List.filter_congr
    intro entry _
    by_cases same : entry.1 = key
    · simp [same, kept]
    · simp [same]

/-- A key above all others goes to the end. -/
theorem insert_entries_of_lt (catalog : Catalog α) (key : Nat) (value : α)
    (last : ∀ entry ∈ catalog.entries, entry.1 < key) :
    (catalog.insert key value).entries = catalog.entries ++ [(key, value)] := by
  have low : catalog.entries.filter (fun entry => decide (entry.1 < key)) = catalog.entries := by
    rw [List.filter_eq_self]
    intro entry member
    simpa using last entry member
  have high : catalog.entries.filter (fun entry => decide (key < entry.1)) = [] := by
    rw [List.filter_eq_nil_iff]
    intro entry member
    have bound := last entry member
    simp only [decide_eq_true_eq]
    omega
  simp only [insert, low, high]

theorem mem_insert {catalog : Catalog α} {key : Nat} {value : α} {entry : Nat × α} :
    entry ∈ (catalog.insert key value).entries ↔
      entry = (key, value) ∨ (entry ∈ catalog.entries ∧ entry.1 ≠ key) := by
  simp only [insert, List.mem_append, List.mem_filter, List.mem_cons, decide_eq_true_eq]
  constructor
  · rintro (⟨member, low⟩ | rfl | ⟨member, high⟩)
    · exact Or.inr ⟨member, by omega⟩
    · exact Or.inl rfl
    · exact Or.inr ⟨member, by omega⟩
  · rintro (rfl | ⟨member, differ⟩)
    · exact Or.inr (Or.inl rfl)
    · by_cases low : entry.1 < key
      · exact Or.inl ⟨member, low⟩
      · exact Or.inr (Or.inr ⟨member, by omega⟩)

end Catalog

end OnyxDB.Library
