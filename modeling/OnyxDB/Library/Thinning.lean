import Mathlib.Data.List.Basic
import Mathlib.Data.List.Chain
import Mathlib.Data.List.TakeWhile
import Mathlib.Tactic.Common

/-! Runs of consecutive numbers held by groups, some of which are dropped. What is left is again a run
exactly when no dropped group has kept groups on both sides. -/

namespace OnyxDB.Library.Thinning
variable {α : Type}

/-- Numbers that increase by one. -/
def Run (numbers : List Nat) : Prop := numbers.IsChain (fun first second => second = first + 1)

theorem Run.lt_of_append {first second : List Nat} (run : Run (first ++ second)) :
    ∀ low ∈ first, ∀ high ∈ second, low < high := by
  have increasing : (first ++ second).Pairwise (· < ·) := by
    apply List.isChain_iff_pairwise.mp
    exact run.imp (fun _ _ next => by omega)
  intro low below high above
  exact (List.pairwise_append.mp increasing).2.2 low below high above

/-- A run holds every number between two of its members. -/
theorem Run.mem_between {numbers : List Nat} (run : Run numbers) {low middle high : Nat}
    (below : low ∈ numbers) (above : high ∈ numbers) (early : low ≤ middle) (late : middle ≤ high) :
    middle ∈ numbers := by
  induction numbers generalizing low with
  | nil => cases below
  | cons first numbers rest =>
      have tail : Run numbers := run.tail
      have order : ∀ other ∈ numbers, first < other :=
        fun other member => @Run.lt_of_append [first] numbers run first (by simp) other member
      by_cases start : middle = first
      · rw [start]
        exact List.mem_cons_self
      · right
        rcases List.mem_cons.mp above with rfl | further
        · rcases List.mem_cons.mp below with rfl | other
          · omega
          · have := order low other
            omega
        · rcases List.mem_cons.mp below with rfl | other
          · cases numbers with
            | nil => cases further
            | cons second numbers =>
                have next := (List.isChain_cons_cons.mp run).1
                exact rest tail List.mem_cons_self further (by omega)
          · exact rest tail other further early

/-- No dropped member has kept members on both sides. -/
def NoHole (keep : α → Bool) (members : List α) : Prop :=
  ∀ before hole after, members = before ++ hole :: after → keep hole = false →
    (∀ member ∈ before, keep member = false) ∨ ∀ member ∈ after, keep member = false

/-- Without a hole the kept members stand together. -/
theorem NoHole.middle {keep : α → Bool} {members : List α} (solid : NoHole keep members) :
    ∃ before after, members = before ++ members.filter keep ++ after := by
  have first := List.takeWhile_append_dropWhile (p := fun member => !keep member) (l := members)
  generalize dropped : members.takeWhile (fun member => !keep member) = before at first
  generalize rest : members.dropWhile (fun member => !keep member) = remaining at first
  have outside : before.filter keep = [] := by
    rw [List.filter_eq_nil_iff]
    intro member present
    rw [← dropped] at present
    simpa using List.mem_takeWhile_imp present
  cases remaining with
  | nil =>
      rw [List.append_nil] at first
      refine ⟨before, [], ?_⟩
      rw [← first, outside]
      simp
  | cons start remaining =>
      have kept : keep start = true := by
        have head := List.head_dropWhile_not (p := fun member => !keep member) (l := members)
          (by rw [rest]; exact List.cons_ne_nil _ _)
        simpa [rest] using head
      have second := List.takeWhile_append_dropWhile (p := keep) (l := remaining)
      generalize run : remaining.takeWhile keep = inside at second
      generalize left : remaining.dropWhile keep = after at second
      have all : ∀ member ∈ inside, keep member = true := by
        intro member present
        rw [← run] at present
        exact List.mem_takeWhile_imp present
      have gone : ∀ member ∈ after, keep member = false := by
        cases after with
        | nil => simp
        | cons hole after =>
            have dropsHole : keep hole = false := by
              have head := List.head_dropWhile_not (p := keep) (l := remaining)
                (by rw [left]; exact List.cons_ne_nil _ _)
              simpa [left] using head
            have cut : members = (before ++ start :: inside) ++ hole :: after := by
              rw [← first, ← second]
              simp
            rcases solid _ hole after cut dropsHole with nothing | others
            · have lost := nothing start (by simp)
              rw [kept] at lost
              cases lost
            · intro member present
              rcases List.mem_cons.mp present with rfl | later
              · exact dropsHole
              · exact others member later
      refine ⟨before, after, ?_⟩
      have outsideAfter : after.filter keep = [] := by
        rw [List.filter_eq_nil_iff]
        intro member present
        simp [gone member present]
      have insideAll : inside.filter keep = inside := List.filter_eq_self.mpr all
      have picked : members.filter keep = start :: inside := by
        rw [← first, ← second]
        simp only [List.filter_append, List.filter_cons, kept, if_true, outside, insideAll,
          outsideAfter, List.nil_append, List.append_nil]
      rw [picked, ← first, ← second]
      simp

/-- The kept groups of a run form a run exactly when no hole is left. -/
theorem run_filter_iff (keep : α → Bool) (numbers : α → List Nat) (groups : List α)
    (nonempty : ∀ group ∈ groups, numbers group ≠ []) (run : Run (groups.flatMap numbers)) :
    Run ((groups.filter keep).flatMap numbers) ↔ NoHole keep groups := by
  constructor
  · intro thinned before hole after cut dropped
    by_contra both
    push Not at both
    obtain ⟨⟨low, early, lowKept⟩, ⟨high, late, highKept⟩⟩ := both
    subst cut
    obtain ⟨below, belowMem⟩ := List.exists_mem_of_ne_nil _ (nonempty low (by simp [early]))
    obtain ⟨middle, middleMem⟩ := List.exists_mem_of_ne_nil _ (nonempty hole (by simp))
    obtain ⟨above, aboveMem⟩ := List.exists_mem_of_ne_nil _ (nonempty high (by simp [late]))
    have parts : (before ++ hole :: after).flatMap numbers =
        before.flatMap numbers ++ (numbers hole ++ after.flatMap numbers) := by simp
    rw [parts] at run
    have lower : ∀ number ∈ before.flatMap numbers, number < middle :=
      fun number member => run.lt_of_append number member middle (by simp [middleMem])
    have upper : ∀ number ∈ after.flatMap numbers, middle < number :=
      fun number member => Run.lt_of_append (List.IsChain.right_of_append run) middle middleMem
        number member
    have keptParts : (before ++ hole :: after).filter keep = before.filter keep ++ after.filter keep := by
      simp [List.filter_append, dropped]
    rw [keptParts, List.flatMap_append] at thinned
    have lowIn : below ∈ (before.filter keep).flatMap numbers :=
      List.mem_flatMap.mpr ⟨low, List.mem_filter.mpr ⟨early, by simpa using lowKept⟩, belowMem⟩
    have highIn : above ∈ (after.filter keep).flatMap numbers :=
      List.mem_flatMap.mpr ⟨high, List.mem_filter.mpr ⟨late, by simpa using highKept⟩, aboveMem⟩
    have lowBound := lower below (List.mem_flatMap.mpr ⟨low, early, belowMem⟩)
    have highBound := upper above (List.mem_flatMap.mpr ⟨high, late, aboveMem⟩)
    have found := thinned.mem_between (List.mem_append_left _ lowIn) (List.mem_append_right _ highIn)
      lowBound.le highBound.le
    rcases List.mem_append.mp found with held | held
    · obtain ⟨group, member, value⟩ := List.mem_flatMap.mp held
      have := lower middle (List.mem_flatMap.mpr ⟨group, (List.mem_filter.mp member).1, value⟩)
      omega
    · obtain ⟨group, member, value⟩ := List.mem_flatMap.mp held
      have := upper middle (List.mem_flatMap.mpr ⟨group, (List.mem_filter.mp member).1, value⟩)
      omega
  · intro solid
    obtain ⟨before, after, cut⟩ := solid.middle
    rw [cut] at run
    rw [List.flatMap_append, List.flatMap_append] at run
    exact run.left_of_append.right_of_append

/-- Dropping groups without numbers changes nothing. -/
theorem flatMap_filter_nonempty (numbers : α → List Nat) (holds : α → Bool) (groups : List α)
    (decides : ∀ group ∈ groups, holds group = true ↔ numbers group ≠ []) :
    (groups.filter holds).flatMap numbers = groups.flatMap numbers := by
  induction groups with
  | nil => rfl
  | cons group groups rest =>
      have others := rest (fun group member => decides group (List.mem_cons_of_mem _ member))
      have here := decides group List.mem_cons_self
      by_cases held : holds group = true
      · rw [List.filter_cons_of_pos held, List.flatMap_cons, List.flatMap_cons, others]
      · have empty : numbers group = [] := by
          by_contra nonempty
          exact held (here.mpr nonempty)
        rw [List.filter_cons_of_neg held, List.flatMap_cons, others, empty, List.nil_append]

end OnyxDB.Library.Thinning
