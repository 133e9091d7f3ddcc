import Mathlib.Data.Option.Basic
import Mathlib.Logic.Function.Basic
import Mathlib.Tactic.Common

/-! Maps whose entries may expire, and the sequences of writes that build them. A write replaces the
slot of one key; looking at a map at a time hides the entries that have expired by then. -/

namespace OnyxDB.Library.Expiring
variable {κ ε : Type} [DecidableEq κ]

/-- A slot as seen at `time`. -/
def live (expired : Nat → ε → Bool) (time : Nat) (slot : Option ε) : Option ε :=
  slot.filter (fun entry => !expired time entry)

section Live
variable {expired : Nat → ε → Bool} {time : Nat}

@[simp]
theorem live_none : live expired time none = none := rfl

theorem live_some (entry : ε) :
    live expired time (some entry) = if expired time entry then none else some entry := by
  cases past : expired time entry <;> simp [live, past]

/-- Once expired, always expired. -/
def Persistent (expired : Nat → ε → Bool) : Prop :=
  ∀ (early late : Nat) (entry : ε), early ≤ late → expired early entry = true →
    expired late entry = true

/-- Looking earlier first hides nothing that is visible later. -/
theorem live_live (persistent : Persistent expired) {early late : Nat} (order : early ≤ late)
    (slot : Option ε) : live expired late (live expired early slot) = live expired late slot := by
  cases slot with
  | none => rfl
  | some entry =>
      cases past : expired early entry with
      | false => rw [live_some, past, if_neg (by simp)]
      | true =>
          rw [live_some, past, if_pos rfl, live_none, live_some,
            persistent early late entry order past, if_pos rfl]

theorem live_eq_some {slot : Option ε} {entry : ε} (found : live expired time slot = some entry) :
    slot = some entry ∧ expired time entry = false := by
  cases slot with
  | none => cases found
  | some held =>
      rw [live_some] at found
      cases past : expired time held with
      | true =>
          rw [past, if_pos rfl] at found
          cases found
      | false =>
          rw [past, if_neg (by simp)] at found
          cases found
          exact ⟨rfl, past⟩

end Live

/-- One write: the key and the slot it gets, `none` for a deletion. -/
abbrev Write (κ ε : Type) := κ × Option ε

def replay (content : κ → Option ε) (writes : List (Write κ ε)) : κ → Option ε :=
  writes.foldl (fun content write => Function.update content write.1 write.2) content

@[simp]
theorem replay_nil (content : κ → Option ε) : replay content [] = content := rfl

@[simp]
theorem replay_cons (content : κ → Option ε) (write : Write κ ε) (writes : List (Write κ ε)) :
    replay content (write :: writes) = replay (Function.update content write.1 write.2) writes := rfl

theorem replay_append (content : κ → Option ε) (first second : List (Write κ ε)) :
    replay content (first ++ second) = replay (replay content first) second := by
  rw [replay, List.foldl_append]
  rfl

/-- Writes to other keys leave a slot alone. -/
theorem replay_other (content : κ → Option ε) (writes : List (Write κ ε)) (key : κ)
    (absent : key ∉ writes.map Prod.fst) : replay content writes key = content key := by
  induction writes generalizing content with
  | nil => rfl
  | cons write writes rest =>
      simp only [List.map_cons, List.mem_cons, not_or] at absent
      rw [replay_cons, rest _ absent.2, Function.update_of_ne absent.1]

/-- A written slot does not depend on what was there before. -/
theorem replay_written (first second : κ → Option ε) (writes : List (Write κ ε)) (key : κ)
    (present : key ∈ writes.map Prod.fst) : replay first writes key = replay second writes key := by
  induction writes generalizing first second with
  | nil => cases present
  | cons write writes rest =>
      by_cases later : key ∈ writes.map Prod.fst
      · exact rest _ _ later
      · simp only [List.map_cons, List.mem_cons] at present
        have here : key = write.1 := present.resolve_right later
        rw [replay_cons, replay_cons, replay_other _ _ _ later, replay_other _ _ _ later, here,
          Function.update_self, Function.update_self]

/-- When every key is written once, each write is what is left in its slot. -/
theorem replay_of_nodup (content : κ → Option ε) (writes : List (Write κ ε))
    (distinct : (writes.map Prod.fst).Nodup) {key : κ} {slot : Option ε}
    (member : (key, slot) ∈ writes) : replay content writes key = slot := by
  induction writes generalizing content with
  | nil => cases member
  | cons write writes rest =>
      rw [List.map_cons, List.nodup_cons] at distinct
      rcases List.mem_cons.mp member with rfl | later
      · rw [replay_cons, replay_other _ _ _ distinct.1, Function.update_self]
      · exact rest _ distinct.2 later

/-- Writing the entries of some slots, each listed once, gives the slots. -/
theorem replay_listing {α : Type} {slots : κ → Option α} {entries : List (κ × α)}
    (distinct : (entries.map Prod.fst).Nodup)
    (listed : ∀ key entry, (key, entry) ∈ entries ↔ slots key = some entry) (shape : α → ε) :
    replay (fun _ => none) (entries.map (fun entry => (entry.1, some (shape entry.2)))) =
      fun key => (slots key).map shape := by
  have once : ((entries.map (fun entry => (entry.1, some (shape entry.2)))).map Prod.fst).Nodup := by
    rw [List.map_map]
    exact distinct
  funext key
  cases held : slots key with
  | some entry =>
      have member := (listed key entry).mpr held
      exact replay_of_nodup _ _ once (List.mem_map.mpr ⟨(key, entry), member, rfl⟩)
  | none =>
      apply replay_other
      rw [List.map_map]
      intro member
      obtain ⟨⟨_, entry⟩, present, rfl⟩ := List.mem_map.mp member
      have found := (listed _ entry).mp present
      simp only [Function.comp_apply] at held
      rw [held] at found
      cases found

/-- What is found after a replay was there before or was written. -/
theorem replay_mem (content : κ → Option ε) (writes : List (Write κ ε)) (key : κ) {entry : ε}
    (found : replay content writes key = some entry) :
    content key = some entry ∨ (key, some entry) ∈ writes := by
  induction writes generalizing content with
  | nil => exact Or.inl found
  | cons write writes rest =>
      rw [replay_cons] at found
      rcases rest _ found with here | later
      · by_cases same : key = write.1
        · subst same
          rw [Function.update_self] at here
          rw [← here]
          exact Or.inr List.mem_cons_self
        · rw [Function.update_of_ne same] at here
          exact Or.inl here
      · exact Or.inr (List.mem_cons_of_mem _ later)

/-- A change of every slot by itself may come before or after a replay. -/
theorem replay_shape {δ : Type} (shape : Option ε → Option δ) (content : κ → Option ε)
    (writes : List (Write κ ε)) :
    (fun key => shape (replay content writes key)) =
      replay (fun key => shape (content key)) (writes.map (fun write => (write.1, shape write.2))) := by
  induction writes generalizing content with
  | nil => rfl
  | cons write writes rest =>
      rw [replay_cons, rest, List.map_cons, replay_cons]
      congr 1
      funext key
      by_cases same : key = write.1
      · subst same
        rw [Function.update_self, Function.update_self]
      · rw [Function.update_of_ne same, Function.update_of_ne same]

/-- Replaying and then looking is looking and then replaying what the writes show. -/
theorem live_replay (expired : Nat → ε → Bool) (time : Nat) (content : κ → Option ε)
    (writes : List (Write κ ε)) :
    (fun key => live expired time (replay content writes key)) =
      replay (fun key => live expired time (content key))
        (writes.map (fun write => (write.1, live expired time write.2))) :=
  replay_shape (live expired time) content writes

/-- Writes that agree on every key they write leave what they agree on. -/
theorem live_replay_uniform {expired : Nat → ε → Bool} {time : Nat} {content target : κ → Option ε}
    {writes : List (Write κ ε)} (uniform : ∀ write ∈ writes, live expired time write.2 = target write.1) (key : κ) :
    live expired time (replay content writes key) =
      if key ∈ writes.map Prod.fst then target key else live expired time (content key) := by
  induction writes generalizing content with
  | nil => rfl
  | cons write writes rest =>
      rw [replay_cons, rest (fun later member => uniform later (List.mem_cons_of_mem write member)), List.map_cons]
      by_cases later : key ∈ writes.map Prod.fst
      · rw [if_pos later, if_pos (List.mem_cons_of_mem _ later)]
      · rw [if_neg later]
        by_cases here : key = write.1
        · rw [here, Function.update_self, if_pos List.mem_cons_self]
          exact uniform write List.mem_cons_self
        · rw [Function.update_of_ne here, if_neg]
          exact List.not_mem_cons_of_ne_of_not_mem here later

end OnyxDB.Library.Expiring
