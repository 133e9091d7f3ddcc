import Mathlib.Data.List.Infix
import Mathlib.Tactic.Common

/-! Patterns over an alphabet in which one symbol stands for any run of symbols. -/

namespace OnyxDB.Library.Wildcard
variable {α : Type}

/-- The texts of a pattern: every other symbol stands for itself. -/
inductive Denotes (wild : α) : List α → List α → Prop where
  | done : Denotes wild [] []
  | letter {symbol : α} {pattern text : List α} (plain : symbol ≠ wild) (rest : Denotes wild pattern text) :
      Denotes wild (symbol :: pattern) (symbol :: text)
  | run (consumed : List α) {pattern text : List α} (rest : Denotes wild pattern text) :
      Denotes wild (wild :: pattern) (consumed ++ text)

/-- The texts of a pattern under a reading in which a wildcard that meets itself stands for that one symbol. -/
inductive Meets (wild : α) : List α → List α → Prop where
  | done : Meets wild [] []
  | letter {symbol : α} {pattern text : List α} (plain : symbol ≠ wild) (rest : Meets wild pattern text) :
      Meets wild (symbol :: pattern) (symbol :: text)
  | itself {pattern text : List α} (rest : Meets wild pattern text) :
      Meets wild (wild :: pattern) (wild :: text)
  | run (consumed : List α) {pattern text : List α} (free : (consumed ++ text).head? ≠ some wild)
      (rest : Meets wild pattern text) : Meets wild (wild :: pattern) (consumed ++ text)

variable {wild : α}

theorem Meets.denotes {pattern text : List α} (meets : Meets wild pattern text) : Denotes wild pattern text := by
  induction meets with
  | done => exact .done
  | letter plain _ rest => exact .letter plain rest
  | itself _ rest => exact .run [wild] rest
  | run consumed _ _ rest => exact .run consumed rest

/-- In a text without the wildcard the two readings agree. -/
theorem Denotes.meets {pattern text : List α} (denotes : Denotes wild pattern text) (absent : wild ∉ text) :
    Meets wild pattern text := by
  induction denotes with
  | done => exact .done
  | letter plain _ rest => exact .letter plain (rest (fun member => absent (List.mem_cons_of_mem _ member)))
  | run consumed _ rest =>
      apply Meets.run consumed
      · intro first
        exact absent (List.mem_of_head? first)
      · exact rest (fun member => absent (List.mem_append_right consumed member))

theorem meets_nil_iff {text : List α} : Meets wild [] text ↔ text = [] := by
  constructor
  · intro meets
    cases meets
    rfl
  · rintro rfl
    exact .done

theorem meets_letter_iff {symbol : α} (plain : symbol ≠ wild) {pattern text : List α} :
    Meets wild (symbol :: pattern) text ↔ ∃ rest, text = symbol :: rest ∧ Meets wild pattern rest := by
  constructor
  · intro meets
    cases meets with
    | letter _ rest => exact ⟨_, rfl, rest⟩
    | itself rest => exact absurd rfl plain
    | run consumed free rest => exact absurd rfl plain
  · rintro ⟨rest, rfl, meets⟩
    exact .letter plain meets

theorem meets_itself_iff {pattern text : List α} :
    Meets wild (wild :: pattern) (wild :: text) ↔ Meets wild pattern text := by
  constructor
  · intro meets
    generalize shape : wild :: text = whole at meets
    cases meets with
    | letter plain _ => exact absurd rfl plain
    | itself rest =>
        cases shape
        exact rest
    | run consumed free rest =>
        rw [← shape] at free
        exact absurd rfl free
  · exact .itself

theorem meets_run_iff {pattern text : List α} (free : text.head? ≠ some wild) :
    Meets wild (wild :: pattern) text ↔ ∃ rest, rest <:+ text ∧ Meets wild pattern rest := by
  constructor
  · intro meets
    cases meets with
    | letter plain _ => exact absurd rfl plain
    | itself rest => exact absurd rfl free
    | run consumed _ rest => exact ⟨_, List.suffix_append consumed _, rest⟩
  · rintro ⟨rest, ⟨consumed, rfl⟩, meets⟩
    exact .run consumed free meets

/-- A wildcard in front leaves a suffix of the text to the rest of the pattern. -/
theorem Meets.behind_wild {pattern text : List α} (meets : Meets wild (wild :: pattern) text) :
    ∃ rest, rest <:+ text ∧ Meets wild pattern rest := by
  cases meets with
  | letter plain _ => exact absurd rfl plain
  | itself rest => exact ⟨_, List.suffix_cons _ _, rest⟩
  | run consumed _ rest => exact ⟨_, List.suffix_append consumed _, rest⟩

/-- A pattern whose beginning stands in the text word for word cannot be met earlier than behind it: a match
that starts later leaves no more of the text to the rest of the pattern. -/
theorem Meets.behind (read : List α) {pattern text late : List α} (suffix : late <:+ read ++ text)
    (meets : Meets wild (read ++ pattern) late) : ∃ rest, rest <:+ text ∧ Meets wild pattern rest := by
  induction read generalizing late with
  | nil => exact ⟨late, suffix, meets⟩
  | cons symbol read shorter =>
      rw [List.cons_append] at suffix meets
      by_cases same : symbol = wild
      · subst same
        rcases List.suffix_cons_iff.mp suffix with rfl | proper
        · exact shorter (List.suffix_refl _) (meets_itself_iff.mp meets)
        · obtain ⟨rest, within, further⟩ := meets.behind_wild
          exact shorter (within.trans proper) further
      · obtain ⟨rest, shape, further⟩ := (meets_letter_iff same).mp meets
        apply shorter ?_ further
        rcases List.suffix_cons_iff.mp suffix with whole | proper
        · rw [shape, List.cons.injEq] at whole
          rw [whole.2]
        · exact (shape ▸ List.suffix_cons symbol rest).trans proper

end OnyxDB.Library.Wildcard
