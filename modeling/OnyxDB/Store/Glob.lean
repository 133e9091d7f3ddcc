import Mathlib.Tactic.Common

/-! Wildcard matching of key patterns. -/

namespace OnyxDB.Store

/-- The loop of `glob_match`. The saved point is the pattern behind the last star and the text from which
that star was last expanded. -/
def globLoop (saved : Option (List Char × List Char)) (pattern text : List Char)
    (behind : ∀ point ∈ saved, text.length ≤ point.2.length) : Bool :=
  match text, pattern with
  | [], pattern => pattern.all (· == '*')
  | char :: text, next :: pattern =>
      if next = char then
        globLoop saved pattern text (fun point member => Nat.le_trans (Nat.le_succ _) (behind point member))
      else if next = '*' then
        globLoop (some (pattern, char :: text)) pattern (char :: text) (fun _ member => by
          cases member
          exact Nat.le_refl _)
      else
        match saved with
        | some (resumed, _ :: expanded) =>
            globLoop (some (resumed, expanded)) resumed expanded (fun _ member => by
              cases member
              exact Nat.le_refl _)
        | _ => false
  | _ :: _, [] =>
      match saved with
      | some (resumed, _ :: expanded) =>
          globLoop (some (resumed, expanded)) resumed expanded (fun _ member => by
            cases member
            exact Nat.le_refl _)
      | _ => false
termination_by (saved.elim (text.length + 1) (fun point => point.2.length), pattern.length)
decreasing_by
  · cases saved with
    | none => exact Prod.Lex.left _ _ (by simp)
    | some point => exact Prod.Lex.right _ (by simp)
  · cases saved with
    | none => exact Prod.Lex.left _ _ (by simp)
    | some point =>
        rcases Nat.lt_or_eq_of_le (behind point rfl) with shorter | same
        · exact Prod.Lex.left _ _ shorter
        · simp only [Option.elim_some]
          rw [same]
          exact Prod.Lex.right _ (by simp)
  · exact Prod.Lex.left _ _ (by simp)
  · exact Prod.Lex.left _ _ (by simp)

def globMatch (pattern text : String) : Bool :=
  globLoop none pattern.toList text.toList (fun _ member => nomatch member)

end OnyxDB.Store
