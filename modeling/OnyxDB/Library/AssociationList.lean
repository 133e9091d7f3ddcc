import Mathlib.Data.List.AList

/-! Looking up a key after the value of a key is replaced in place. -/

namespace OnyxDB.Library
variable {α : Type} {β : α → Type} [DecidableEq α]

private theorem kreplace_cons_self (key : α) (value other : β key) (entries : List (Sigma β)) :
    (⟨key, other⟩ :: entries : List (Sigma β)).kreplace key value = ⟨key, value⟩ :: entries := by
  rw [List.kreplace, List.lookmap_cons_some]
  simp

private theorem kreplace_cons_ne {key : α} (value : β key) {entry : Sigma β} (differ : key ≠ entry.1)
    (entries : List (Sigma β)) :
    (entry :: entries).kreplace key value = entry :: entries.kreplace key value := by
  unfold List.kreplace
  rw [List.lookmap_cons_none]
  exact if_neg differ

private theorem dlookup_kreplace (key other : α) (value : β key) (entries : List (Sigma β)) :
    (entries.kreplace key value).dlookup other =
      if same : other = key then (entries.dlookup key).map (fun _ => same ▸ value)
      else entries.dlookup other := by
  induction entries with
  | nil =>
      split <;> rfl
  | cons entry entries rest =>
      obtain ⟨first, held⟩ := entry
      by_cases found : key = first
      · subst found
        rw [kreplace_cons_self]
        by_cases same : other = key
        · subst same
          simp
        · rw [dif_neg same, List.dlookup_cons_ne _ _ same, List.dlookup_cons_ne _ _ same]
      · rw [kreplace_cons_ne value found]
        by_cases same : other = key
        · subst same
          rw [List.dlookup_cons_ne _ _ found, rest, List.dlookup_cons_ne _ _ found]
        · rw [dif_neg same]
          by_cases here : other = first
          · subst here
            simp
          · rw [List.dlookup_cons_ne _ _ here, rest, dif_neg same, List.dlookup_cons_ne _ _ here]

theorem lookup_replace_self (list : AList β) (key : α) (value : β key) :
    (list.replace key value).lookup key = (list.lookup key).map (fun _ => value) := by
  have found := dlookup_kreplace key key value list.entries
  rw [dif_pos rfl] at found
  exact found

theorem lookup_replace_ne (list : AList β) {key other : α} (value : β key) (differ : other ≠ key) :
    (list.replace key value).lookup other = list.lookup other := by
  have found := dlookup_kreplace key other value list.entries
  rw [dif_neg differ] at found
  exact found

end OnyxDB.Library
