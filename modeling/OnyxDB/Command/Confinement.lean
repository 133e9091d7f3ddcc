import OnyxDB.Command.Execution
import OnyxDB.Store.Programs

/-! A command changes only the keys that `affected_keys` names for it. -/

namespace OnyxDB.Command
open OnyxDB.Engine OnyxDB.Engine.Value OnyxDB.Store OnyxDB.Store.ShardedStore OnyxDB.Protocol

section AffectedKeys

theorem mem_affected {args : List String} {key : String} (named : key ∈ affectedArguments args) :
    utf8Bytes key ∈ affectedKeys args := by
  rw [affectedKeys, List.mem_eraseDups]
  exact List.mem_map_of_mem named

theorem first_mem_take {args : List String} (long : 2 ≤ args.length) (count : Nat) :
    argument args 1 ∈ (args.drop 1).take (count + 1) := by
  match args, long with
  | _ :: first :: rest, _ => simp [argument]

theorem second_mem_take {args : List String} (long : 3 ≤ args.length) (count : Nat) :
    argument args 2 ∈ (args.drop 1).take (count + 2) := by
  match args, long with
  | _ :: _ :: second :: rest, _ => simp [argument]

/-- A write command other than `MSET` may change its first argument. -/
theorem affected_first {args : List String} {command : String} (name : argument args 0 = command)
    (write : isWriteCommand command = true) (single : command ≠ "MSET") (long : 2 ≤ args.length) :
    [utf8Bytes (argument args 1)] ⊆ affectedKeys args := by
  rw [List.cons_subset]
  refine ⟨mem_affected ?_, List.nil_subset _⟩
  unfold affectedArguments
  split
  next mset => exact absurd (name.symm.trans mset) single
  · exact first_mem_take long 1
  · exact first_mem_take long 1
  · rw [name, if_pos write]
    exact first_mem_take long 0

/-- `RENAME` and `COPY` may change both their arguments. -/
theorem affected_both {args : List String} (double : argument args 0 = "RENAME" ∨ argument args 0 = "COPY")
    (long : 3 ≤ args.length) :
    [utf8Bytes (argument args 1), utf8Bytes (argument args 2)] ⊆ affectedKeys args := by
  have arguments : affectedArguments args = (args.drop 1).take 2 := by
    unfold affectedArguments
    rcases double with name | name <;> rw [name] <;> rfl
  rw [List.cons_subset, List.cons_subset]
  refine ⟨mem_affected ?_, mem_affected ?_, List.nil_subset _⟩
  · rw [arguments]
    exact first_mem_take (by omega) 1
  · rw [arguments]
    exact second_mem_take long 0

theorem affected_pairs {args : List String} (name : argument args 0 = "MSET") :
    (pairKeys args.tail).map utf8Bytes ⊆ affectedKeys args := by
  intro key member
  obtain ⟨word, listed, rfl⟩ := List.mem_map.mp member
  apply mem_affected
  unfold affectedArguments
  rw [name]
  exact listed

end AffectedKeys

variable {keys : List Bytes}

theorem setOptions_confined (words : List String) (options : SetOptions) :
    Confined keys (setOptions words options) := by
  fun_induction setOptions words options <;>
    first
      | exact Confined.pure _
      | assumption
      | exact Confined.bind .now (fun _ => by solve_by_elim)

/-- A command with too few words changes nothing. -/
theorem arity_confined {words : Nat} {args : List String} {form : Form}
    (confined : words ≤ args.length → Confined keys form) :
    Confined keys ((arity words args form).getD unknownCommand) := by
  unfold arity
  split
  next enough => exact confined enough
  · exact Confined.pure _

variable [Platform]

section Operations

theorem get_confined (key : String) : Confined keys (get key) := by
  apply Confined.bind (.reads rfl)
  intro found
  split <;> exact Confined.pure _

theorem inspect_confined {α ε : Type} (key : String) (missing : α) (look : OnyxValue → Except ε α) :
    Confined keys (inspect key missing look) :=
  Confined.map (.reads rfl) _

theorem jsonRead_confined {α : Type} (key path : String) (look : Json → Option α) :
    Confined keys (jsonRead key path look) := by
  unfold jsonRead
  split
  · exact Confined.pure _
  · exact inspect_confined key _ _

theorem jsonEdit_confined {α : Type} (key path : String)
    (edit : List JsonPathSegment → Json → Except String α × Json) :
    Confined [utf8Bytes key] (jsonEdit key path edit) := by
  unfold jsonEdit
  split
  · exact Confined.pure _
  · apply Confined.bind (.perform (List.Subset.refl _))
    intro edited
    split <;> exact Confined.pure _

theorem jsonSet_confined (key path : String) (newValue : Json) :
    Confined [utf8Bytes key] (jsonSet key path newValue) := by
  unfold jsonSet
  split
  · exact Confined.pure _
  · exact Confined.perform (List.Subset.refl _)
  · apply Confined.bind (.perform (List.Subset.refl _))
    intro edited
    split <;> exact Confined.pure _

theorem jsonDel_confined (key path : String) : Confined [utf8Bytes key] (jsonDel key path) := by
  unfold jsonDel
  split
  · exact Confined.pure _
  · exact Confined.map (.perform (List.Subset.refl _)) _
  · apply Confined.bind (.perform (List.Subset.refl _))
    intro edited
    split <;> exact Confined.pure _

theorem ttl_confined (key : String) : Confined keys (ttl key) := by
  apply Confined.bind (.reads rfl)
  intro found
  split
  · exact Confined.pure _
  · exact Confined.pure _
  · apply Confined.bind .now
    intro reading
    simp only
    split <;> exact Confined.pure _

theorem expire_confined (key : String) (seconds : Nat) : Confined [utf8Bytes key] (expire key seconds) :=
  Confined.bind .now (fun _ => Confined.perform (List.Subset.refl _))

theorem expireConditional_confined (key : String) (seconds : Nat) (condition : String) :
    Confined [utf8Bytes key] (expireConditional key seconds condition) := by
  have require (expiry : Bool) : Confined [utf8Bytes key] (expireConditional.require key seconds expiry) :=
    Confined.bind .now (fun _ => Confined.perform (List.Subset.refl _))
  unfold expireConditional
  split
  · exact require false
  · exact require true
  · exact Confined.pure _

theorem incrby_confined (key : String) (delta : Int64) : Confined [utf8Bytes key] (incrby key delta) :=
  Confined.perform (List.Subset.refl _)

theorem keysMatching_confined (pattern : String) : Confined keys (keysMatching pattern) := by
  apply Confined.bind (Confined.map (.reads rfl) _)
  intro listed
  split <;> exact Confined.pure _

end Operations

section Forms

theorem setCommand_confined (args : List String) :
    Confined [utf8Bytes (argument args 1)] (setCommand args) := by
  apply Confined.bind (setOptions_confined _ _)
  intro options
  split
  · exact Confined.pure _
  · exact Confined.map (.perform (List.Subset.refl _)) _

theorem setPairs_confined (words : List String) :
    Confined ((pairKeys words).map utf8Bytes) (setPairs words) := by
  fun_induction pairKeys words with
  | case1 key value rest further =>
      rw [setPairs]
      apply Confined.bind
      · exact Confined.map (.perform (by simp [Operation.writes])) _
      · intro _
        exact further.mono (by simp)
  | case2 words short =>
      have done : setPairs words = pure () := by
        unfold setPairs
        split
        next key value rest => exact absurd rfl (short key value rest)
        · rfl
      rw [done]
      exact Confined.pure _

theorem msetCommand_confined (args : List String) :
    Confined ((pairKeys args.tail).map utf8Bytes) (msetCommand args) := by
  unfold msetCommand
  split
  · exact Confined.pure _
  · exact Confined.bind (setPairs_confined _) (fun _ => Confined.pure _)

theorem getAllTexts_confined (words : List String) : Confined keys (getAllTexts words) := by
  induction words with
  | nil => exact Confined.pure _
  | cons key words rest =>
      apply Confined.bind (get_confined key)
      intro found
      split
      · exact Confined.pure _
      · exact Confined.map rest _

theorem expireCommand_confined (args : List String) :
    Confined [utf8Bytes (argument args 1)] (expireCommand args) := by
  unfold expireCommand
  split
  · exact Confined.pure _
  · split
    · exact Confined.bind (expire_confined _ _) (fun _ => Confined.pure _)
    · split
      · exact Confined.pure _
      · exact Confined.bind (expireConditional_confined _ _ _) (fun _ => Confined.pure _)

theorem jsonSetCommand_confined {args : List String}
    (within : 2 ≤ args.length → [utf8Bytes (argument args 1)] ⊆ keys) :
    Confined keys (jsonSetCommand args) := by
  unfold jsonSetCommand
  split
  · exact Confined.pure _
  next usable =>
    split
    · exact Confined.pure _
    · exact Confined.map ((jsonSet_confined _ _ _).mono (within (by omega))) _

theorem expireatCommand_confined (key timestamp : String) :
    Confined [utf8Bytes key] (expireatCommand key timestamp) := by
  unfold expireatCommand
  split
  · exact Confined.pure _
  · exact Confined.bind (.perform (List.Subset.refl _)) (fun _ => Confined.pure _)

theorem jsonNumincrbyCommand_confined (args : List String) :
    Confined [utf8Bytes (argument args 1)] (jsonNumincrbyCommand args) := by
  unfold jsonNumincrbyCommand
  split
  · exact Confined.pure _
  · exact (jsonEdit_confined _ _ _).map _

theorem jsonArrappendCommand_confined (args : List String) :
    Confined [utf8Bytes (argument args 1)] (jsonArrappendCommand args) := by
  unfold jsonArrappendCommand
  split
  · exact Confined.pure _
  · exact (jsonEdit_confined _ _ _).map _

theorem hsetCommand_confined (args : List String) :
    Confined [utf8Bytes (argument args 1)] (hsetCommand args) := by
  unfold hsetCommand
  split
  · exact Confined.pure _
  · exact Confined.map (.perform (List.Subset.refl _)) _

theorem incrbyCommand_confined (key delta : String) : Confined [utf8Bytes key] (incrbyCommand key delta) := by
  unfold incrbyCommand
  split
  · exact Confined.pure _
  · exact (incrby_confined key _).map _

theorem decrbyCommand_confined (key delta : String) : Confined [utf8Bytes key] (decrbyCommand key delta) := by
  unfold decrbyCommand
  split
  · exact Confined.pure _
  · split
    · exact Confined.pure _
    · exact (incrby_confined key _).map _

omit [Platform] in
/-- A write form whose first argument is the only key it changes. -/
theorem first_confined {words : Nat} {args : List String} {command : String} {form : Form}
    (name : argument args 0 = command) (write : isWriteCommand command = true) (single : command ≠ "MSET")
    (long : 2 ≤ words) (confined : Confined [utf8Bytes (argument args 1)] form) :
    Confined (affectedKeys args) ((arity words args form).getD unknownCommand) :=
  arity_confined fun enough => confined.mono (affected_first name write single (long.trans enough))

/-- The same for a form that is one operation and an answer to its result. -/
theorem once_confined {α : Type} {words : Nat} {args : List String} {command : String}
    {operation : Operation α} {answer : α → RESPValue × Bool}
    (name : argument args 0 = command) (write : isWriteCommand command = true) (single : command ≠ "MSET")
    (long : 2 ≤ words) (writes : operation.writes = [utf8Bytes (argument args 1)]) :
    Confined (affectedKeys args)
      ((arity words args (perform operation >>= fun value => Pure.pure (answer value))).getD unknownCommand) :=
  first_confined name write single long (Confined.map (.perform (by rw [writes]; exact List.Subset.refl _)) _)

theorem commandForm_confined (args : List String) :
    Confined (affectedKeys args) ((commandForm args).getD unknownCommand) := by
  unfold commandForm
  simp only
  split
  next name => exact first_confined name rfl (by decide) (by decide) (setCommand_confined args)
  next => exact arity_confined fun _ => (get_confined _).map _
  next name =>
    exact first_confined name rfl (by decide) (by decide)
      (Confined.map (.perform (List.Subset.refl _)) _)
  next name => exact first_confined name rfl (by decide) (by decide) ((incrby_confined _ 1).map _)
  next name => exact once_confined name rfl (by decide) (by decide) rfl
  next name => exact once_confined name rfl (by decide) (by decide) rfl
  next name =>
    exact first_confined name rfl (by decide) (by decide)
      ((Confined.map (.perform (List.Subset.refl _)) _).map _)
  next name =>
    exact first_confined name rfl (by decide) (by decide)
      ((Confined.map (.perform (List.Subset.refl _)) _).map _)
  next => exact arity_confined fun _ => (inspect_confined _ _ _).map _
  next name => exact first_confined name rfl (by decide) (by decide) (expireatCommand_confined _ _)
  next => exact arity_confined fun _ => (ttl_confined _).map _
  next => exact arity_confined fun _ => (Confined.map (.reads rfl) _).map _
  next => exact arity_confined fun _ => (Confined.reads rfl).map _
  next name => exact jsonSetCommand_confined (affected_first name rfl (by decide))
  next => exact arity_confined fun _ => (jsonRead_confined _ _ _).map _
  next name => exact first_confined name rfl (by decide) (by decide) ((jsonDel_confined _ _).map _)
  next => exact arity_confined fun _ => (jsonRead_confined _ _ _).map _
  next name => exact first_confined name rfl (by decide) (by decide) (jsonNumincrbyCommand_confined args)
  next name => exact first_confined name rfl (by decide) (by decide) (jsonArrappendCommand_confined args)
  next => exact arity_confined fun _ => (jsonRead_confined _ _ _).map _
  next => exact arity_confined fun _ => (jsonRead_confined _ _ _).map _
  next name => exact once_confined name rfl (by decide) (by decide) rfl
  next => exact arity_confined fun _ => (inspect_confined _ _ _).map _
  next name =>
    exact first_confined name rfl (by decide) (by decide)
      ((Confined.map (.perform (List.Subset.refl _)) _).map _)
  next => exact arity_confined fun _ => (inspect_confined _ _ _).map _
  next => exact arity_confined fun _ => (inspect_confined _ _ _).map _
  next name =>
    exact arity_confined fun enough => Confined.map (.perform (affected_both (Or.inl name) enough)) _
  next name => exact (msetCommand_confined args).mono (affected_pairs name)
  next => exact (getAllTexts_confined _).map _
  next => exact (keysMatching_confined _).map _
  next name => exact first_confined name rfl (by decide) (by decide) (hsetCommand_confined args)
  next => exact arity_confined fun _ => (inspect_confined _ _ _).map _
  next => exact arity_confined fun _ => (inspect_confined _ _ _).map _
  next name =>
    exact first_confined name rfl (by decide) (by decide)
      ((Confined.map (.perform (List.Subset.refl _)) _).map _)
  next =>
    split <;> exact Confined.pure _
  next name => exact first_confined name rfl (by decide) (by decide) (incrbyCommand_confined _ _)
  next name => exact first_confined name rfl (by decide) (by decide) (decrbyCommand_confined _ _)
  next name => exact once_confined name rfl (by decide) (by decide) rfl
  next => exact arity_confined fun _ => ((get_confined _).map _).map _
  next name => exact once_confined name rfl (by decide) (by decide) rfl
  next name =>
    exact first_confined name rfl (by decide) (by decide)
      (Confined.map (.perform (List.Subset.refl _)) _)
  next => exact arity_confined fun _ => ((inspect_confined _ _ _).map _).map _
  next => exact arity_confined fun _ => ((inspect_confined _ _ _).map _).map _
  next name =>
    exact arity_confined fun enough => Confined.bind
      (.perform (List.Subset.trans (List.subset_cons_self _ _) (affected_both (Or.inr name) enough)))
      (fun _ => Confined.pure _)
  next name => exact first_confined name rfl (by decide) (by decide) (expireCommand_confined args)
  next => exact Confined.pure _
  next => exact Confined.pure _

/-- Whatever the store and the arguments, a command changes only the keys `affected_keys` names. -/
theorem executeCommand_confined (args : List String) : Confined (affectedKeys args) (executeCommand args) :=
  (commandForm_confined args).map _

end Forms

end OnyxDB.Command
