import OnyxDB.Command.Honesty
import OnyxDB.Engine.AccountingRuns

/-! Commands are composed of engine operations and readings of the clock, and of nothing else: what every operation
keeps, every command keeps. -/

namespace OnyxDB.Command
open OnyxDB.Engine OnyxDB.Engine.Value OnyxDB.Store OnyxDB.Store.ShardedStore OnyxDB.Protocol

variable [Platform]

/-- Programs built of engine operations and readings of the clock. -/
inductive Composed : {α : Type} → StoreM α → Prop where
  | pure {α : Type} (value : α) : Composed (Pure.pure value)
  | bind {α β : Type} {program : StoreM α} {next : α → StoreM β} (first : Composed program)
      (rest : ∀ value, Composed (next value)) : Composed (program >>= next)
  | now : Composed ShardedStore.now
  | perform {α : Type} (operation : Operation α) : Composed (ShardedStore.perform operation)

/-- A program composed of operations keeps what each of them keeps. -/
theorem Composed.keeps {kept : OnyxEngine → Prop}
    (operations : ∀ {α : Type} (operation : Operation α) engine, kept engine → kept (operation.run engine).2)
    (ticks : ∀ engine : OnyxEngine, kept engine → kept { engine with clock := engine.clock.tick })
    {α : Type} {program : StoreM α} (composed : Composed program) (store : ShardedStore) (start : kept store.engine) :
    kept (program store).2.engine := by
  induction composed generalizing store with
  | pure value => exact start
  | bind first rest early late => exact late _ _ (early store start)
  | now => exact ticks store.engine start
  | perform operation => exact operations operation store.engine start

/-- The limits are no part of what operations change. -/
theorem Composed.limits {α : Type} {program : StoreM α} (composed : Composed program) (store : ShardedStore) :
    (program store).2.maxmemoryBytes = store.maxmemoryBytes ∧
      (program store).2.maxmemoryPolicy = store.maxmemoryPolicy := by
  induction composed generalizing store with
  | pure value => exact ⟨rfl, rfl⟩
  | bind first rest early late => exact ⟨(late _ _).1.trans (early store).1, (late _ _).2.trans (early store).2⟩
  | now => exact ⟨rfl, rfl⟩
  | perform operation => exact ⟨rfl, rfl⟩

section Forms

theorem Composed.map {α β : Type} {program : StoreM α} (composed : Composed program) (answer : α → β) :
    Composed (program >>= fun value => Pure.pure (answer value)) := composed.bind (fun _ => .pure _)

theorem get_composed (key : String) : Composed (get key) := by
  apply Composed.bind (.perform _)
  rintro (_ | _ | _) <;> exact .pure _

theorem getAllTexts_composed (words : List String) : Composed (getAllTexts words) := by
  induction words with
  | nil => exact .pure _
  | cons key words rest =>
      apply (get_composed key).bind
      rintro (_ | _)
      · exact .pure _
      · exact rest.map _

theorem inspect_composed {α ε : Type} (key : String) (missing : α) (look : OnyxValue → Except ε α) :
    Composed (inspect key missing look) := Composed.map (.perform _) _

theorem jsonRead_composed {α : Type} (key path : String) (look : Json → Option α) :
    Composed (jsonRead key path look) := by
  unfold jsonRead
  split
  · exact .pure _
  · exact inspect_composed key _ _

theorem ttl_composed (key : String) : Composed (ttl key) := by
  apply Composed.bind (.perform _)
  rintro (_ | _ | expiry)
  · exact .pure _
  · exact .pure _
  · apply Composed.now.bind
    intro reading
    simp only
    split <;> exact .pure _

theorem keysMatching_composed (pattern : String) : Composed (keysMatching pattern) := by
  apply (Composed.map (.perform _) _).bind
  intro keys
  split <;> exact .pure _

omit [Platform] in
theorem arity_cases {holds : Form → Prop} {words : Nat} {args : List String} {form : Form} (shaped : holds form)
    (unknown : holds unknownCommand) : holds ((arity words args form).getD unknownCommand) := by
  unfold arity
  split
  · exact shaped
  · exact unknown

theorem arity_composed {words : Nat} {args : List String} {form : Form} (composed : Composed form) :
    Composed ((arity words args form).getD unknownCommand) := arity_cases composed (.pure _)

theorem setOptions_composed (words : List String) (options : SetOptions) : Composed (setOptions words options) := by
  fun_induction setOptions words options <;>
    first
      | exact .pure _
      | assumption
      | exact Composed.now.bind (fun _ => by solve_by_elim)

theorem setCommand_composed (args : List String) : Composed (setCommand args) := by
  apply (setOptions_composed _ _).bind
  intro options
  cases options with
  | none => exact .pure _
  | some options => exact Composed.map (.perform _) _

theorem setPairs_composed (words : List String) : Composed (setPairs words) := by
  fun_induction setPairs words with
  | case1 key value rest composed => exact (Composed.map (.perform _) _).bind (fun _ => composed)
  | case2 => exact .pure _

theorem msetCommand_composed (args : List String) : Composed (msetCommand args) := by
  unfold msetCommand
  split
  · exact .pure _
  · exact (setPairs_composed _).map _

theorem expireCommand_composed (args : List String) : Composed (expireCommand args) := by
  have expires (key : String) (seconds : Nat) : Composed (expire key seconds) :=
    Composed.now.bind (fun _ => .perform _)
  have require (key : String) (seconds : Nat) (expiry : Bool) :
      Composed (expireConditional.require key seconds expiry) := Composed.now.bind (fun _ => .perform _)
  unfold expireCommand
  split
  · exact .pure _
  · split
    · exact (expires _ _).map _
    · split
      · exact .pure _
      · apply Composed.map
        unfold expireConditional
        split
        · exact require _ _ false
        · exact require _ _ true
        · exact .pure _

theorem expireatCommand_composed (key timestamp : String) : Composed (expireatCommand key timestamp) := by
  unfold expireatCommand
  split
  · exact .pure _
  · exact Composed.map (.perform _) _

theorem jsonSet_composed (key path : String) (newValue : Json) : Composed (jsonSet key path newValue) := by
  unfold jsonSet
  split
  · exact .pure _
  · exact .perform _
  · apply Composed.bind (.perform _)
    rintro (_ | _ | (_ | _)) <;> exact .pure _

theorem jsonDel_composed (key path : String) : Composed (jsonDel key path) := by
  unfold jsonDel
  split
  · exact .pure _
  · exact Composed.map (.perform _) _
  · apply Composed.bind (.perform _)
    rintro (_ | _ | _) <;> exact .pure _

theorem jsonEdit_composed {α : Type} (key path : String)
    (edit : List JsonPathSegment → Json → Except String α × Json) : Composed (jsonEdit key path edit) := by
  unfold jsonEdit
  split
  · exact .pure _
  · apply Composed.bind (.perform _)
    rintro (_ | _ | _) <;> exact .pure _

theorem jsonSetCommand_composed (args : List String) : Composed (jsonSetCommand args) := by
  unfold jsonSetCommand
  split
  · exact .pure _
  · split
    · exact .pure _
    · exact (jsonSet_composed _ _ _).map _

theorem jsonNumincrbyCommand_composed (args : List String) : Composed (jsonNumincrbyCommand args) := by
  unfold jsonNumincrbyCommand
  split
  · exact .pure _
  · exact (jsonEdit_composed _ _ _).map _

theorem jsonArrappendCommand_composed (args : List String) : Composed (jsonArrappendCommand args) := by
  unfold jsonArrappendCommand
  split
  · exact .pure _
  · exact (jsonEdit_composed _ _ _).map _

theorem hsetCommand_composed (args : List String) : Composed (hsetCommand args) := by
  unfold hsetCommand
  split
  · exact .pure _
  · exact Composed.map (.perform _) _

theorem incrby_composed (key : String) (delta : Int64) : Composed (incrby key delta) := .perform _

theorem incrbyCommand_composed (key delta : String) : Composed (incrbyCommand key delta) := by
  unfold incrbyCommand
  split
  · exact .pure _
  · exact Composed.map (.perform _) _

theorem decrbyCommand_composed (key delta : String) : Composed (decrbyCommand key delta) := by
  unfold decrbyCommand
  split
  · exact .pure _
  · split
    · exact .pure _
    · exact Composed.map (.perform _) _

/-- An operation, with an answer to its result. -/
theorem once_composed {α β : Type} (operation : Operation α) (answer : α → β) :
    Composed (perform operation >>= fun value => Pure.pure (answer value)) := Composed.map (.perform operation) answer

theorem commandForm_composed (args : List String) : Composed ((commandForm args).getD unknownCommand) := by
  unfold commandForm
  simp only
  split
  next => exact arity_composed (setCommand_composed args)
  next => exact arity_composed ((get_composed _).map _)
  next => exact arity_composed (once_composed _ _)
  next => exact arity_composed ((incrby_composed _ 1).map _)
  next => exact arity_composed (once_composed _ _)
  next => exact arity_composed (once_composed _ _)
  next => exact arity_composed ((once_composed _ _).map _)
  next => exact arity_composed ((once_composed _ _).map _)
  next => exact arity_composed ((inspect_composed _ _ _).map _)
  next => exact arity_composed (expireatCommand_composed _ _)
  next => exact arity_composed ((ttl_composed _).map _)
  next => exact arity_composed ((once_composed _ _).map _)
  next => exact arity_composed (once_composed _ _)
  next => exact jsonSetCommand_composed args
  next => exact arity_composed ((jsonRead_composed _ _ _).map _)
  next => exact arity_composed ((jsonDel_composed _ _).map _)
  next => exact arity_composed ((jsonRead_composed _ _ _).map _)
  next => exact arity_composed (jsonNumincrbyCommand_composed args)
  next => exact arity_composed (jsonArrappendCommand_composed args)
  next => exact arity_composed ((jsonRead_composed _ _ _).map _)
  next => exact arity_composed ((jsonRead_composed _ _ _).map _)
  next => exact arity_composed (once_composed _ _)
  next => exact arity_composed ((inspect_composed _ _ _).map _)
  next => exact arity_composed ((once_composed _ _).map _)
  next => exact arity_composed ((inspect_composed _ _ _).map _)
  next => exact arity_composed ((inspect_composed _ _ _).map _)
  next => exact arity_composed (once_composed _ _)
  next => exact msetCommand_composed args
  next => exact (getAllTexts_composed _).map _
  next => exact (keysMatching_composed _).map _
  next => exact arity_composed (hsetCommand_composed args)
  next => exact arity_composed ((inspect_composed _ _ _).map _)
  next => exact arity_composed ((inspect_composed _ _ _).map _)
  next => exact arity_composed ((once_composed _ _).map _)
  next => split <;> exact .pure _
  next => exact arity_composed (incrbyCommand_composed _ _)
  next => exact arity_composed (decrbyCommand_composed _ _)
  next => exact arity_composed (once_composed _ _)
  next => exact arity_composed (((get_composed _).map _).map _)
  next => exact arity_composed (once_composed _ _)
  next => exact arity_composed (once_composed _ _)
  next => exact arity_composed (((inspect_composed _ _ _).map _).map _)
  next => exact arity_composed (((inspect_composed _ _ _).map _).map _)
  next => exact arity_composed (once_composed _ _)
  next => exact arity_composed (expireCommand_composed args)
  next => exact .pure _
  next => exact .pure _

theorem executeCommand_composed (args : List String) : Composed (executeCommand args) := (commandForm_composed args).map _

end Forms

end OnyxDB.Command
