import OnyxDB.Command.Confinement
import OnyxDB.Engine.Reference
import OnyxDB.Store.Honesty

/-! A command that does not claim a change has made none, and a command that answers with an error claims none. -/

namespace OnyxDB.Command
open OnyxDB.Engine OnyxDB.Engine.Value OnyxDB.Store OnyxDB.Store.ShardedStore OnyxDB.Protocol

/-- An error is not reported as a change. -/
def Sound (answer : RESPValue × Bool) : Prop := (∃ message, answer.1 = .error message) → answer.2 = false

/-- A form that reports the changes it makes, and no change along with an error. -/
structure Frank (form : Form) : Prop where
  honest : Honest (fun answer => answer.2 = true) form
  sound : ∀ store, Sound (form store).1

section Answers

theorem sound_false (response : RESPValue) : Sound (response, false) := fun _ => rfl

theorem sound_respond {α : Type} {answer : α → RESPValue × Bool} (sound : ∀ value, Sound (answer value))
    (result : Except StoreError α) : Sound (respond answer result) := by
  cases result with
  | ok value => exact sound value
  | error error => exact sound_false _

theorem sound_respondText {α : Type} {answer : α → RESPValue × Bool} (sound : ∀ value, Sound (answer value))
    (result : Except String α) : Sound (respondText answer result) := by
  cases result with
  | ok value => exact sound value
  | error error => exact sound_false _

end Answers

namespace Frank

theorem refusal (message : String) : Frank (return refuse message) :=
  ⟨Honest.pure _ _, fun _ => sound_false _⟩

theorem silent (response : RESPValue) : Frank (return (response, false)) :=
  ⟨Honest.pure _ _, fun _ => sound_false _⟩

/-- A program and an answer to its result. -/
theorem answer {α : Type} {claims : α → Prop} {program : StoreM α} (honest : Honest claims program)
    {answer : α → RESPValue × Bool} (reports : ∀ value, claims value → (answer value).2 = true)
    (sound : ∀ value, Sound (answer value)) : Frank (program >>= fun value => Pure.pure (answer value)) :=
  ⟨honest.map reports, fun _ => sound _⟩

/-- An answer to a result that may be an error. -/
theorem respond {α : Type} {claims : Except StoreError α → Prop} {program : StoreM (Except StoreError α)}
    (honest : Honest claims program) {answer : α → RESPValue × Bool}
    (reports : ∀ result, claims result → ∃ value, result = .ok value ∧ (answer value).2 = true)
    (sound : ∀ value, Sound (answer value)) :
    Frank (program >>= fun result => Pure.pure (Command.respond answer result)) := by
  apply Frank.answer honest ?_ (sound_respond sound)
  intro result claimed
  obtain ⟨value, rfl, reported⟩ := reports result claimed
  exact reported

theorem respondText {α : Type} {claims : Except String α → Prop} {program : StoreM (Except String α)}
    (honest : Honest claims program) {answer : α → RESPValue × Bool}
    (reports : ∀ result, claims result → ∃ value, result = .ok value ∧ (answer value).2 = true)
    (sound : ∀ value, Sound (answer value)) :
    Frank (program >>= fun result => Pure.pure (Command.respondText answer result)) := by
  apply Frank.answer honest ?_ (sound_respondText sound)
  intro result claimed
  obtain ⟨value, rfl, reported⟩ := reports result claimed
  exact reported

/-- A form after an idle program. -/
theorem after {α : Type} {first : StoreM α} {rest : α → Form} (idle : Idle first)
    (frank : ∀ value, Frank (rest value)) : Frank (first >>= rest) :=
  ⟨Honest.after idle (fun value => (frank value).honest), fun _ => (frank _).sound _⟩

theorem arity {words : Nat} {args : List String} {form : Form} (frank : Frank form) :
    Frank ((Command.arity words args form).getD unknownCommand) := by
  unfold Command.arity
  split
  · exact frank
  · exact refusal _

end Frank

theorem setOptions_idle (words : List String) (options : SetOptions) : Idle (setOptions words options) := by
  fun_induction setOptions words options <;>
    first
      | exact Idle.pure _
      | assumption
      | exact Idle.bind .now (fun _ => by solve_by_elim)

/-- A flag that is the result is reported as it is. -/
theorem flag_frank {program : StoreM Bool} (honest : Honest (· = true) program) :
    Frank (program >>= fun changed => Pure.pure (flag changed, changed)) := by
  apply Frank.answer honest (fun _ claimed => claimed)
  rintro changed ⟨message, error⟩
  exact absurd error nofun

/-- A flag that may be an error. -/
theorem flag_respond {program : StoreM (Except StoreError Bool)} (honest : Honest (· = .ok true) program) :
    Frank (program >>= fun result => Pure.pure (respond (fun changed => (flag changed, changed)) result)) := by
  apply Frank.respond honest
  · rintro _ rfl
    exact ⟨true, rfl, rfl⟩
  · rintro changed ⟨message, error⟩
    exact absurd error nofun

variable {α : Type} {response : α → RESPValue}

/-- Every result that is not an error is reported. -/
theorem always_respond {program : StoreM (Except StoreError α)} (honest : Honest Succeeds program)
    (proper : ∀ value message, response value ≠ .error message) :
    Frank (program >>= fun result => Pure.pure (respond (fun value => (response value, true)) result)) := by
  apply Frank.respond honest
  · rintro _ ⟨value, rfl⟩
    exact ⟨value, rfl, rfl⟩
  · rintro value ⟨message, error⟩
    exact absurd error (proper value message)

theorem always_respondText {program : StoreM (Except String α)} (honest : Honest Succeeds program)
    (proper : ∀ value message, response value ≠ .error message) :
    Frank (program >>= fun result => Pure.pure (respondText (fun value => (response value, true)) result)) := by
  apply Frank.respondText honest
  · rintro _ ⟨value, rfl⟩
    exact ⟨value, rfl, rfl⟩
  · rintro value ⟨message, error⟩
    exact absurd error (proper value message)

theorem popped_respond {program : StoreM (Except StoreError (Option String))} (honest : Honest Popped program) :
    Frank (program >>= fun result => Pure.pure (respond poppedResponse result)) := by
  apply Frank.respond honest
  · rintro _ ⟨item, rfl⟩
    exact ⟨some item, rfl, rfl⟩
  · rintro value ⟨message, error⟩
    exact absurd error nofun

variable [Platform]

section Forms

theorem setCommand_frank (args : List String) : Frank (setCommand args) := by
  apply Frank.after (setOptions_idle _ _)
  intro options
  cases options with
  | none => exact Frank.refusal _
  | some options =>
      apply Frank.answer (setConditional_honest _ _ _ _)
      · rintro _ rfl
        rfl
      · rintro stored ⟨message, error⟩
        cases stored
        · rfl
        · exact absurd error nofun

theorem expireatCommand_frank (key timestamp : String) : Frank (expireatCommand key timestamp) := by
  unfold expireatCommand
  split
  · exact Frank.refusal _
  · exact flag_frank (setExpiry_honest _ _)

theorem expireCommand_frank (args : List String) : Frank (expireCommand args) := by
  unfold expireCommand
  split
  · exact Frank.refusal _
  · split
    · exact flag_frank (expire_honest _ _)
    · split
      · exact Frank.refusal _
      · exact flag_frank (expireConditional_honest _ _ _)

theorem jsonSetCommand_frank (args : List String) : Frank (jsonSetCommand args) := by
  unfold jsonSetCommand
  split
  · exact Frank.refusal _
  · split
    · exact Frank.refusal _
    · exact always_respondText (jsonSet_honest _ _ _) nofun

theorem jsonDelCommand_frank (args : List String) : Frank (jsonDelCommand args) := by
  apply Frank.respondText (jsonDel_honest _ _)
  · rintro _ rfl
    exact ⟨true, rfl, rfl⟩
  · rintro changed ⟨message, error⟩
    exact absurd error nofun

theorem jsonNumincrbyCommand_frank (args : List String) : Frank (jsonNumincrbyCommand args) := by
  unfold jsonNumincrbyCommand
  split
  · exact Frank.refusal _
  · exact always_respondText (jsonNumincrby_honest _ _ _) nofun

theorem jsonArrappendCommand_frank (args : List String) : Frank (jsonArrappendCommand args) := by
  unfold jsonArrappendCommand
  split
  · exact Frank.refusal _
  · exact always_respondText (jsonArrappend_honest _ _ _) nofun

theorem hsetCommand_frank (args : List String) : Frank (hsetCommand args) := by
  unfold hsetCommand
  split
  · exact Frank.refusal _
  · exact always_respond (hset_honest _ _ _) nofun

theorem incrbyCommand_frank (key delta : String) : Frank (incrbyCommand key delta) := by
  unfold incrbyCommand
  split
  · exact Frank.refusal _
  · exact always_respondText (incrby_honest _ _) nofun

theorem decrbyCommand_frank (key delta : String) : Frank (decrbyCommand key delta) := by
  unfold decrbyCommand
  split
  · exact Frank.refusal _
  · split
    · exact Frank.refusal _
    · exact always_respondText (incrby_honest _ _) nofun

theorem renameCommand_frank (oldKey newKey : String) : Frank (renameCommand oldKey newKey) := by
  apply Frank.answer (rename_honest _ _)
  · rintro _ rfl
    rfl
  · rintro renamed ⟨message, error⟩
    cases renamed
    · rfl
    · exact absurd error nofun

/-- `MSET` refuses or reports. -/
theorem msetCommand_frank (args : List String) : Frank (msetCommand args) := by
  unfold msetCommand
  split
  · exact Frank.refusal _
  · exact ⟨fun _ _ _ denied => absurd rfl denied, fun _ ⟨_, error⟩ => absurd error nofun⟩

/-- Every write command is frank. -/
theorem commandForm_frank {args : List String} (write : isWriteCommand (argument args 0) = true) :
    Frank ((commandForm args).getD unknownCommand) := by
  unfold commandForm
  simp only
  split
  next => exact Frank.arity (setCommand_frank args)
  next name => exact absurd (name ▸ write) (by decide)
  next => exact Frank.arity (flag_frank (delete_honest _))
  next => exact Frank.arity (always_respondText (incrby_honest _ 1) nofun)
  next => exact Frank.arity (always_respond (lpush_honest _ _) nofun)
  next => exact Frank.arity (always_respond (rpush_honest _ _) nofun)
  next => exact Frank.arity (popped_respond (lpop_honest _))
  next => exact Frank.arity (popped_respond (rpop_honest _))
  next name => exact absurd (name ▸ write) (by decide)
  next => exact Frank.arity (expireatCommand_frank _ _)
  next name => exact absurd (name ▸ write) (by decide)
  next name => exact absurd (name ▸ write) (by decide)
  next name => exact absurd (name ▸ write) (by decide)
  next => exact jsonSetCommand_frank args
  next name => exact absurd (name ▸ write) (by decide)
  next => exact Frank.arity (jsonDelCommand_frank args)
  next name => exact absurd (name ▸ write) (by decide)
  next => exact Frank.arity (jsonNumincrbyCommand_frank args)
  next => exact Frank.arity (jsonArrappendCommand_frank args)
  next name => exact absurd (name ▸ write) (by decide)
  next name => exact absurd (name ▸ write) (by decide)
  next => exact Frank.arity (flag_respond (sadd_honest _ _))
  next name => exact absurd (name ▸ write) (by decide)
  next => exact Frank.arity (flag_respond (srem_honest _ _))
  next name => exact absurd (name ▸ write) (by decide)
  next name => exact absurd (name ▸ write) (by decide)
  next => exact Frank.arity (renameCommand_frank _ _)
  next => exact msetCommand_frank args
  next name => exact absurd (name ▸ write) (by decide)
  next name => exact absurd (name ▸ write) (by decide)
  next => exact Frank.arity (hsetCommand_frank args)
  next name => exact absurd (name ▸ write) (by decide)
  next name => exact absurd (name ▸ write) (by decide)
  next => exact Frank.arity (flag_respond (hdel_honest _ _))
  next name => exact absurd (name ▸ write) (by decide)
  next => exact Frank.arity (incrbyCommand_frank _ _)
  next => exact Frank.arity (decrbyCommand_frank _ _)
  next => exact Frank.arity (always_respond (append_honest _ _) nofun)
  next name => exact absurd (name ▸ write) (by decide)
  next => exact Frank.arity (always_respond (getset_honest _ _) nofun)
  next => exact Frank.arity (flag_frank (setIfAbsent_honest _ _))
  next name => exact absurd (name ▸ write) (by decide)
  next name => exact absurd (name ▸ write) (by decide)
  next => exact Frank.arity (flag_frank (copy_honest _ _))
  next => exact Frank.arity (expireCommand_frank args)
  next name => exact absurd (name ▸ write) (by decide)
  next => exact Frank.refusal _

end Forms

omit [Platform] in
/-- A command that is no write command names no keys. -/
theorem affectedKeys_nil {args : List String} (read : isWriteCommand (argument args 0) = false) :
    affectedKeys args = [] := by
  have none : affectedArguments args = [] := by
    unfold affectedArguments
    split
    next name => exact absurd (name ▸ read) (by decide)
    next name => exact absurd (name ▸ read) (by decide)
    next name => exact absurd (name ▸ read) (by decide)
    next => rw [if_neg (by rw [read]; exact Bool.false_ne_true)]
  rw [affectedKeys, none]
  rfl

theorem executeCommand_run (args : List String) (store : ShardedStore) :
    executeCommand args store =
      (⟨((commandForm args).getD unknownCommand store).1.1,
        mutationState (argument args 0) ((commandForm args).getD unknownCommand store).1.2⟩,
        ((commandForm args).getD unknownCommand store).2) := rfl

/-- A command that was not asked for a change, or found nothing to change, leaves the live content as it was; a
command that answers with an error is one of these; no command changes a key it does not name. -/
theorem executeCommand_reports (store : ShardedStore) (args : List String) {time : Nat}
    (fixed : store.engine.clock.Fixed time) (documented : store.Documented) :
    ((executeCommand args store).1.mutation = .notRequested ∨ (executeCommand args store).1.mutation = .noChange →
      (executeCommand args store).2.view time = store.view time) ∧
    ((∃ message, (executeCommand args store).1.response = .error message) →
      (executeCommand args store).1.mutation = .notRequested ∨
        (executeCommand args store).1.mutation = .noChange) ∧
    ∀ key, key ∉ affectedKeys args → (executeCommand args store).2.view time key = store.view time key := by
  have confines := executeCommand_confined args store fixed.nondecreasing
  cases write : isWriteCommand (argument args 0) with
  | false =>
      rw [affectedKeys_nil write] at confines ⊢
      have unchanged := confines.engine.same_view fixed.upto
      have state : (executeCommand args store).1.mutation = .notRequested := by
        rw [executeCommand_run, mutationState, write]
        rfl
      exact ⟨fun _ => unchanged, fun _ => Or.inl state, fun key _ => congrFun unchanged key⟩
  | true =>
      have frank := commandForm_frank write
      have state : (executeCommand args store).1.mutation =
          if ((commandForm args).getD unknownCommand store).1.2 then .tentative else .noChange := by
        rw [executeCommand_run, mutationState, write]
        rfl
      refine ⟨?_, ?_, fun key absent => confines.view fixed absent⟩
      · intro quiet
        apply frank.honest.view fixed documented
        intro reported
        rw [state, if_pos reported] at quiet
        rcases quiet with quiet | quiet <;> exact absurd quiet nofun
      · intro error
        rw [state, frank.sound store error]
        exact Or.inr rfl

end OnyxDB.Command

namespace OnyxDB.Command
open OnyxDB.Engine OnyxDB.Engine.Value OnyxDB.Store

/-- A store with a document under the key `k`. -/
def documentStore [Platform] : ShardedStore :=
  (ShardedStore.new (.constant 0)).replaceAll [(utf8Bytes "k", ⟨.json (.object [("a", .null)]), none, 0, 0⟩)]

theorem documentStore_documented [Platform] : documentStore.Documented := by
  intro key entry held
  have slots := ((ShardedStore.new (.constant 0)).engine.replaceAll_lookup
    [(utf8Bytes "k", ⟨.json (.object [("a", .null)]), none, 0, 0⟩)]).2
  have found := (congrFun slots key).symm.trans held
  rcases Library.Expiring.replay_mem _ _ key found with nothing | listed
  · cases nothing
  · cases List.mem_singleton.mp listed
    exact ⟨List.pairwise_singleton _ _, trivial, trivial⟩

/-- A document cannot be appended to: the command fails and shows nothing new. -/
theorem executeCommand_reports_append :
    letI := Reference.platform (fun _ => .error "unsupported")
    (executeCommand ["APPEND", "k", "x"] documentStore).1.response = .error StoreError.wrongType.message ∧
      ((executeCommand ["APPEND", "k", "x"] documentStore).1.mutation = .notRequested ∨
        (executeCommand ["APPEND", "k", "x"] documentStore).1.mutation = .noChange) ∧
      (executeCommand ["APPEND", "k", "x"] documentStore).2.view 0 = documentStore.view 0 := by
  let _ := Reference.platform (fun _ => .error "unsupported")
  have failed : (executeCommand ["APPEND", "k", "x"] documentStore).1.response =
      .error StoreError.wrongType.message := by with_unfolding_all rfl
  obtain ⟨unchanged, reported, _⟩ :=
    executeCommand_reports documentStore ["APPEND", "k", "x"] (fun _ => rfl) documentStore_documented
  have state := reported ⟨_, failed⟩
  exact ⟨failed, state, unchanged state⟩

end OnyxDB.Command
