import OnyxDB.Command.Honesty
import OnyxDB.Store.ValueShape

/-! What commands do to the shapes of values: none leaves an empty collection, and only `SET`, `MSET`, `RENAME` and
`COPY` give a key another family of values. -/

namespace OnyxDB.Command
open OnyxDB.Engine OnyxDB.Engine.Value OnyxDB.Store OnyxDB.Store.ShardedStore OnyxDB.Protocol

section Operations

variable {α : Type} {key : Bytes}

theorem gentle_delete : Gentle (.delete key) := ⟨nofun, nofun, nofun⟩

theorem gentle_setExpiry {timestamp : Nat} : Gentle (.setExpiry key timestamp) := ⟨nofun, nofun, nofun⟩

theorem gentle_setExpiryConditional {timestamp : Nat} {condition : Option Bool} :
    Gentle (.setExpiryConditional key timestamp condition) := ⟨nofun, nofun, nofun⟩

theorem gentle_setIfAbsent {bytes : Bytes} : Gentle (.setIfAbsent key (.blob bytes)) :=
  ⟨nofun, fun _ _ ⟨_, same⟩ => same ▸ trivial, nofun⟩

theorem gentle_update {mutate : OnyxValue → α × OnyxValue} (shapely : ∀ value, Shapely value (mutate value).2) :
    Gentle (.updateIfExists key mutate) :=
  ⟨fun _ old _ ⟨_, same⟩ => same ▸ shapely old, nofun, nofun⟩

theorem gentle_action {mutate : OnyxValue → EntryMutation α × OnyxValue}
    (shapely : ∀ value new result, mutate value = (.keep result, new) → Shapely value new) :
    Gentle (.updateIfExistsWithAction key mutate) :=
  ⟨fun _ old new ⟨_, result, same⟩ => shapely old new result same, nofun, nofun⟩

theorem gentle_upsert {default : OnyxValue} {mutate : OnyxValue → α × OnyxValue}
    (shapely : ∀ value, Shapely value (mutate value).2) (filled : Filled (mutate default).2) :
    Gentle (.updateOrInsert key default mutate) :=
  ⟨fun _ old _ ⟨_, same⟩ => same ▸ shapely old, fun _ _ ⟨_, same⟩ => same ▸ filled, nofun⟩

theorem gentle_upsertPresence {default : OnyxValue} {mutate : OnyxValue → Bool → α × OnyxValue}
    (shapely : ∀ value existed, Shapely value (mutate value existed).2) (filled : Filled (mutate default false).2) :
    Gentle (.updateOrInsertWithPresence key default mutate) :=
  ⟨fun _ old _ ⟨_, same⟩ => same ▸ shapely old true, fun _ _ ⟨_, same⟩ => same ▸ filled, nofun⟩

theorem gentle_upsertEntry {default : OnyxValue} {mutate : DataEntry → Bool → α × DataEntry}
    (shapely : ∀ entry existed, Shapely entry.value (mutate entry existed).2.value) (filled : Filled default) :
    Gentle (.updateEntryOrInsertWithPresence key default mutate) := by
  refine ⟨?_, ?_, nofun⟩
  · rintro _ _ _ ⟨-, entry, rfl, rfl⟩
    exact shapely entry true
  · rintro _ _ ⟨-, entry, same, rfl⟩
    exact (shapely entry false).filled (same ▸ filled)

end Operations

variable [Platform]

section Forms

theorem get_tame (key : String) : Tame (get key) := by
  apply Tame.conclude (Tame.reads (fun _ => Ensures.reads rfl))
  rintro (_ | _ | _) <;> exact ⟨_, rfl⟩

theorem get_preserves (kind : Bytes → OnyxValue → Prop) (key : String) : Preserves (OnValues kind) (get key) := by
  have reads : Preserves (OnValues kind) (perform (.read (utf8Bytes key) (fun entry => valueText entry.value))) :=
    Ensures.reads rfl
  apply reads.bind
  rintro (_ | _ | _) _ <;> exact Ensures.pure trivial

theorem getAllTexts_preserves (kind : Bytes → OnyxValue → Prop) (words : List String) :
    Preserves (OnValues kind) (getAllTexts words) := by
  induction words with
  | nil => exact Ensures.pure trivial
  | cons key words rest =>
      apply (get_preserves kind key).bind
      rintro (_ | _) _
      · exact Ensures.pure trivial
      · exact rest.map _

theorem inspect_preserves (kind : Bytes → OnyxValue → Prop) {α ε : Type} (key : String) (missing : α)
    (look : OnyxValue → Except ε α) : Preserves (OnValues kind) (inspect key missing look) :=
  (Ensures.reads rfl).map _

theorem inspect_tame {α ε : Type} (key : String) (missing : α) (look : OnyxValue → Except ε α) :
    Tame (inspect key missing look) := Tame.reads (fun kind => inspect_preserves kind key missing look)

theorem jsonRead_preserves (kind : Bytes → OnyxValue → Prop) {α : Type} (key path : String) (look : Json → Option α) :
    Preserves (OnValues kind) (jsonRead key path look) := by
  unfold jsonRead
  split
  · exact Ensures.pure trivial
  · exact inspect_preserves kind key _ _

theorem jsonRead_tame {α : Type} (key path : String) (look : Json → Option α) : Tame (jsonRead key path look) :=
  Tame.reads (fun kind => jsonRead_preserves kind key path look)

theorem ttl_preserves (kind : Bytes → OnyxValue → Prop) (key : String) : Preserves (OnValues kind) (ttl key) := by
  have reads : Preserves (OnValues kind) (perform (.read (utf8Bytes key) DataEntry.expiresAt)) := Ensures.reads rfl
  apply reads.bind
  rintro (_ | _ | expiry) _
  · exact Ensures.pure trivial
  · exact Ensures.pure trivial
  · apply (Ensures.idle Idle.now).bind
    intro reading _
    simp only
    split <;> exact Ensures.pure trivial

theorem ttl_tame (key : String) : Tame (ttl key) := Tame.reads (fun kind => ttl_preserves kind key)

theorem keysMatching_preserves (kind : Bytes → OnyxValue → Prop) (pattern : String) :
    Preserves (OnValues kind) (keysMatching pattern) := by
  have reads : Preserves (OnValues kind) (perform .allKeys) := Ensures.reads rfl
  apply (reads.map _).bind
  intro keys _
  split <;> exact Ensures.pure trivial

theorem keysMatching_tame (pattern : String) : Tame (keysMatching pattern) :=
  Tame.reads (fun kind => keysMatching_preserves kind pattern)

omit [Platform] in
/-- A form that is tame, and refused with too few words. -/
theorem arity_tame {words : Nat} {args : List String} {form : Form} (tame : Tame form) :
    Tame ((arity words args form).getD unknownCommand) := by
  unfold arity
  split
  · exact tame
  · exact Tame.pure _

/-- A form that is one operation, with an answer to its result. -/
theorem once_tame {α : Type} {operation : Operation α} (gentle : Gentle operation) {answer : α → RESPValue × Bool} :
    Tame (perform operation >>= fun value => Pure.pure (answer value)) := (Tame.perform gentle).map answer

theorem incrby_tame (key : String) (delta : Int64) : Tame (incrby key delta) := by
  apply Tame.perform (gentle_upsert (incremented_shapely delta) _)
  exact (incremented_shapely delta (.int 0)).filled trivial

theorem lpush_tame (key item : String) : Tame (lpush key item) :=
  Tame.perform (gentle_upsert (pushedFront_shapely _) (List.cons_ne_nil _ _))

theorem rpush_tame (key item : String) : Tame (rpush key item) :=
  Tame.perform (gentle_upsert (pushedBack_shapely _) (List.cons_ne_nil _ _))

theorem hset_tame (key field value : String) : Tame (hset key field value) :=
  Tame.perform (gentle_upsert (fieldSet_shapely _ _) (insert_entries_ne_nil _ _ _))

theorem sadd_tame (key member : String) : Tame (sadd key member) :=
  Tame.perform (gentle_upsert (memberAdded_shapely _) (insert_members_ne_nil _ _))

theorem append_tame (key suffix : String) : Tame (append key suffix) := by
  apply Tame.perform (gentle_upsert (appended_shapely suffix) _)
  exact (appended_shapely suffix (.blob [])).filled trivial

theorem getset_tame (key newValue : String) : Tame (getset key newValue) :=
  Tame.perform (gentle_upsertEntry (exchanged_shapely newValue) trivial)

theorem action_tame {α : Type} (key : Bytes) {mutate : OnyxValue → EntryMutation α × OnyxValue} {missing : α}
    (shapely : ∀ value new result, mutate value = (.keep result, new) → Shapely value new) :
    Tame (do return (← perform (.updateIfExistsWithAction key mutate)).getD missing) :=
  (Tame.perform (gentle_action shapely)).map _

theorem expire_tame (key : String) (seconds : Nat) : Tame (expire key seconds) :=
  Tame.after .now (fun _ => Tame.perform gentle_setExpiry)

theorem expireConditional_tame (key : String) (seconds : Nat) (condition : String) :
    Tame (expireConditional key seconds condition) := by
  have require (expiry : Bool) : Tame (expireConditional.require key seconds expiry) :=
    Tame.after .now (fun _ => Tame.perform gentle_setExpiryConditional)
  unfold expireConditional
  split
  · exact require false
  · exact require true
  · exact Tame.pure _

theorem document_tame {α : Type} (key : Bytes) (edit : Json → α × Json) :
    Tame (perform (.updateIfExists key (documentEdited edit))) :=
  Tame.perform (gentle_update (documentEdited_shapely edit))

theorem jsonSet_tame (key path : String) (newValue : Json) : Tame (jsonSet key path newValue) := by
  unfold jsonSet
  split
  · exact Tame.pure _
  · exact Tame.perform (gentle_upsertPresence (fun value _ => documentReplaced_shapely newValue value) trivial)
  · apply (document_tame _ _).conclude
    rintro (_ | _ | (_ | _)) <;> exact ⟨_, rfl⟩

theorem jsonDel_tame (key path : String) : Tame (jsonDel key path) := by
  unfold jsonDel
  split
  · exact Tame.pure _
  · exact action_tame _ (fun _ _ _ => documentRemoved_shapely)
  · apply (document_tame _ _).conclude
    rintro (_ | _ | _) <;> exact ⟨_, rfl⟩

theorem jsonEdit_tame {α : Type} (key path : String)
    (edit : List JsonPathSegment → Json → Except String α × Json) : Tame (jsonEdit key path edit) := by
  unfold jsonEdit
  split
  · exact Tame.pure _
  · apply (document_tame _ _).conclude
    rintro (_ | _ | _) <;> exact ⟨_, rfl⟩

theorem expireatCommand_tame (key timestamp : String) : Tame (expireatCommand key timestamp) := by
  unfold expireatCommand
  split
  · exact Tame.pure _
  · exact once_tame gentle_setExpiry

theorem expireCommand_tame (args : List String) : Tame (expireCommand args) := by
  unfold expireCommand
  split
  · exact Tame.pure _
  · split
    · exact (expire_tame _ _).map _
    · split
      · exact Tame.pure _
      · exact (expireConditional_tame _ _ _).map _

theorem jsonSetCommand_tame (args : List String) : Tame (jsonSetCommand args) := by
  unfold jsonSetCommand
  split
  · exact Tame.pure _
  · split
    · exact Tame.pure _
    · exact (jsonSet_tame _ _ _).map _

theorem jsonNumincrbyCommand_tame (args : List String) : Tame (jsonNumincrbyCommand args) := by
  unfold jsonNumincrbyCommand
  split
  · exact Tame.pure _
  · exact (jsonEdit_tame _ _ _).map _

theorem jsonArrappendCommand_tame (args : List String) : Tame (jsonArrappendCommand args) := by
  unfold jsonArrappendCommand
  split
  · exact Tame.pure _
  · exact (jsonEdit_tame _ _ _).map _

theorem hsetCommand_tame (args : List String) : Tame (hsetCommand args) := by
  unfold hsetCommand
  split
  · exact Tame.pure _
  · exact (hset_tame _ _ _).map _

theorem incrbyCommand_tame (key delta : String) : Tame (incrbyCommand key delta) := by
  unfold incrbyCommand
  split
  · exact Tame.pure _
  · exact (incrby_tame _ _).map _

theorem decrbyCommand_tame (key delta : String) : Tame (decrbyCommand key delta) := by
  unfold decrbyCommand
  split
  · exact Tame.pure _
  · split
    · exact Tame.pure _
    · exact (incrby_tame _ _).map _

/-- Putting a byte string under a key leaves no empty collection. -/
theorem setConditional_filled (key bytes : Bytes) (expiresAt : Option Nat) (condition : Option Bool) :
    Preserves (OnValues fun _ => Filled) (perform (.setConditional key (.blob bytes) expiresAt condition)) := by
  apply Ensures.perform
  · exact fun _ _ _ _ rewrites => absurd rewrites not_false
  · exact fun _ _ creates => absurd creates not_false
  · rintro _ _ _ _ ⟨_, rfl⟩
    trivial

theorem set_blob_filled (key bytes : Bytes) :
    Preserves (OnValues fun _ => Filled) (perform (.set key (.blob bytes) none)) := by
  apply Ensures.perform
  · exact fun _ _ _ _ rewrites => absurd rewrites not_false
  · exact fun _ _ creates => absurd creates not_false
  · rintro _ _ _ _ ⟨_, rfl⟩
    trivial

theorem set_filled (key value : String) : Preserves (OnValues fun _ => Filled) (set key value) :=
  (set_blob_filled _ _).map (fun _ => ())

theorem setPairs_filled (words : List String) : Preserves (OnValues fun _ => Filled) (setPairs words) := by
  fun_induction setPairs words with
  | case1 key value rest filled => exact (set_filled key value).bind (fun _ _ => filled)
  | case2 => exact Ensures.pure trivial

theorem setCommand_filled (args : List String) : Preserves (OnValues fun _ => Filled) (setCommand args) := by
  apply (Ensures.idle (setOptions_idle _ _)).bind
  intro options _
  cases options with
  | none => exact Ensures.pure trivial
  | some options => exact (setConditional_filled _ _ _ _).map _

theorem msetCommand_filled (args : List String) : Preserves (OnValues fun _ => Filled) (msetCommand args) := by
  unfold msetCommand
  split
  · exact Ensures.pure trivial
  · exact (setPairs_filled _).map _

/-- What is moved or copied was filled where it was. -/
theorem rename_filled (source target : Bytes) : Preserves (OnValues fun _ => Filled) (perform (.rename source target)) := by
  apply Ensures.perform
  · exact fun _ _ _ _ rewrites => absurd rewrites not_false
  · exact fun _ _ creates => absurd creates not_false
  · rintro map all _ _ ⟨_, old, held, rfl⟩
    exact all source old held

theorem copy_filled (source target : Bytes) : Preserves (OnValues fun _ => Filled) (perform (.copy source target)) := by
  apply Ensures.perform
  · exact fun _ _ _ _ rewrites => absurd rewrites not_false
  · exact fun _ _ creates => absurd creates not_false
  · rintro map all _ _ ⟨_, old, held, rfl⟩
    exact all source old held

omit [Platform] in
/-- A form that preserves a property, and is refused with too few words. -/
theorem arity_preserves {property : Bytes → DataEntry → Prop} {words : Nat} {args : List String} {form : Form}
    (preserves : Preserves property form) : Preserves property ((arity words args form).getD unknownCommand) := by
  unfold arity
  split
  · exact preserves
  · exact Ensures.pure trivial

/-- The commands that put a value under a key whatever is there. -/
def overwrites (command : String) : Prop :=
  command = "SET" ∨ command = "MSET" ∨ command = "RENAME" ∨ command = "COPY"

/-- Every command that does not overwrite is tame. -/
theorem commandForm_tame {args : List String} (gentle : ¬ overwrites (argument args 0)) :
    Tame ((commandForm args).getD unknownCommand) := by
  unfold commandForm
  simp only
  split
  next name => exact absurd (Or.inl name) gentle
  next => exact arity_tame ((get_tame _).map _)
  next => exact arity_tame (once_tame gentle_delete)
  next => exact arity_tame ((incrby_tame _ 1).map _)
  next => exact arity_tame ((lpush_tame _ _).map _)
  next => exact arity_tame ((rpush_tame _ _).map _)
  next => exact arity_tame ((action_tame _ (fun _ _ _ => poppedFront_shapely)).map _)
  next => exact arity_tame ((action_tame _ (fun _ _ _ => poppedBack_shapely)).map _)
  next => exact arity_tame ((inspect_tame _ _ _).map _)
  next => exact arity_tame (expireatCommand_tame _ _)
  next => exact arity_tame ((ttl_tame _).map _)
  next => exact arity_tame ((Tame.map (Tame.reads (fun _ => Ensures.reads rfl)) _).map _)
  next => exact arity_tame (Tame.map (Tame.reads (fun _ => Ensures.reads rfl)) _)
  next => exact jsonSetCommand_tame args
  next => exact arity_tame ((jsonRead_tame _ _ _).map _)
  next => exact arity_tame ((jsonDel_tame _ _).map _)
  next => exact arity_tame ((jsonRead_tame _ _ _).map _)
  next => exact arity_tame (jsonNumincrbyCommand_tame args)
  next => exact arity_tame (jsonArrappendCommand_tame args)
  next => exact arity_tame ((jsonRead_tame _ _ _).map _)
  next => exact arity_tame ((jsonRead_tame _ _ _).map _)
  next => exact arity_tame ((sadd_tame _ _).map _)
  next => exact arity_tame ((inspect_tame _ _ _).map _)
  next => exact arity_tame ((action_tame _ (fun _ _ _ => memberRemoved_shapely)).map _)
  next => exact arity_tame ((inspect_tame _ _ _).map _)
  next => exact arity_tame ((inspect_tame _ _ _).map _)
  next name => exact absurd (Or.inr (Or.inr (Or.inl name))) gentle
  next name => exact absurd (Or.inr (Or.inl name)) gentle
  next => exact Tame.map (Tame.reads (fun kind => getAllTexts_preserves kind _)) _
  next => exact (keysMatching_tame _).map _
  next => exact arity_tame (hsetCommand_tame args)
  next => exact arity_tame ((inspect_tame _ _ _).map _)
  next => exact arity_tame ((inspect_tame _ _ _).map _)
  next => exact arity_tame ((action_tame _ (fun _ _ _ => fieldRemoved_shapely)).map _)
  next => split <;> exact Tame.pure _
  next => exact arity_tame (incrbyCommand_tame _ _)
  next => exact arity_tame (decrbyCommand_tame _ _)
  next => exact arity_tame ((append_tame _ _).map _)
  next => exact arity_tame (((get_tame _).map _).map _)
  next => exact arity_tame ((getset_tame _ _).map _)
  next => exact arity_tame (once_tame gentle_setIfAbsent)
  next => exact arity_tame (((inspect_tame _ _ _).map _).map _)
  next => exact arity_tame (((inspect_tame _ _ _).map _).map _)
  next name => exact absurd (Or.inr (Or.inr (Or.inr name))) gentle
  next => exact arity_tame (expireCommand_tame args)
  next => exact Tame.pure _
  next => exact Tame.pure _

/-- No command leaves an empty collection. -/
theorem commandForm_filled (args : List String) :
    Preserves (OnValues fun _ => Filled) ((commandForm args).getD unknownCommand) := by
  by_cases overwriting : overwrites (argument args 0)
  · unfold commandForm
    rcases overwriting with name | name | name | name
    · rw [name]
      exact arity_preserves (setCommand_filled args)
    · rw [name]
      exact msetCommand_filled args
    · rw [name]
      exact arity_preserves ((rename_filled _ _).map _)
    · rw [name]
      exact arity_preserves ((copy_filled _ _).map _)
  · exact (commandForm_tame overwriting).filled

theorem executeCommand_filled (args : List String) : Preserves (OnValues fun _ => Filled) (executeCommand args) :=
  (commandForm_filled args).map _

theorem executeCommand_tame {args : List String} (gentle : ¬ overwrites (argument args 0)) :
    Tame (executeCommand args) := (commandForm_tame gentle).map _

end Forms

end OnyxDB.Command
