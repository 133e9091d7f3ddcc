import OnyxDB.Command.ValueShape
import OnyxDB.Store.JsonDepth

/-! How deep commands nest the stored documents. Only `JSON.SET` and `JSON.ARRAPPEND` put a value below others; all
other commands leave documents as they are or make them shallower. -/

namespace OnyxDB.Command
open OnyxDB.Engine OnyxDB.Engine.Value OnyxDB.Store OnyxDB.Store.ShardedStore OnyxDB.Protocol

section Closures

variable {value : OnyxValue} {document : Json}

theorem incremented_leaves {delta : Int64} (made : (incremented delta value).2 = .json document) :
    value = .json document := by
  unfold incremented at made
  split at made
  · exact made
  · split at made
    · exact made
    · cases made

theorem appended_leaves {suffix : String} (made : (appended suffix value).2 = .json document) :
    value = .json document := by
  unfold appended at made
  split at made
  · exact made
  · cases made

theorem exchanged_leaves {newValue : String} {entry : DataEntry} {existed : Bool}
    (made : (exchanged newValue entry existed).2.value = .json document) : entry.value = .json document := by
  unfold exchanged at made
  split at made
  · exact made
  · cases made

theorem pushedFront_leaves {item : Bytes} (made : (pushedFront item value).2 = .json document) :
    value = .json document := by
  unfold pushedFront at made
  split at made
  · cases made
  · exact made

theorem pushedBack_leaves {item : Bytes} (made : (pushedBack item value).2 = .json document) :
    value = .json document := by
  unfold pushedBack at made
  split at made
  · cases made
  · exact made

theorem fieldSet_leaves {field content : Bytes} (made : (fieldSet field content value).2 = .json document) :
    value = .json document := by
  unfold fieldSet at made
  split at made
  · cases made
  · exact made

theorem memberAdded_leaves {member : Bytes} (made : (memberAdded member value).2 = .json document) :
    value = .json document := by
  unfold memberAdded at made
  split at made
  · cases made
  · exact made

theorem poppedFront_leaves (made : (poppedFront value).2 = .json document) : value = .json document := by
  unfold poppedFront at made
  split at made
  · cases made
  · cases made
  · exact made

theorem poppedBack_leaves (made : (poppedBack value).2 = .json document) : value = .json document := by
  unfold poppedBack at made
  split at made
  · split at made <;> cases made
  · exact made

theorem fieldRemoved_leaves {field : Bytes} (made : (fieldRemoved field value).2 = .json document) :
    value = .json document := by
  unfold fieldRemoved at made
  split at made
  · cases made
  · exact made

theorem memberRemoved_leaves {member : Bytes} (made : (memberRemoved member value).2 = .json document) :
    value = .json document := by
  unfold memberRemoved at made
  split at made
  · cases made
  · exact made

theorem documentRemoved_leaves (made : (documentRemoved value).2 = .json document) : value = .json document := by
  unfold documentRemoved at made
  split at made <;> exact made

end Closures

/-- The documents among the values have a property. -/
def Documented (kind : Json → Prop) (_ : Bytes) (value : OnyxValue) : Prop :=
  ∀ document, value = .json document → kind document

section Operations

variable {α : Type} {operation : Operation α} {key : Bytes}

/-- An operation that finds every document it leaves. -/
structure Plain (operation : Operation α) : Prop where
  rewrites : ∀ key old document, operation.Rewrites key old (.json document) → old = .json document
  creates : ∀ key document, ¬ operation.Creates key (.json document)
  replaces : ∀ map key document, operation.Replaces map key (.json document) →
    ∃ source old, map source = some old ∧ old.value = .json document

theorem plain_delete : Plain (.delete key) := ⟨nofun, nofun, nofun⟩

theorem plain_setExpiry {timestamp : Nat} : Plain (.setExpiry key timestamp) := ⟨nofun, nofun, nofun⟩

theorem plain_setExpiryConditional {timestamp : Nat} {condition : Option Bool} :
    Plain (.setExpiryConditional key timestamp condition) := ⟨nofun, nofun, nofun⟩

theorem plain_set {bytes : Bytes} : Plain (.set key (.blob bytes) none) where
  rewrites := nofun
  creates := nofun
  replaces := fun _ _ _ replaced => absurd replaced.2 nofun

theorem plain_setConditional {bytes : Bytes} {expiresAt : Option Nat} {condition : Option Bool} :
    Plain (.setConditional key (.blob bytes) expiresAt condition) where
  rewrites := nofun
  creates := nofun
  replaces := fun _ _ _ replaced => absurd replaced.2 nofun

theorem plain_setIfAbsent {bytes : Bytes} : Plain (.setIfAbsent key (.blob bytes)) where
  rewrites := nofun
  creates := fun _ _ created => absurd created.2 nofun
  replaces := nofun

theorem plain_rename {target : Bytes} : Plain (.rename key target) where
  rewrites := nofun
  creates := nofun
  replaces := by
    rintro map _ document ⟨_, old, held, same⟩
    exact ⟨key, old, held, same.symm⟩

theorem plain_copy {target : Bytes} : Plain (.copy key target) where
  rewrites := nofun
  creates := nofun
  replaces := by
    rintro map _ document ⟨_, old, held, same⟩
    exact ⟨key, old, held, same.symm⟩

theorem plain_action {mutate : OnyxValue → EntryMutation α × OnyxValue}
    (leaves : ∀ value document, (mutate value).2 = .json document → value = .json document) :
    Plain (.updateIfExistsWithAction key mutate) where
  rewrites := by
    rintro _ old document ⟨_, result, same⟩
    exact leaves old document (by rw [same])
  creates := nofun
  replaces := nofun

theorem plain_upsert {default : OnyxValue} {mutate : OnyxValue → α × OnyxValue}
    (leaves : ∀ value document, (mutate value).2 = .json document → value = .json document)
    (other : ∀ document, default ≠ .json document) : Plain (.updateOrInsert key default mutate) where
  rewrites := fun _ old document made => leaves old document made.2.symm
  creates := fun _ document made => other document (leaves default document made.2.symm)
  replaces := nofun

theorem plain_upsertEntry {default : OnyxValue} {mutate : DataEntry → Bool → α × DataEntry}
    (leaves : ∀ entry existed document, (mutate entry existed).2.value = .json document →
      entry.value = .json document)
    (other : ∀ document, default ≠ .json document) : Plain (.updateEntryOrInsertWithPresence key default mutate) where
  rewrites := by
    rintro _ _ document ⟨_, entry, rfl, made⟩
    exact leaves entry true document made.symm
  creates := by
    rintro _ document ⟨_, entry, same, made⟩
    exact other document (same.symm.trans (leaves entry false document made.symm))
  replaces := nofun

variable [Platform] {kind : Json → Prop}

theorem Plain.preserves (plain : Plain operation) : Preserves (OnValues (Documented kind)) (perform operation) := by
  apply Ensures.perform
  · rintro key old new documented rewrites document rfl
    exact documented document (plain.rewrites key old document rewrites)
  · rintro key new creates document rfl
    exact absurd creates (plain.creates key document)
  · rintro map documented key new replaces document rfl
    obtain ⟨source, old, held, same⟩ := plain.replaces map key document replaces
    exact documented source old held document same

/-- An edit of documents that keeps their property. -/
theorem document_preserves {edit : Json → α × Json} (keeps : ∀ root, kind root → kind (edit root).2) :
    Preserves (OnValues (Documented kind)) (perform (.updateIfExists key (documentEdited edit))) := by
  apply Ensures.perform
  · rintro _ old _ documented ⟨_, rfl⟩ document made
    unfold documentEdited at made
    split at made
    next root =>
      rw [← OnyxValue.json.inj made]
      exact keeps root (documented root rfl)
    · exact documented document made
  · exact fun _ _ creates => absurd creates not_false
  · exact fun _ _ _ _ replaces => absurd replaces not_false

theorem replaced_preserves {newValue : Json} (new : kind newValue) :
    Preserves (OnValues (Documented kind))
      (perform (.updateOrInsertWithPresence key (.json .null) (fun value _ => documentReplaced newValue value))) := by
  have replaced : ∀ value, Documented kind key value → Documented kind key (documentReplaced newValue value).2 := by
    intro value documented
    unfold documentReplaced
    split
    · rintro document made
      rw [← OnyxValue.json.inj made]
      exact new
    · exact documented
  apply Ensures.perform
  · rintro _ old _ documented ⟨_, rfl⟩
    exact replaced old documented
  · rintro _ _ ⟨_, rfl⟩ document made
    rw [← OnyxValue.json.inj made]
    exact new
  · exact fun _ _ _ _ replaces => absurd replaces not_false

end Operations

section Forms

variable [Platform] {limit : Nat}

/-- No stored document is nested deeper than `limit`. -/
abbrev Within (limit : Nat) : Bytes → DataEntry → Prop := OnValues (Documented (fun document => document.depth ≤ limit))

/-- `JSON.SET` and `JSON.ARRAPPEND` put their value where it nests no deeper than `limit`, if a document that is
nested no deeper has such a place at all. -/
def NestsWithin (limit : Nat) (args : List String) : Prop :=
  ∀ segments parsed, parseJsonPath (argument args 2) = some segments →
    Platform.jsonFromSlice (utf8Bytes (argument args 3)) = .ok parsed →
      (argument args 0 = "JSON.SET" → segments.length ≤ limit → segments.length + parsed.depth ≤ limit) ∧
      (argument args 0 = "JSON.ARRAPPEND" → segments.length < limit → segments.length + parsed.depth < limit)

/-- There is a document nested no deeper than `limit` which the command nests deeper. -/
def Deepens (limit : Nat) (args : List String) : Prop :=
  ∃ segments newValue root, parseJsonPath (argument args 2) = some segments ∧
    Platform.jsonFromSlice (utf8Bytes (argument args 3)) = .ok newValue ∧ root.depth ≤ limit ∧
      (argument args 0 = "JSON.SET" ∧ limit < (setJsonPath root segments newValue).2.depth ∨
        argument args 0 = "JSON.ARRAPPEND" ∧ limit < (arrappendJsonPath root segments newValue).2.depth)

/-- A value is nested within the limit, or there is a document that it makes too deep. -/
theorem deepens_of_not_nests {args : List String} (deep : ¬ NestsWithin limit args) : Deepens limit args := by
  unfold NestsWithin at deep
  push Not at deep
  obtain ⟨segments, newValue, path, parsed, otherwise⟩ := deep
  by_cases set : argument args 0 = "JSON.SET" → segments.length ≤ limit → segments.length + newValue.depth ≤ limit
  · obtain ⟨name, room, below⟩ := otherwise set
    obtain ⟨root, within, depth⟩ := arrappendJsonPath_deepest newValue segments
    refine ⟨segments, newValue, root, path, parsed, ?_, Or.inr ⟨name, ?_⟩⟩ <;> omega
  · push Not at set
    obtain ⟨name, room, below⟩ := set
    obtain ⟨root, within, depth⟩ := setJsonPath_deepest newValue segments
    refine ⟨segments, newValue, root, path, parsed, within.trans room, Or.inl ⟨name, ?_⟩⟩
    rw [depth]
    exact below

theorem once_within {α : Type} {operation : Operation α} (plain : Plain operation) (answer : α → RESPValue × Bool) :
    Preserves (Within limit) (perform operation >>= fun value => Pure.pure (answer value)) := plain.preserves.map answer

theorem get_within (key : String) : Preserves (Within limit) (get key) := get_preserves _ key

theorem set_within (key value : String) : Preserves (Within limit) (set key value) :=
  plain_set.preserves.map (fun _ => ())

theorem setPairs_within (words : List String) : Preserves (Within limit) (setPairs words) := by
  fun_induction setPairs words with
  | case1 key value rest within => exact (set_within key value).bind (fun _ _ => within)
  | case2 => exact Ensures.pure trivial

theorem setCommand_within (args : List String) : Preserves (Within limit) (setCommand args) := by
  apply (Ensures.idle (setOptions_idle _ _)).bind
  intro options _
  cases options with
  | none => exact Ensures.pure trivial
  | some options => exact plain_setConditional.preserves.map _

theorem msetCommand_within (args : List String) : Preserves (Within limit) (msetCommand args) := by
  unfold msetCommand
  split
  · exact Ensures.pure trivial
  · exact (setPairs_within _).map _

theorem incrby_within (key : String) (delta : Int64) : Preserves (Within limit) (incrby key delta) :=
  (plain_upsert (fun _ _ => incremented_leaves) (fun _ same => by cases same)).preserves

theorem append_within (key suffix : String) : Preserves (Within limit) (append key suffix) :=
  (plain_upsert (fun _ _ => appended_leaves) (fun _ same => by cases same)).preserves

theorem getset_within (key newValue : String) : Preserves (Within limit) (getset key newValue) :=
  (plain_upsertEntry (fun _ _ _ => exchanged_leaves) (fun _ same => by cases same)).preserves

theorem lpush_within (key item : String) : Preserves (Within limit) (lpush key item) :=
  (plain_upsert (fun _ _ => pushedFront_leaves) (fun _ same => by cases same)).preserves

theorem rpush_within (key item : String) : Preserves (Within limit) (rpush key item) :=
  (plain_upsert (fun _ _ => pushedBack_leaves) (fun _ same => by cases same)).preserves

theorem hset_within (key field value : String) : Preserves (Within limit) (hset key field value) :=
  (plain_upsert (fun _ _ => fieldSet_leaves) (fun _ same => by cases same)).preserves

theorem sadd_within (key member : String) : Preserves (Within limit) (sadd key member) :=
  (plain_upsert (fun _ _ => memberAdded_leaves) (fun _ same => by cases same)).preserves

theorem action_within {α : Type} (key : Bytes) {mutate : OnyxValue → EntryMutation α × OnyxValue} {missing : α}
    (leaves : ∀ value document, (mutate value).2 = .json document → value = .json document) :
    Preserves (Within limit) (do return (← perform (.updateIfExistsWithAction key mutate)).getD missing) :=
  (plain_action leaves).preserves.map _

theorem expire_within (key : String) (seconds : Nat) : Preserves (Within limit) (expire key seconds) := by
  apply (Ensures.idle Idle.now).bind
  exact fun _ _ => plain_setExpiry.preserves

theorem expireConditional_within (key : String) (seconds : Nat) (condition : String) :
    Preserves (Within limit) (expireConditional key seconds condition) := by
  have require (expiry : Bool) : Preserves (Within limit) (expireConditional.require key seconds expiry) := by
    apply (Ensures.idle Idle.now).bind
    exact fun _ _ => plain_setExpiryConditional.preserves
  unfold expireConditional
  split
  · exact require false
  · exact require true
  · exact Ensures.pure trivial

theorem expireatCommand_within (key timestamp : String) : Preserves (Within limit) (expireatCommand key timestamp) := by
  unfold expireatCommand
  split
  · exact Ensures.pure trivial
  · exact once_within plain_setExpiry _

theorem expireCommand_within (args : List String) : Preserves (Within limit) (expireCommand args) := by
  unfold expireCommand
  split
  · exact Ensures.pure trivial
  · split
    · exact (expire_within _ _).map _
    · split
      · exact Ensures.pure trivial
      · exact (expireConditional_within _ _ _).map _

theorem hsetCommand_within (args : List String) : Preserves (Within limit) (hsetCommand args) := by
  unfold hsetCommand
  split
  · exact Ensures.pure trivial
  · exact (hset_within _ _ _).map _

theorem incrbyCommand_within (key delta : String) : Preserves (Within limit) (incrbyCommand key delta) := by
  unfold incrbyCommand
  split
  · exact Ensures.pure trivial
  · exact (incrby_within _ _).map _

theorem decrbyCommand_within (key delta : String) : Preserves (Within limit) (decrbyCommand key delta) := by
  unfold decrbyCommand
  split
  · exact Ensures.pure trivial
  · split
    · exact Ensures.pure trivial
    · exact (incrby_within _ _).map _

theorem jsonDel_within (key path : String) : Preserves (Within limit) (jsonDel key path) := by
  unfold jsonDel
  split
  · exact Ensures.pure trivial
  · exact action_within _ (fun _ _ => documentRemoved_leaves)
  · apply (document_preserves (fun _ within => deleteJsonPath_depth within)).bind
    rintro (_ | _ | _) _ <;> exact Ensures.pure trivial

theorem jsonEdit_within {α : Type} {key path : String} {edit : List JsonPathSegment → Json → Except String α × Json}
    (keeps : ∀ segments, parseJsonPath path = some segments →
      ∀ root : Json, root.depth ≤ limit → (edit segments root).2.depth ≤ limit) :
    Preserves (Within limit) (jsonEdit key path edit) := by
  unfold jsonEdit
  split
  · exact Ensures.pure trivial
  next segments parsed =>
    apply (document_preserves (keeps segments parsed)).bind
    rintro (_ | _ | _) _ <;> exact Ensures.pure trivial

theorem jsonNumincrbyCommand_within (args : List String) : Preserves (Within limit) (jsonNumincrbyCommand args) := by
  unfold jsonNumincrbyCommand
  split
  · exact Ensures.pure trivial
  · exact (jsonEdit_within (fun _ _ _ within => numincrbyJsonPath_depth within)).map _

theorem jsonArrappendCommand_within {args : List String} (nests : NestsWithin limit args)
    (name : argument args 0 = "JSON.ARRAPPEND") : Preserves (Within limit) (jsonArrappendCommand args) := by
  unfold jsonArrappendCommand
  split
  · exact Ensures.pure trivial
  next newValue parsed =>
    refine (jsonEdit_within ?_).map _
    intro segments path root within
    exact arrappendJsonPath_depth within ((nests segments newValue path parsed).2 name)

theorem jsonSet_within {key path : String} {newValue : Json}
    (room : ∀ segments, parseJsonPath path = some segments → segments.length ≤ limit →
      segments.length + newValue.depth ≤ limit) : Preserves (Within limit) (jsonSet key path newValue) := by
  unfold jsonSet
  split
  · exact Ensures.pure trivial
  next whole =>
    have shallow := room [] whole (Nat.zero_le limit)
    rw [List.length_nil, Nat.zero_add] at shallow
    exact replaced_preserves shallow
  next segments _ path =>
    apply (document_preserves (fun _ within => setJsonPath_depth within (room segments path))).bind
    rintro (_ | _ | (_ | _)) _ <;> exact Ensures.pure trivial

theorem jsonSetCommand_within {args : List String} (nests : NestsWithin limit args)
    (name : argument args 0 = "JSON.SET") : Preserves (Within limit) (jsonSetCommand args) := by
  unfold jsonSetCommand
  split
  · exact Ensures.pure trivial
  · split
    · exact Ensures.pure trivial
    next newValue parsed =>
      refine (jsonSet_within ?_).map _
      exact fun segments path => (nests segments newValue path parsed).1 name

/-- A command that nests its value within a limit keeps the stored documents within it. -/
theorem commandForm_within {args : List String} (nests : NestsWithin limit args) :
    Preserves (Within limit) ((commandForm args).getD unknownCommand) := by
  have inspect {α ε : Type} (key : String) (missing : α) (look : OnyxValue → Except ε α) :
      Preserves (Within limit) (inspect key missing look) := inspect_preserves _ key missing look
  have jsonRead {α : Type} (key path : String) (look : Json → Option α) :
      Preserves (Within limit) (jsonRead key path look) := jsonRead_preserves _ key path look
  unfold commandForm
  simp only
  split
  next => exact arity_preserves (setCommand_within args)
  next => exact arity_preserves ((get_within _).map _)
  next => exact arity_preserves (once_within plain_delete _)
  next => exact arity_preserves ((incrby_within _ 1).map _)
  next => exact arity_preserves ((lpush_within _ _).map _)
  next => exact arity_preserves ((rpush_within _ _).map _)
  next => exact arity_preserves ((action_within _ (fun _ _ => poppedFront_leaves)).map _)
  next => exact arity_preserves ((action_within _ (fun _ _ => poppedBack_leaves)).map _)
  next => exact arity_preserves ((inspect _ _ _).map _)
  next => exact arity_preserves (expireatCommand_within _ _)
  next => exact arity_preserves ((ttl_preserves _ _).map _)
  next => exact arity_preserves (((Ensures.reads rfl).map _).map _)
  next => exact arity_preserves ((Ensures.reads rfl).map _)
  next name => exact jsonSetCommand_within nests name
  next => exact arity_preserves ((jsonRead _ _ _).map _)
  next => exact arity_preserves ((jsonDel_within _ _).map _)
  next => exact arity_preserves ((jsonRead _ _ _).map _)
  next => exact arity_preserves (jsonNumincrbyCommand_within args)
  next name => exact arity_preserves (jsonArrappendCommand_within nests name)
  next => exact arity_preserves ((jsonRead _ _ _).map _)
  next => exact arity_preserves ((jsonRead _ _ _).map _)
  next => exact arity_preserves ((sadd_within _ _).map _)
  next => exact arity_preserves ((inspect _ _ _).map _)
  next => exact arity_preserves ((action_within _ (fun _ _ => memberRemoved_leaves)).map _)
  next => exact arity_preserves ((inspect _ _ _).map _)
  next => exact arity_preserves ((inspect _ _ _).map _)
  next => exact arity_preserves (plain_rename.preserves.map _)
  next => exact msetCommand_within args
  next => exact (getAllTexts_preserves _ _).map _
  next => exact (keysMatching_preserves _ _).map _
  next => exact arity_preserves (hsetCommand_within args)
  next => exact arity_preserves ((inspect _ _ _).map _)
  next => exact arity_preserves ((inspect _ _ _).map _)
  next => exact arity_preserves ((action_within _ (fun _ _ => fieldRemoved_leaves)).map _)
  next => split <;> exact Ensures.pure trivial
  next => exact arity_preserves (incrbyCommand_within _ _)
  next => exact arity_preserves (decrbyCommand_within _ _)
  next => exact arity_preserves ((append_within _ _).map _)
  next => exact arity_preserves (((get_within _).map _).map _)
  next => exact arity_preserves ((getset_within _ _).map _)
  next => exact arity_preserves (once_within plain_setIfAbsent _)
  next => exact arity_preserves (((inspect _ _ _).map _).map _)
  next => exact arity_preserves (((inspect _ _ _).map _).map _)
  next => exact arity_preserves (plain_copy.preserves.map _)
  next => exact arity_preserves (expireCommand_within args)
  next => exact Ensures.pure trivial
  next => exact Ensures.pure trivial

theorem executeCommand_within {args : List String} (nests : NestsWithin limit args) :
    Preserves (Within limit) (executeCommand args) := (commandForm_within nests).map _

end Forms

end OnyxDB.Command
