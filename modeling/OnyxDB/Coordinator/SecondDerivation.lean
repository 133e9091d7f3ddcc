import OnyxDB.Coordinator.KeyLimit
import OnyxDB.Coordinator.Transparency

/-! The two derivations of a command, at a clock that moves. The second one fails the command, and with it all
writes, when it sees none of the changes the first one saw. -/

namespace OnyxDB.Coordinator
open OnyxDB.Library OnyxDB.Engine OnyxDB.Engine.Value OnyxDB.Store OnyxDB.Protocol OnyxDB.Command
  OnyxDB.Persistence.Model OnyxDB.Persistence.Commit

section Looking

/-- The reading at which a derivation that begins now looks at a key. -/
def lookAt (keys : List Bytes) (store : ShardedStore) (key : Bytes) : Nat :=
  store.engine.clock.seconds (keys.idxOf key)

/-- What a derivation that begins now sees of a key. -/
def seen (keys : List Bytes) (store : ShardedStore) (key : Bytes) : Option PersistentEntry :=
  store.view (lookAt keys store key) key

variable [Platform]

theorem peekEntry_shown (store : ShardedStore) (key : Bytes) :
    (store.peekEntry key).1.map PersistentEntry.ofDataEntry = store.view store.engine.clock.now key :=
  congrArg (Option.map PersistentEntry.ofDataEntry) (store.engine.peek_fst key)

end Looking

section Lapsing
variable {executed settled : ShardedStore} {keys : List Bytes}

/-- A key is there when the first derivation looks at it and has expired when the second one does. -/
def Lapses (keys : List Bytes) (executed settled : ShardedStore) (key : Bytes) : Prop :=
  (seen keys executed key).isSome ∧ executed.view (lookAt keys settled key) key = none

/-- All that was changed was absent before and lapses, and nothing that was there before lapses. -/
structure Forgotten (keys : List Bytes) (before : Images) (executed settled : ShardedStore) : Prop where
  changed : ∃ key ∈ keys, imageBeq (imageShown before key) (seen keys executed key) = false
  fleeting : ∀ key ∈ keys, imageBeq (imageShown before key) (seen keys executed key) = false →
    imageShown before key = none ∧ Lapses keys executed settled key
  lasting : ∀ key ∈ keys, Lapses keys executed settled key → imageShown before key = none

end Lapsing

section Commands
variable [Platform] [Process]

/-- The mutation a command begins, and the store it has left when its effects are derived for the first time. -/
def executedCommand (arguments : List String) (store : ShardedStore) : MutationAttempt × ShardedStore :=
  ((store.beginMutation (affectedKeys arguments)).1,
    (executeServerCommand arguments (store.beginMutation (affectedKeys arguments)).2).2)

omit [Platform] [Process] in
theorem eraseDups_nodup (keys : List Bytes) : keys.eraseDups.Nodup := by
  induction shape : keys.length using Nat.strong_induction_on generalizing keys with
  | _ length shorter =>
      cases keys with
      | nil => exact List.nodup_nil
      | cons key keys =>
          have smaller : (keys.filter (fun other => !other == key)).length < length := by
            rw [← shape, List.length_cons]
            exact Nat.lt_succ_of_le (List.length_filter_le _ keys)
          rw [List.eraseDups_cons, List.nodup_cons]
          refine ⟨?_, shorter _ smaller _ rfl⟩
          intro again
          simpa using List.mem_eraseDups.mp again

end Commands

end OnyxDB.Coordinator
