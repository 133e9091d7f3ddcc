import OnyxDB.Engine.Provenance
import OnyxDB.Store.Honesty

/-! Shapes of values that the typed operations keep: a collection that is stored has an element, and an update of
a value does not change the family of its type. -/

namespace OnyxDB.Store
open OnyxDB.Library OnyxDB.Library.Decimal OnyxDB.Engine OnyxDB.Engine.Value OnyxDB.Protocol

inductive TypeFamily where
  | string
  | float
  | list
  | hash
  | set
  | json
  | vector
  deriving DecidableEq, Repr

/-- Byte strings and integers are both strings. -/
def family : OnyxValue → TypeFamily
  | .blob _ => .string
  | .int _ => .string
  | .float _ => .float
  | .list _ => .list
  | .hash _ => .hash
  | .set _ => .set
  | .json _ => .json
  | .vector _ => .vector

/-- No list, hash or set without an element. -/
def Filled : OnyxValue → Prop
  | .list items => items ≠ []
  | .hash fields => fields.entries ≠ []
  | .set members => members.members ≠ []
  | _ => True

/-- A change of a value that keeps its shape. -/
structure Shapely (old new : OnyxValue) : Prop where
  family : family new = family old
  filled : Filled old → Filled new

theorem Shapely.refl (value : OnyxValue) : Shapely value value := ⟨rfl, fun filled => filled⟩

section Closures

theorem incremented_shapely (delta : Int64) (value : OnyxValue) : Shapely value (incremented delta value).2 := by
  unfold incremented
  split
  · exact .refl value
  next current known =>
    split
    · exact .refl value
    · refine ⟨?_, fun _ => trivial⟩
      unfold currentInteger at known
      split at known
      · rfl
      · rfl
      · exact absurd known nofun

theorem appended_shapely (suffix : String) (value : OnyxValue) : Shapely value (appended suffix value).2 := by
  unfold appended
  split
  · exact .refl value
  next text shown =>
    refine ⟨?_, fun _ => trivial⟩
    unfold valueText at shown
    split at shown
    · rfl
    · rfl
    · exact absurd shown nofun

theorem exchanged_shapely (newValue : String) (entry : DataEntry) (existed : Bool) :
    Shapely entry.value (exchanged newValue entry existed).2.value := by
  unfold exchanged
  split
  · exact .refl _
  next text shown =>
    refine ⟨?_, fun _ => trivial⟩
    unfold valueText at shown
    split at shown
    next same => rw [same]; rfl
    next same => rw [same]; rfl
    · exact absurd shown nofun

theorem pushedFront_shapely (item : Bytes) (value : OnyxValue) : Shapely value (pushedFront item value).2 := by
  unfold pushedFront
  split
  · exact ⟨rfl, fun _ => List.cons_ne_nil _ _⟩
  · exact .refl value

theorem pushedBack_shapely (item : Bytes) (value : OnyxValue) : Shapely value (pushedBack item value).2 := by
  unfold pushedBack
  split
  · exact ⟨rfl, fun _ => List.append_ne_nil_of_right_ne_nil _ (List.cons_ne_nil _ _)⟩
  · exact .refl value

theorem insert_entries_ne_nil (fields : HashMap) (field content : Bytes) :
    (HashMap.insert fields field content).2.entries ≠ [] := by
  unfold HashMap.insert
  split
  · exact List.append_ne_nil_of_right_ne_nil _ (List.cons_ne_nil _ _)
  next present =>
    intro empty
    rw [not_not] at present
    have kept : (AList.replace field content fields).keys = fields.keys := AList.keys_replace field content fields
    have none : (AList.replace field content fields).keys = [] := by
      rw [AList.keys, empty]
      rfl
    have member : field ∈ fields.keys := present
    rw [← kept, none] at member
    exact List.not_mem_nil member

theorem insert_members_ne_nil (members : HashSet) (member : Bytes) : (members.insert member).2.members ≠ [] := by
  unfold HashSet.insert
  split
  · exact List.append_ne_nil_of_right_ne_nil _ (List.cons_ne_nil _ _)
  next present =>
    rw [not_not] at present
    exact List.ne_nil_of_mem present

theorem fieldSet_shapely (field content : Bytes) (value : OnyxValue) :
    Shapely value (fieldSet field content value).2 := by
  unfold fieldSet
  split
  · exact ⟨rfl, fun _ => insert_entries_ne_nil _ _ _⟩
  · exact .refl value

theorem memberAdded_shapely (member : Bytes) (value : OnyxValue) : Shapely value (memberAdded member value).2 := by
  unfold memberAdded
  split
  · exact ⟨rfl, fun _ => insert_members_ne_nil _ _⟩
  · exact .refl value

theorem documentReplaced_shapely (newValue : Json) (value : OnyxValue) :
    Shapely value (documentReplaced newValue value).2 := by
  unfold documentReplaced
  split
  · exact ⟨rfl, fun _ => trivial⟩
  · exact .refl value

theorem documentEdited_shapely {α : Type} (edit : Json → α × Json) (value : OnyxValue) :
    Shapely value (documentEdited edit value).2 := by
  unfold documentEdited
  split
  · exact ⟨rfl, fun _ => trivial⟩
  · exact .refl value

/-- A collection that is kept has an element left. -/
theorem keepUnless_keep {α : Type} {empty : Bool} {result kept : α} (same : keepUnless empty result = .keep kept) :
    empty = false := by
  cases empty
  · rfl
  · exact absurd same nofun

variable {value new : OnyxValue}

theorem poppedFront_shapely {result : Except StoreError (Option String)}
    (popped : poppedFront value = (.keep result, new)) : Shapely value new := by
  unfold poppedFront at popped
  split at popped
  next item items =>
    obtain ⟨kept, rfl⟩ := Prod.mk.inj popped
    have left := keepUnless_keep kept
    exact ⟨rfl, fun _ => List.isEmpty_eq_false_iff.mp left⟩
  · obtain ⟨-, rfl⟩ := Prod.mk.inj popped
    exact .refl _
  · obtain ⟨-, rfl⟩ := Prod.mk.inj popped
    exact .refl _

theorem poppedBack_shapely {result : Except StoreError (Option String)}
    (popped : poppedBack value = (.keep result, new)) : Shapely value new := by
  unfold poppedBack at popped
  split at popped
  next items =>
    split at popped
    · obtain ⟨kept, rfl⟩ := Prod.mk.inj popped
      have left := keepUnless_keep kept
      exact ⟨rfl, fun _ => List.isEmpty_eq_false_iff.mp left⟩
    · obtain ⟨-, rfl⟩ := Prod.mk.inj popped
      exact .refl _
  · obtain ⟨-, rfl⟩ := Prod.mk.inj popped
    exact .refl _

theorem fieldRemoved_shapely {field : Bytes} {result : Except StoreError Bool}
    (removed : fieldRemoved field value = (.keep result, new)) : Shapely value new := by
  by_cases here : (fieldRemoved field value).1.result = .ok true
  · unfold fieldRemoved at removed here
    split at removed
    next fields =>
      obtain ⟨kept, rfl⟩ := Prod.mk.inj removed
      have left := keepUnless_keep kept
      simp only [HashMap.remove, keepUnless_result, Except.ok.injEq] at here
      rw [here, Bool.true_and] at left
      exact ⟨rfl, fun _ => List.isEmpty_eq_false_iff.mp left⟩
    · obtain ⟨-, rfl⟩ := Prod.mk.inj removed
      exact .refl _
  · obtain ⟨_, same⟩ := fieldRemoved_refuses here
    rw [same] at removed
    exact (Prod.mk.inj removed).2 ▸ .refl _

theorem memberRemoved_shapely {member : Bytes} {result : Except StoreError Bool}
    (removed : memberRemoved member value = (.keep result, new)) : Shapely value new := by
  by_cases here : (memberRemoved member value).1.result = .ok true
  · unfold memberRemoved at removed here
    split at removed
    next members =>
      obtain ⟨kept, rfl⟩ := Prod.mk.inj removed
      have left := keepUnless_keep kept
      simp only [HashSet.remove, keepUnless_result, Except.ok.injEq] at here
      rw [here, Bool.true_and] at left
      exact ⟨rfl, fun _ => List.isEmpty_eq_false_iff.mp left⟩
    · obtain ⟨-, rfl⟩ := Prod.mk.inj removed
      exact .refl _
  · obtain ⟨_, same⟩ := memberRemoved_refuses here
    rw [same] at removed
    exact (Prod.mk.inj removed).2 ▸ .refl _

theorem documentRemoved_shapely {result : Except String Bool}
    (removed : documentRemoved value = (.keep result, new)) : Shapely value new := by
  unfold documentRemoved at removed
  split at removed
  · exact absurd (Prod.mk.inj removed).1 nofun
  · exact (Prod.mk.inj removed).2 ▸ .refl _

end Closures

/-- Every stored entry has a property, which may depend on its key. -/
def ShardedStore.All (store : ShardedStore) (property : Bytes → DataEntry → Prop) : Prop :=
  ∀ key entry, store.engine.lookup key = some entry → property key entry

/-- A property of entries that asks about their values only. -/
abbrev OnValues (property : Bytes → OnyxValue → Prop) (key : Bytes) (entry : DataEntry) : Prop :=
  property key entry.value

/-- A program reads the clock forward. -/
def Onward {α : Type} (program : StoreM α) : Prop :=
  ∀ store : ShardedStore, store.engine.clock.Leads (program store).2.engine.clock

/-- The stored values have a property afterwards, the result has one, and the clock was read forward. -/
structure Ensured {α : Type} (property : Bytes → DataEntry → Prop) (result : α → Prop) (store : ShardedStore)
    (outcome : α × ShardedStore) : Prop where
  leads : store.engine.clock.Leads outcome.2.engine.clock
  all : outcome.2.All property
  result : result outcome.1

/-- A program keeps a property of the stored values, and its result has one. -/
def Ensures {α : Type} (property : Bytes → DataEntry → Prop) (program : StoreM α) (result : α → Prop) : Prop :=
  ∀ store : ShardedStore, store.All property → Ensured property result store (program store)

abbrev Preserves {α : Type} (property : Bytes → DataEntry → Prop) (program : StoreM α) : Prop :=
  Ensures property program (fun _ => True)

theorem ShardedStore.All.sheds {store : ShardedStore} {property : Bytes → DataEntry → Prop} (all : store.All property)
    {after : ShardedStore} (sheds : store.engine.Sheds after.engine) : after.All property :=
  fun key new held => all key new (sheds key new held)

theorem ShardedStore.all_true (store : ShardedStore) : store.All (fun _ _ => True) := fun _ _ _ => trivial

namespace Ensures

variable {α β : Type} {property : Bytes → DataEntry → Prop}

theorem onward {program : StoreM α} {result : α → Prop} (ensures : Ensures (fun _ _ => True) program result) :
    Onward program := fun store => (ensures store store.all_true).leads

theorem pure {value : α} {result : α → Prop} (holds : result value) :
    Ensures property (pure value : StoreM α) result := fun _ all => ⟨Clock.Leads.refl _, all, holds⟩

theorem bind {program : StoreM α} {middle : α → Prop} {next : α → StoreM β} {result : β → Prop}
    (first : Ensures property program middle) (rest : ∀ value, middle value → Ensures property (next value) result) :
    Ensures property (program >>= next) result := by
  intro store all
  have before := first store all
  have later := rest _ before.result _ before.all
  exact ⟨before.leads.trans later.leads, later.all, later.result⟩

theorem weaken {program : StoreM α} {result weaker : α → Prop} (ensures : Ensures property program result)
    (follows : ∀ value, result value → weaker value) : Ensures property program weaker := by
  intro store all
  have ensured := ensures store all
  exact ⟨ensured.leads, ensured.all, follows _ ensured.result⟩

/-- A program and an answer to its result. -/
theorem map {program : StoreM α} (ensures : Preserves property program) (answer : α → β) :
    Preserves property (program >>= fun value => Pure.pure (answer value)) :=
  ensures.bind (fun _ _ => pure trivial)

theorem idle {program : StoreM α} (idle : Idle program) : Preserves property program := by
  intro store all
  refine ⟨(idle store).1, ?_, trivial⟩
  intro key entry held
  rw [(idle store).2] at held
  exact all key entry held

/-- A program that writes no slot. -/
theorem ages {program : StoreM α} (ages : ∀ store : ShardedStore, store.engine.Ages (program store).2.engine) :
    Preserves property program := fun store all => ⟨(ages store).leads, all.sheds (ages store).sheds, trivial⟩

variable [Platform] {kind : Bytes → OnyxValue → Prop}

theorem perform {operation : Operation α}
    (rewrites : ∀ key old new, kind key old → operation.Rewrites key old new → kind key new)
    (creates : ∀ key new, operation.Creates key new → kind key new)
    (replaces : ∀ map : FlatMap, (∀ key entry, map key = some entry → kind key entry.value) →
      ∀ key new, operation.Replaces map key new → kind key new) :
    Preserves (OnValues kind) (ShardedStore.perform operation) := by
  intro store all
  refine ⟨store.engine.run_leads operation, ?_, trivial⟩
  intro key new held
  cases OnyxEngine.run_origin store.engine operation held with
  | kept old present same =>
      have held := all key old present
      rwa [OnValues, ← same] at held
  | rewritten old present made => exact rewrites key _ _ (all key old present) made
  | created _ _ _ made => exact creates key _ made
  | replaced put => exact replaces _ all key _ put

/-- A program that reads only. -/
theorem reads {operation : Operation α} (only : operation.writes = []) :
    Preserves (OnValues kind) (ShardedStore.perform operation) := by
  apply perform
  · intro key old new _ rewrites
    cases operation <;> first | exact absurd rewrites not_false | exact absurd only nofun
  · intro key new creates
    cases operation <;> first | exact absurd creates not_false | exact absurd only nofun
  · intro map _ key new replaces
    cases operation <;> first | exact absurd replaces not_false | exact absurd only nofun

end Ensures

/-- An operation whose closures keep the shape of what they find and make filled values. -/
structure Gentle {α : Type} (operation : Operation α) : Prop where
  rewrites : ∀ key old new, operation.Rewrites key old new → Shapely old new
  creates : ∀ key new, operation.Creates key new → Filled new
  replaces : ∀ map key new, ¬ operation.Replaces map key new

/-- What is under a key after a program has the family of what was alive there all along. -/
def KeepsFamily {α : Type} (program : StoreM α) : Prop :=
  ∀ store : ShardedStore, ∀ time, store.engine.clock.Upto (program store).2.engine.clock time →
    ∀ key old, store.engine.lookup key = some old → old.expired time = false →
      ∀ new, (program store).2.engine.lookup key = some new → family new.value = family old.value

/-- A program that keeps values filled and families as they are. -/
structure Tame {α : Type} (program : StoreM α) : Prop where
  onward : Onward program
  filled : Preserves (OnValues fun _ => Filled) program
  family : KeepsFamily program

namespace Tame

variable {α β : Type}

/-- A program that keeps every property keeps these. -/
theorem reads {program : StoreM α} (preserves : ∀ kind, Preserves (OnValues kind) program) : Tame program := by
  refine ⟨(preserves (fun _ _ => True)).onward, preserves _, ?_⟩
  intro store time _ key old held _ new later
  have before : store.All (OnValues fun other value => other = key → Store.family value = Store.family old.value) := by
    intro other entry present same
    rw [same, held, Option.some.injEq] at present
    rw [present]
  exact (preserves _ store before).all key new later rfl

theorem pure (value : α) : Tame (pure value : StoreM α) := reads (fun _ => Ensures.pure trivial)

theorem after {first : StoreM α} {rest : α → StoreM β} (idle : Idle first) (tame : ∀ value, Tame (rest value)) :
    Tame (first >>= rest) := by
  refine ⟨fun store => (idle store).1.trans ((tame _).onward _),
    (Ensures.idle idle).bind (fun value _ => (tame value).filled), ?_⟩
  intro store time upto key old held live new later
  obtain ⟨leads, same⟩ := idle store
  exact (tame _).family (first store).2 time (upto.rest leads) key old (same ▸ held) live new later

/-- A case distinction that ends in every case. -/
theorem conclude {program : StoreM α} (tame : Tame program) {next : α → StoreM β}
    (ends : ∀ value, ∃ answer, next value = Pure.pure answer) : Tame (program >>= next) := by
  choose answer same using ends
  rw [show next = fun value => Pure.pure (answer value) from funext same]
  exact ⟨tame.onward, tame.filled.map answer, tame.family⟩

theorem map {program : StoreM α} (tame : Tame program) (answer : α → β) :
    Tame (program >>= fun value => Pure.pure (answer value)) := tame.conclude (fun value => ⟨answer value, rfl⟩)

variable [Platform]

theorem perform {operation : Operation α} (gentle : Gentle operation) : Tame (ShardedStore.perform operation) := by
  refine ⟨fun store => store.engine.run_leads operation, ?_, ?_⟩
  · apply Ensures.perform
    · exact fun key old new filled rewrites => (gentle.rewrites key old new rewrites).filled filled
    · exact gentle.creates
    · exact fun map _ key new replaces => absurd replaces (gentle.replaces map key new)
  · intro store time upto key old held live new later
    cases OnyxEngine.run_origin store.engine operation later with
    | kept entry present same =>
        rw [held, Option.some.injEq] at present
        rw [same, present]
    | rewritten entry present made =>
        rw [held, Option.some.injEq] at present
        rw [(gentle.rewrites _ _ _ made).family, present]
    | created reading shows absent _ =>
        have fresh := fresh_live live (upto reading shows)
        rw [held, fresh] at absent
        exact absurd absent (Option.some_ne_none old)
    | replaced put => exact absurd put (gentle.replaces _ key _)

end Tame

end OnyxDB.Store
