import OnyxDB.Command.Lifetimes
import OnyxDB.Coordinator.SecondDerivation

/-! Which commands the second derivation can fail, told from the arguments, the store before the command and the
readings of the clock: those that give a key that was not there an expiry which the clock reaches between the two
derivations. -/

namespace OnyxDB.Coordinator
open OnyxDB.Library OnyxDB.Engine OnyxDB.Engine.Value OnyxDB.Store OnyxDB.Protocol OnyxDB.Command
  OnyxDB.Persistence.Model OnyxDB.Persistence.Commit

section Counting

/-- The readings it takes to count the keys, where a mutation may bring this one, and to measure the memory. -/
def countingReadings (store : ShardedStore) (key : Bytes) : Nat :=
  (if keyLimitRequiresExactCount (store.engine.totalKeys - (if (store.engine.lookup key).isSome then 1 else 0)) 1
    then numShards else 0) + (if store.maxmemoryBytes > 0 then numShards else 0)

/-- No memory limit is set, and one more key is within the limit on keys. -/
structure Roomy (store : ShardedStore) : Prop where
  unlimited : store.maxmemoryBytes = 0
  few : store.engine.totalKeys < maxKeys

theorem Roomy.countingReadings {store : ShardedStore} (roomy : Roomy store) (key : Bytes) :
    countingReadings store key = 0 := by
  have few := roomy.few
  have exact : keyLimitRequiresExactCount
      (store.engine.totalKeys - (if (store.engine.lookup key).isSome then 1 else 0)) 1 = false := by
    unfold keyLimitRequiresExactCount
    rw [decide_eq_false_iff_not]
    split <;> omega
  rw [Coordinator.countingReadings, exact, roomy.unlimited]
  rfl

end Counting

section Derivations
variable [Platform]

section Beginning

theorem peekAll_noted {keys : List Bytes} {key : Bytes} (outside : key ∉ keys) (images : Images)
    (store : ShardedStore) :
    (ShardedStore.peekAll keys images store).1.lookup key = images.lookup key := by
  induction keys generalizing images store with
  | nil => rfl
  | cons first keys rest =>
      rw [List.mem_cons, not_or] at outside
      exact (rest outside.2 _ _).trans (AList.lookup_insert_ne outside.1)

/-- What the looks at some keys note and leave, and how many readings they take. -/
theorem peekAll_looks {keys : List Bytes} (distinct : keys.Nodup) (images : Images) (store : ShardedStore) :
    store.engine.clock.Takes keys.length (ShardedStore.peekAll keys images store).2.engine.clock ∧
      ∀ key ∈ keys,
        (ShardedStore.peekAll keys images store).1.lookup key =
            some (fresh (lookAt keys store key) (store.engine.lookup key)) ∧
          (ShardedStore.peekAll keys images store).2.engine.lookup key =
            fresh (lookAt keys store key) (store.engine.lookup key) := by
  induction keys generalizing images store with
  | nil => exact ⟨Clock.Takes.none _, nofun⟩
  | cons first keys rest =>
      obtain ⟨new, distinct⟩ := List.nodup_cons.mp distinct
      have ticked : (store.peekEntry first).2.engine.clock = store.engine.clock.tick := store.engine.peek_clock first
      obtain ⟨takes, looks⟩ := rest distinct (images.insert first (store.peekEntry first).1) (store.peekEntry first).2
      constructor
      · rw [ticked] at takes
        rw [List.length_cons, Nat.add_comm]
        exact store.engine.clock.takes_tick.append takes
      · intro key inside
        by_cases here : key = first
        · subst here
          have looked : lookAt (key :: keys) store key = store.engine.clock.now := by
            rw [lookAt, List.idxOf_cons_self]
            rfl
          rw [looked]
          constructor
          · have kept := peekAll_noted new (images.insert key (store.peekEntry key).1) (store.peekEntry key).2
            rw [AList.lookup_insert] at kept
            exact kept.trans (congrArg some (store.engine.peek_fst key))
          · exact (peekAll_other keys _ _ new).trans (store.engine.peek_sets key).slot
        · have member := (List.mem_cons.mp inside).resolve_left here
          have reading : lookAt keys (store.peekEntry first).2 key = lookAt (first :: keys) store key := by
            rw [lookAt, lookAt, ticked, List.idxOf_cons_ne _ (Ne.symm here)]
            rfl
          have slot : (store.peekEntry first).2.engine.lookup key = store.engine.lookup key :=
            (store.engine.peek_sets first).other here
          have looks := looks key member
          rwa [reading, slot] at looks

/-- The readings a mutation takes to begin, after it has looked at its keys. -/
theorem beginMutation_takes (keys : List Bytes) (store : ShardedStore) {exactly : Bool}
    (counts : keyLimitRequiresExactCount (ShardedStore.peekAll keys ∅ store).2.engine.totalKeys
      ((ShardedStore.peekAll keys ∅ store).1.entries.countP (fun image => image.2.isNone)) = exactly) :
    (ShardedStore.peekAll keys ∅ store).2.engine.clock.Takes
        ((if exactly then numShards else 0) + (if store.maxmemoryBytes > 0 then numShards else 0))
        (store.beginMutation keys).2.engine.clock ∧
      (store.beginMutation keys).1.keyCountBefore.isSome = exactly := by
  have limit := (peekAll_confines keys ∅ store).maxmemoryBytes
  unfold ShardedStore.beginMutation
  cases looking : ShardedStore.peekAll keys ∅ store with
  | mk images middle =>
      rw [looking] at limit counts
      change keyLimitRequiresExactCount middle.engine.physicalKeyCount _ = exactly at counts
      simp only at limit ⊢
      rw [counts, ← limit]
      have counted := middle.engine.stats_takes
      have measured := middle.engine.totalMemoryBytes_takes
      have both := counted.append middle.engine.stats.2.totalMemoryBytes_takes
      cases exactly with
      | true =>
          by_cases limited : middle.maxmemoryBytes > 0
          · have same : decide (middle.stats.2.maxmemoryBytes > 0) = true := decide_eq_true limited
            simp only [same, if_true, if_pos limited]
            exact ⟨both, rfl⟩
          · have same : decide (middle.stats.2.maxmemoryBytes > 0) = false := decide_eq_false limited
            simp only [same, if_true, if_neg limited]
            exact ⟨counted, rfl⟩
      | false =>
          by_cases limited : middle.maxmemoryBytes > 0
          · have same : decide (middle.maxmemoryBytes > 0) = true := decide_eq_true limited
            simp only [same, Bool.false_eq_true, if_false, if_pos limited, Nat.zero_add]
            exact ⟨measured, rfl⟩
          · have same : decide (middle.maxmemoryBytes > 0) = false := decide_eq_false limited
            simp only [same, Bool.false_eq_true, if_false, if_neg limited]
            exact ⟨Clock.Takes.none _, rfl⟩

/-- What a mutation that has begun notes of a key and holds under it. -/
theorem beginMutation_looks {keys : List Bytes} (distinct : keys.Nodup) (store : ShardedStore) {key : Bytes}
    (inside : key ∈ keys) :
    imageShown (store.beginMutation keys).1.beforeEntries key = seen keys store key ∧
      ∀ entry, (store.beginMutation keys).2.engine.lookup key = some entry →
        fresh (lookAt keys store key) (store.engine.lookup key) = some entry := by
  have looks := (peekAll_looks distinct ∅ store).2 key inside
  constructor
  · rw [imageShown, (beginMutation_images store keys).1, looks.1]
    rfl
  · intro entry held
    have begins := (beginMutation_measures keys store).sheds
    exact looks.2.symm.trans (begins key entry held)

/-- The readings a mutation takes to begin, where it finds one key absent. -/
theorem beginMutation_sole {keys : List Bytes} (distinct : keys.Nodup) {store : ShardedStore} {key : Bytes}
    (total : (ShardedStore.peekAll keys ∅ store).2.engine.totalKeys =
      store.engine.totalKeys - (if (store.engine.lookup key).isSome then 1 else 0))
    (sole : (ShardedStore.peekAll keys ∅ store).1.entries.countP (fun image => image.2.isNone) = 1) :
    store.engine.clock.Takes (keys.length + countingReadings store key) (store.beginMutation keys).2.engine.clock ∧
      (if (store.beginMutation keys).1.keyCountBefore.isSome then numShards else 0) +
        (if store.maxmemoryBytes > 0 then numShards else 0) = countingReadings store key := by
  have counts : keyLimitRequiresExactCount (ShardedStore.peekAll keys ∅ store).2.engine.totalKeys
      ((ShardedStore.peekAll keys ∅ store).1.entries.countP (fun image => image.2.isNone)) =
      keyLimitRequiresExactCount (store.engine.totalKeys - (if (store.engine.lookup key).isSome then 1 else 0)) 1 := by
    rw [total, sole]
  obtain ⟨takes, counted⟩ := beginMutation_takes keys store counts
  rw [counted]
  exact ⟨(peekAll_looks distinct ∅ store).1.append takes, rfl⟩

omit [Platform] in
/-- A key that is not seen has no entry, or one that has expired. -/
theorem gone_expired {store : ShardedStore} {time : Nat} {key : Bytes} (gone : store.view time key = none) :
    (store.engine.lookup key).any (fun entry => entry.expired time) = (store.engine.lookup key).isSome := by
  cases held : store.engine.lookup key with
  | none => rfl
  | some entry =>
      cases past : entry.expired time with
      | true => simp [past]
      | false =>
          have alive := (store.engine.view_isSome_iff time key).mpr ⟨entry, held, past⟩
          have none : store.engine.view time key = none := gone
          rw [none] at alive
          cases alive

theorem beginMutation_pair {store : ShardedStore} {source target : Bytes} (differ : source ≠ target) {held : DataEntry}
    (alive : fresh store.engine.clock.now (store.engine.lookup source) = some held)
    (absent : store.view (store.engine.clock.seconds 1) target = none) :
    store.engine.clock.Takes (2 + countingReadings store target) (store.beginMutation [source, target]).2.engine.clock ∧
      (if (store.beginMutation [source, target]).1.keyCountBefore.isSome then numShards else 0) +
        (if store.maxmemoryBytes > 0 then numShards else 0) = countingReadings store target := by
  have first : (store.peekEntry source).1 = some held := (store.engine.peek_fst source).trans alive
  have slot : (store.peekEntry source).2.engine.lookup target = store.engine.lookup target :=
    (store.engine.peek_sets source).other differ.symm
  have later : (store.peekEntry source).2.engine.clock.now = store.engine.clock.seconds 1 := by
    rw [show (store.peekEntry source).2.engine.clock = store.engine.clock.tick from store.engine.peek_clock source]
    rfl
  have gone : (store.peekEntry source).2.view (store.peekEntry source).2.engine.clock.now target = none := by
    rw [later, ← absent]
    exact congrArg (shown _) slot
  apply beginMutation_sole (by simpa using differ)
  · have kept : (store.peekEntry source).2.engine.totalKeys = store.engine.totalKeys := by
      have total := store.engine.peek_totalKeys source
      obtain ⟨present, live⟩ := Expiring.live_eq_some alive
      rw [present, Option.any_some, live] at total
      exact total
    have total := (store.peekEntry source).2.engine.peek_totalKeys target
    rw [gone_expired gone, slot, kept] at total
    exact total
  · have image : ((store.peekEntry source).2.peekEntry target).1 = none := by
      rw [← Option.map_eq_none_iff, peekEntry_shown]
      exact gone
    change (AList.insert target ((store.peekEntry source).2.peekEntry target).1
      (AList.insert source (store.peekEntry source).1 (∅ : Images))).entries.countP (fun image => image.2.isNone) = 1
    rw [image, first, AList.entries_insert_of_notMem]
    · rfl
    · rw [AList.mem_insert, not_or]
      exact ⟨differ.symm, AList.notMem_empty target⟩

end Beginning

section Admitting

end Admitting

section Lapsing

omit [Platform] in
/-- A key lapses when its entry expires after the first look at it and not after the second one. -/
theorem lapses_iff {keys : List Bytes} {executed settled : ShardedStore} {key : Bytes} {entry : DataEntry}
    (held : executed.engine.lookup key = some entry) :
    Lapses keys executed settled key ↔ ∃ moment, entry.expiresAt = some moment ∧
      lookAt keys executed key < moment ∧ moment ≤ lookAt keys settled key := by
  have looks (time : Nat) : (executed.view time key).isSome ↔ entry.expired time = false := by
    rw [show (executed.view time key).isSome ↔ _ from executed.engine.view_isSome_iff time key]
    simp only [held, Option.some.injEq, exists_eq_left']
  rw [Lapses, seen, looks, ← Option.not_isSome_iff_eq_none, looks]
  unfold DataEntry.expired expiryPassed
  cases entry.expiresAt with
  | none => simp
  | some moment => simp

end Lapsing

variable [Process]

section Failing
variable {arguments : List String} {store : ShardedStore}

/-- A command that writes is not `INFO`. -/
theorem executedCommand_form (write : isWriteCommand (argument arguments 0) = true) :
    (executedCommand arguments store).2 = ((commandForm arguments).getD unknownCommand
      (store.beginMutation (affectedKeys arguments)).2).2 := by
  have other : arguments.head? ≠ some "INFO" := by
    intro info
    cases arguments with
    | nil => cases info
    | cons name rest =>
        rw [List.head?_cons, Option.some.injEq] at info
        subst info
        cases write
  unfold executedCommand executeServerCommand
  rw [if_neg other]
  rfl

omit [Platform] [Process] in
theorem affectedKeys_nodup (arguments : List String) : (affectedKeys arguments).Nodup := eraseDups_nodup _

omit [Process] in
/-- A key that a mutation found absent when it began has no entry then. -/
theorem beginMutation_missing {key : Bytes} (inside : key ∈ affectedKeys arguments)
    (absent : seen (affectedKeys arguments) store key = none) :
    (store.beginMutation (affectedKeys arguments)).2.engine.lookup key = none := by
  have looks := (beginMutation_looks (affectedKeys_nodup arguments) store inside).2
  cases held : (store.beginMutation (affectedKeys arguments)).2.engine.lookup key with
  | none => rfl
  | some entry =>
      have none : (fresh (lookAt (affectedKeys arguments) store key) (store.engine.lookup key)).map
          PersistentEntry.ofDataEntry = Option.none := absent
      rw [looks entry held] at none
      cases none

/-- What a command that is forgotten has left under one of its keys. -/
structure Outlived (arguments : List String) (store : ShardedStore) (settled : ShardedStore) (key : Bytes)
    (entry : DataEntry) (moment : Nat) : Prop where
  inside : key ∈ affectedKeys arguments
  absent : seen (affectedKeys arguments) store key = none
  missing : (store.beginMutation (affectedKeys arguments)).2.engine.lookup key = none
  held : (executedCommand arguments store).2.engine.lookup key = some entry
  dated : entry.expiresAt = some moment
  early : lookAt (affectedKeys arguments) (executedCommand arguments store).2 key < moment
  late : moment ≤ lookAt (affectedKeys arguments) settled key

theorem Forgotten.outlived {settled : ShardedStore} (forgotten : Forgotten (affectedKeys arguments)
      (executedCommand arguments store).1.beforeEntries (executedCommand arguments store).2 settled) :
    ∃ key entry moment, Outlived arguments store settled key entry moment := by
  obtain ⟨key, inside, differs⟩ := forgotten.changed
  obtain ⟨absent, lapses⟩ := forgotten.fleeting key inside differs
  have image := (beginMutation_looks (affectedKeys_nodup arguments) store inside).1
  have gone : seen (affectedKeys arguments) store key = none := image.symm.trans absent
  have missing := beginMutation_missing inside gone
  obtain ⟨shown, here⟩ := Option.isSome_iff_exists.mp lapses.1
  obtain ⟨entry, alive, _⟩ := Option.map_eq_some_iff.mp here
  have held := (Expiring.live_eq_some alive).1
  obtain ⟨moment, dated, early, late⟩ := (lapses_iff held).mp lapses
  exact ⟨key, entry, moment, inside, gone, missing, held, dated, early, late⟩

/-- A command with too few words leaves nothing. -/
theorem Outlived.enough {settled : ShardedStore} {key : Bytes} {entry : DataEntry} {moment : Nat}
    (outlived : Outlived arguments store settled key entry moment)
    (write : isWriteCommand (argument arguments 0) = true) {words : Nat} {form : Form}
    (shaped : commandForm arguments = arity words arguments form) : words ≤ arguments.length := by
  by_contra few
  have held := outlived.held
  rw [executedCommand_form write, shaped, arity, if_neg few] at held
  have same := outlived.missing.symm.trans held
  cases same

section Sets

end Sets

section Copies

omit [Platform] [Process] in
theorem affectedKeys_copy (name : argument arguments 0 = "COPY") (long : 3 ≤ arguments.length)
    (differ : utf8Bytes (argument arguments 1) ≠ utf8Bytes (argument arguments 2)) :
    affectedKeys arguments = [utf8Bytes (argument arguments 1), utf8Bytes (argument arguments 2)] := by
  match arguments, name, long, differ with
  | _ :: source :: target :: rest, name, _, differ =>
      unfold affectedKeys affectedArguments
      rw [name]
      change [utf8Bytes source, utf8Bytes target].eraseDups = _
      rw [List.eraseDups_cons]
      have other : (utf8Bytes target == utf8Bytes source) = false := beq_false_of_ne differ.symm
      simp only [List.filter_cons, other, Bool.not_false, if_true, List.filter_nil]
      rfl

theorem executed_copy (name : argument arguments 0 = "COPY") (long : 3 ≤ arguments.length) :
    (executedCommand arguments store).2.engine =
      ((store.beginMutation (affectedKeys arguments)).2.engine.copy (utf8Bytes (argument arguments 1))
        (utf8Bytes (argument arguments 2))).2 := by
  rw [executedCommand_form (by rw [name]; rfl)]
  unfold commandForm arity
  simp only [name, if_pos long]
  rfl

/-- A `COPY` that begins with its source alive and its target absent. -/
structure Copied (arguments : List String) (store : ShardedStore) (held : DataEntry) : Prop where
  keys : affectedKeys arguments = [utf8Bytes (argument arguments 1), utf8Bytes (argument arguments 2)]
  alive : fresh store.engine.clock.now (store.engine.lookup (utf8Bytes (argument arguments 1))) = some held
  absent : store.view (store.engine.clock.seconds 1) (utf8Bytes (argument arguments 2)) = none
  counted : (if (store.beginMutation (affectedKeys arguments)).1.keyCountBefore.isSome then numShards else 0) +
    (if store.maxmemoryBytes > 0 then numShards else 0) = countingReadings store (utf8Bytes (argument arguments 2))
  takes : store.engine.clock.Takes (4 + countingReadings store (utf8Bytes (argument arguments 2)))
    (executedCommand arguments store).2.engine.clock
  puts : ∃ created, (executedCommand arguments store).2.engine.lookup =
    Function.update (store.beginMutation (affectedKeys arguments)).2.engine.lookup (utf8Bytes (argument arguments 2))
      (some ⟨held.value, held.expiresAt, created, created⟩)
  source : (executedCommand arguments store).2.engine.lookup (utf8Bytes (argument arguments 1)) = some held

theorem copied (name : argument arguments 0 = "COPY") (long : 3 ≤ arguments.length)
    (differ : utf8Bytes (argument arguments 1) ≠ utf8Bytes (argument arguments 2)) {held : DataEntry}
    (alive : fresh store.engine.clock.now (store.engine.lookup (utf8Bytes (argument arguments 1))) = some held)
    (absent : store.view (store.engine.clock.seconds 1) (utf8Bytes (argument arguments 2)) = none)
    (present : fresh (store.beginMutation (affectedKeys arguments)).2.engine.clock.now
      ((store.beginMutation (affectedKeys arguments)).2.engine.lookup (utf8Bytes (argument arguments 1))) =
        some held) : Copied arguments store held := by
  have keys := affectedKeys_copy name long differ
  obtain ⟨starts, counted⟩ := beginMutation_pair differ alive absent
  rw [← keys] at starts counted
  obtain ⟨puts, writes⟩ := OnyxEngine.copy_puts present differ
  rw [← executed_copy name long] at puts writes
  refine ⟨keys, alive, absent, counted, ?_, ⟨_, puts⟩, ?_⟩
  · have both := starts.append writes
    rwa [Nat.add_right_comm] at both
  · rw [puts, Function.update_of_ne differ]
    exact OnyxEngine.fresh_held present

namespace Copied
variable {held : DataEntry}

/-- The readings at which a derivation looks at source and target, after some more readings. -/
theorem looks (copied : Copied arguments store held)
    (differ : utf8Bytes (argument arguments 1) ≠ utf8Bytes (argument arguments 2)) {later : ShardedStore} {more : Nat}
    (takes : (executedCommand arguments store).2.engine.clock.Takes more later.engine.clock) :
    lookAt (affectedKeys arguments) later (utf8Bytes (argument arguments 1)) =
        store.engine.clock.seconds (4 + countingReadings store (utf8Bytes (argument arguments 2)) + more) ∧
      lookAt (affectedKeys arguments) later (utf8Bytes (argument arguments 2)) =
        store.engine.clock.seconds (5 + countingReadings store (utf8Bytes (argument arguments 2)) + more) := by
  have reading := (copied.takes.append takes).reading
  constructor
  · rw [lookAt, copied.keys, List.idxOf_cons_self, reading, Nat.zero_add]
  · rw [lookAt, copied.keys, List.idxOf_cons_ne _ differ, List.idxOf_cons_self, reading]
    congr 1
    omega

end Copied

end Copies

end Failing

end Derivations

section Ticking

end Ticking

end OnyxDB.Coordinator
