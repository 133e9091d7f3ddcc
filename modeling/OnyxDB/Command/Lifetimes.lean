import OnyxDB.Command.ValueShape
import OnyxDB.Engine.ReadingCount

/-! Which commands date a key that was not there: `SET` with a lifetime among its options, and `RENAME` and `COPY` of
an entry that has one. `EXPIRE` and `EXPIREAT` leave such a key alone, and nothing else knows of an expiry. -/

namespace OnyxDB.Command
open OnyxDB.Engine OnyxDB.Engine.Value OnyxDB.Store OnyxDB.Store.ShardedStore OnyxDB.Protocol

/-- A program that leaves undated slots undated. -/
def Timeless {α : Type} (program : StoreM α) : Prop :=
  ∀ store : ShardedStore, store.engine.clock.Nondecreasing →
    store.engine.clock.Leads (program store).2.engine.clock ∧
      ∀ key, Undated (store.engine.lookup key) → Undated ((program store).2.engine.lookup key)

/-- A program that leaves a key that was not there without an expiry. -/
def Lasting {α : Type} (program : StoreM α) : Prop :=
  ∀ store : ShardedStore, store.engine.clock.Nondecreasing →
    ∀ key, store.engine.lookup key = none → Undated ((program store).2.engine.lookup key)

namespace Timeless
variable {α β : Type}

theorem pure (value : α) : Timeless (pure value : StoreM α) :=
  fun _ _ => ⟨Clock.Leads.refl _, fun _ undated => undated⟩

theorem bind {program : StoreM α} {next : α → StoreM β} (first : Timeless program)
    (rest : ∀ value, Timeless (next value)) : Timeless (program >>= next) := by
  intro store steady
  obtain ⟨leads, keeps⟩ := first store steady
  obtain ⟨further, remains⟩ := rest _ _ (leads.nondecreasing steady)
  exact ⟨leads.trans further, fun key undated => remains key (keeps key undated)⟩

theorem map {program : StoreM α} (timeless : Timeless program) (answer : α → β) :
    Timeless (program >>= fun value => Pure.pure (answer value)) := timeless.bind (fun _ => pure _)

theorem idle {program : StoreM α} (idle : Idle program) : Timeless program := by
  intro store _
  obtain ⟨leads, same⟩ := idle store
  refine ⟨leads, ?_⟩
  intro key undated
  rwa [same]

theorem perform [Platform] {operation : Operation α} (timeless : operation.Timeless) :
    Timeless (ShardedStore.perform operation) :=
  fun store steady => ⟨store.engine.run_leads operation, fun _ undated => OnyxEngine.run_undated steady timeless undated⟩

theorem lasting {program : StoreM α} (timeless : Timeless program) : Lasting program := by
  intro store steady key missing
  apply (timeless store steady).2 key
  rw [missing]
  exact Undated.none

end Timeless

section Operations
variable {α : Type} {key : Bytes}

end Operations

section Forms
variable [Platform]

end Forms

section Options

/-- When an entry expires: so many seconds after a reading of the clock, or at a moment. -/
inductive Expiry where
  | after (reading seconds : Nat)
  | on (moment : Nat)
  deriving DecidableEq, Repr

/-- What the option words of `SET` say, and how many readings of the clock they take. -/
structure SetWords where
  expiry : Option Expiry := none
  readings : Nat := 0
  condition : Option Bool := none
  deriving DecidableEq, Repr

/-- The moment an entry expires when the option words are read from a clock. -/
def Expiry.moment (clock : Clock) : Expiry → Nat
  | .after reading seconds => u64SaturatingAdd (clock.seconds reading) seconds
  | .on moment => moment

/-- The options that the words come to. -/
def SetWords.options (clock : Clock) (words : SetWords) : SetOptions :=
  ⟨words.expiry.map (Expiry.moment clock), words.condition⟩

/-- The option loop has read the words, and the clock for each lifetime among them. -/
structure ReadsWords (base : Clock) (read : Option SetWords) (store : ShardedStore)
    (outcome : Option SetOptions × ShardedStore) : Prop where
  options : outcome.1 = read.map (SetWords.options base)
  lookup : outcome.2.engine.lookup = store.engine.lookup
  takes : ∀ words, read = some words → base.Takes words.readings outcome.2.engine.clock

variable {base : Clock} {words : SetWords} {store : ShardedStore}

theorem ReadsWords.refused : ReadsWords base none store (none, store) := ⟨rfl, rfl, nofun⟩

theorem ReadsWords.done (taken : base.Takes words.readings store.engine.clock) :
    ReadsWords base (some words) store (some (words.options base), store) :=
  ⟨rfl, rfl, fun _ same => Option.some.inj same ▸ taken⟩

/-- A lifetime reads the clock once, and the words after it are read from there. -/
theorem ReadsWords.ticked {read : Option SetWords} {seconds : Nat} {next : Nat → StoreM (Option SetOptions)}
    (reads : ReadsWords base read { store with engine := { store.engine with clock := store.engine.clock.tick } }
      (next seconds { store with engine := { store.engine with clock := store.engine.clock.tick } }))
    (now : store.engine.clock.now = seconds) : ReadsWords base read store ((ShardedStore.now >>= next) store) := by
  subst now
  exact ⟨reads.options, reads.lookup, reads.takes⟩

variable [Platform] {args : List String}

end Options

end OnyxDB.Command
