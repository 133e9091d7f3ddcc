import OnyxDB.Coordinator.Transparency
import OnyxDB.Coordinator.Invariance
import OnyxDB.Server.ObpCommand

/-! Well-formed values over whole runs of the server: no stored collection is empty, and a key that stays alive
through one operation keeps the family of its value, unless the operation is one that overwrites. -/

namespace OnyxDB.Server
open OnyxDB.Library OnyxDB.Engine OnyxDB.Engine.Value OnyxDB.Store OnyxDB.Protocol OnyxDB.Command OnyxDB.Coordinator
  OnyxDB.Persistence.Model OnyxDB.Persistence.Commit

theorem holds_true (undo : MutationRollback) : Holds (fun _ _ => True) undo :=
  ⟨fun _ _ _ => trivial, fun _ _ => trivial⟩

/-- The values of one key are of one family. -/
def OfFamily (key : Bytes) (kind : TypeFamily) (other : Bytes) (entry : DataEntry) : Prop :=
  other = key → family entry.value = kind

/-- A program keeps the family of what is alive under a key, in the store and in what its result would undo. -/
def Guards {α : Type} (program : StoreM α) (result : (Bytes → DataEntry → Prop) → α → Prop) : Prop :=
  ∀ store : ShardedStore, ∀ time, store.engine.clock.Upto (program store).2.engine.clock time →
    ∀ key old, store.engine.lookup key = some old → old.expired time = false →
      (program store).2.All (OfFamily key (family old.value)) ∧
        result (OfFamily key (family old.value)) (program store).1

section Guards

variable {α β : Type} {middle : (Bytes → DataEntry → Prop) → α → Prop} {result : (Bytes → DataEntry → Prop) → β → Prop}

theorem Guards.bind {program : StoreM α} {next : α → StoreM β} (guards : Guards program middle)
    (always : ∀ value, middle (fun _ _ => True) value)
    (ensures : ∀ property value, middle property value → Ensures property (next value) (result property)) :
    Guards (program >>= next) result := by
  intro store time upto key old held live
  have onward := (ensures _ _ (always (program store).1)).onward
  have first := guards store time (upto.start (onward _)) key old held live
  have later := ensures _ _ first.2 _ first.1
  exact ⟨later.all, later.result⟩

theorem Guards.keepsFamily {program : StoreM α} (guards : Guards program middle) : KeepsFamily program :=
  fun store time upto key old held live new later => (guards store time upto key old held live).1 key new later rfl

theorem holds_ofFamily {store : ShardedStore} {key : Bytes} {old : DataEntry} (held : store.engine.lookup key = some old) :
    store.All (OfFamily key (family old.value)) := by
  intro other entry present same
  rw [same, held, Option.some.injEq] at present
  rw [present]

/-- What is alive throughout stays where it is when no slot is written. -/
theorem ages_keeps {store : ShardedStore} {engine : OnyxEngine} (ages : store.engine.Ages engine) {time : Nat}
    (upto : store.engine.clock.Upto engine.clock time) {key : Bytes} {old : DataEntry}
    (held : store.engine.lookup key = some old) (live : old.expired time = false) : engine.lookup key = some old := by
  rcases ages.aged key List.not_mem_nil with same | ⟨reading, shows, purged⟩
  · rw [same, held]
  · rw [purged, held]
    exact fresh_live live (upto reading shows)

variable [Platform]

/-- A mutation whose program keeps families, with whatever is decided about it afterwards. -/
theorem Guards.begun {program : StoreM α} (tame : Tame program) (keys : List Bytes)
    {settle : MutationAttempt → α → StoreM β}
    (settles : ∀ property attempt answer, Holds property attempt.intoRollback →
      Ensures property (settle attempt answer) (result property)) :
    Guards (do
      let attempt ← beginMutation keys
      let answer ← program
      settle attempt answer) result := by
  intro store time upto key old held live
  have looked := beginMutation_ages keys store
  have begun := beginMutation_ensures keys store (holds_ofFamily held)
  have ran := tame.onward (beginMutation keys store).2
  have settled := (settles _ (beginMutation keys store).1 (program (beginMutation keys store).2).1
    (holds_true _)).onward (program (beginMutation keys store).2).2
  have kept := ages_keeps looked (upto.start (ran.trans settled)) held live
  have after : (program (beginMutation keys store).2).2.All (OfFamily key (family old.value)) := by
    intro other new present same
    rw [same] at present
    exact tame.family _ time ((upto.rest looked.leads).start settled) key old kept live new present
  have ends := settles _ (beginMutation keys store).1 (program (beginMutation keys store).2).1 begun.result _ after
  exact ⟨ends.all, ends.result⟩

end Guards

section Commands
variable [Platform] [Process]

/-- `INFO` only measures the store. -/
theorem infoResponse_preserves (property : Bytes → DataEntry → Prop) : Preserves property infoResponse := by
  apply (Ensures.idle Idle.now).bind
  intro time _
  have stats : Preserves property (fun store => store.stats : StoreM OnyxEngine.EngineStats) :=
    Ensures.ages (fun store => store.engine.stats_ages)
  apply stats.bind
  intro counted _
  have measures : Preserves property (fun store => store.usedMemoryBytes : StoreM Nat) :=
    Ensures.ages (fun store => store.engine.totalMemoryBytes_ages)
  apply measures.bind
  intro used _
  exact fun store all => ⟨Clock.Leads.refl _, all, trivial⟩

theorem executeServerCommand_filled (arguments : List String) :
    Preserves (OnValues fun _ => Filled) (executeServerCommand arguments) := by
  unfold executeServerCommand
  split
  · exact (infoResponse_preserves _).map _
  · exact executeCommand_filled arguments

theorem executeServerCommand_tame {arguments : List String} (gentle : ¬ overwrites (argument arguments 0)) :
    Tame (executeServerCommand arguments) := by
  unfold executeServerCommand
  split
  · exact Tame.map (Tame.reads (fun kind => infoResponse_preserves _)) _
  · exact executeCommand_tame gentle

theorem prepareCommandOperation_guards {arguments : List String} (gentle : ¬ overwrites (argument arguments 0)) :
    Guards (prepareCommandOperation arguments) Carries := by
  rw [prepareCommandOperation_eq]
  simp only [undertake, bind_assoc, pure_bind]
  apply Guards.begun (executeServerCommand_tame gentle) (affectedKeys arguments)
  intro property attempt outcome holds
  exact (weigh_ensures holds _).bind (fun _ weighed =>
    (concludeCommand_ensures _ _ weighed).weaken (fun _ concluded => concluded.1))

theorem prepareMember_keepsFamily (baseline : Baseline) {arguments : List String}
    (gentle : ¬ overwrites (argument arguments 0)) : KeepsFamily (prepareMember baseline arguments) := by
  cases writing : isWriteCommand (argument arguments 0) with
  | false =>
      simp only [prepareMember, writing, Bool.not_false, if_true]
      exact ((executeServerCommand_tame gentle).map _).family
  | true =>
      rw [prepareMember_write baseline writing]
      simp only [undertake, bind_assoc, pure_bind]
      apply @Guards.keepsFamily _ (fun _ _ => True)
      apply Guards.begun (executeServerCommand_tame gentle) (affectedKeys arguments)
      intro property attempt outcome holds
      exact (weigh_ensures holds _).bind (fun _ _ => Ensures.pure trivial)

omit [Platform] [Process] in
theorem carries_true (prepared : Except PersistenceError PreparedCommandOperation) :
    Carries (fun _ _ => True) prepared := by
  cases prepared with
  | error error => trivial
  | ok prepared => exact fun undo _ => holds_true undo

theorem prepareCommand_guards {arguments : List String} (gentle : ¬ overwrites (argument arguments 0)) :
    Guards (prepareCommand arguments) Prepared := by
  apply (prepareCommandOperation_guards gentle).bind carries_true
  rintro property (error | ⟨outcome, batch, rollback⟩) carries
  · exact Ensures.pure trivial
  · cases batch with
    | none => exact Ensures.pure (undoes_none _ property)
    | some batch =>
        cases rollback with
        | none => exact Ensures.pure (undoes_none _ property)
        | some undo => exact Ensures.pure (undoes_one _ _ (carries undo rfl))

omit [Process] in
theorem prepareObpDelete_guards (key : Bytes) : Guards (prepareObpDelete key) Undoes := by
  have deletes : Tame (ShardedStore.perform (.delete key)) := Tame.perform gentle_delete
  apply Guards.begun deletes
  rintro property attempt (_ | _) holds
  · exact Ensures.pure (undoes_none _ property)
  · exact Ensures.pure (undoes_one _ _ holds)

end Commands

section Groups
variable [Platform]

/-- Concluding a group reads the clock forward. -/
theorem concludeGroup_leads (append : AppendBatches) (requests : List MasterCommitOperation)
    (prepared : List PreparedMasterCommit) (server : Coordinator.Server) :
    server.store.engine.clock.Leads (concludeGroup append requests prepared server).2.store.engine.clock := by
  have always : ∀ pending ∈ prepared, Undoes (fun _ _ => True) pending := fun _ _ undo _ => holds_true undo
  have undone := (rollbackPrepared_ensures always).onward server.store
  unfold concludeGroup
  simp only
  split
  · exact undone
  · exact Clock.Leads.refl _
  · split
    · exact Clock.Leads.refl _
    · split
      · exact Clock.Leads.refl _
      · exact undone

variable [Process]

theorem prepareAlone_guards {request : MasterCommitOperation} (guards : Guards (prepareRequest request) Prepared) :
    Guards (prepareRequests [request] []) PreparedAll := by
  have none : ∀ property, ∀ pending ∈ ([] : List PreparedMasterCommit), Undoes property pending :=
    fun _ _ member => absurd member List.not_mem_nil
  apply guards.bind
  · rintro (error | pending)
    · trivial
    · exact fun undo _ => holds_true undo
  · rintro property (error | pending) undoes
    · apply (rollbackPrepared_ensures (none property)).bind
      exact fun _ _ => Ensures.pure trivial
    · apply Ensures.pure
      intro other member
      rw [List.nil_append, List.mem_singleton] at member
      rw [member]
      exact undoes

/-- A request that keeps families keeps them as a group of its own, whatever storage answers. -/
theorem alone_keepsFamily {request : MasterCommitOperation} (guards : Guards (prepareRequest request) Prepared)
    (append : AppendBatches) (server : Coordinator.Server) {time : Nat}
    (upto : server.store.engine.clock.Upto (processCommitGroup append [request] server).2.store.engine.clock time)
    {key : Bytes} {old new : DataEntry} (held : server.store.engine.lookup key = some old)
    (live : old.expired time = false)
    (later : (processCommitGroup append [request] server).2.store.engine.lookup key = some new) :
    family new.value = family old.value := by
  unfold processCommitGroup at upto later
  split at later
  · rw [held, Option.some.injEq] at later
    rw [later]
  next available =>
    rw [if_neg available] at upto
    have alone := prepareAlone_guards guards server.store time
    cases ran : prepareRequests [request] [] server.store with
    | mk result store =>
        rw [ran] at alone
        cases result with
        | error error =>
            simp only [ran] at upto later
            exact (alone upto key old held live).1 key new later rfl
        | ok prepared =>
            simp only [ran] at upto later
            have leads := concludeGroup_leads append [request] prepared { server with store := store }
            have kept := alone (upto.start leads) key old held live
            exact concludeGroup_all [request] kept.2 kept.1 key new later rfl

end Groups

/-- One operation of a client: a command its connection executes, a command the coordinator prepares, by itself or
within a transaction, the commit of one request, or an OBP command. -/
inductive ClientOperation where
  | execute (arguments : List String)
  | prepare (arguments : List String)
  | prepareWithin (baseline : Baseline) (arguments : List String)
  | commit (append : AppendBatches) (arguments : List String)
  | obpGet (key : Bytes)
  | obpSet (append : AppendBatches) (key value : Bytes)
  | obpDelete (append : AppendBatches) (key : Bytes)

namespace ClientOperation

/-- `SET`, `MSET`, `RENAME`, `COPY` and the OBP set. -/
def Overwrites : ClientOperation → Prop
  | .execute arguments | .prepare arguments | .prepareWithin _ arguments | .commit _ arguments =>
      overwrites (argument arguments 0)
  | .obpSet _ _ _ => True
  | .obpGet _ | .obpDelete _ _ => False

variable [Platform] [Process]

def run (operation : ClientOperation) (server : Coordinator.Server) : Coordinator.Server :=
  match operation with
  | .execute arguments => { server with store := (executeServerCommand arguments server.store).2 }
  | .prepare arguments => { server with store := (prepareCommandOperation arguments server.store).2 }
  | .prepareWithin baseline arguments => { server with store := (prepareMember baseline arguments server.store).2 }
  | .commit append arguments => (processCommitGroup append [.command arguments] server).2
  | .obpGet key => { server with store := (server.store.getEntry key).2 }
  | .obpSet append key value => (processCommitGroup append [.obpSet key value] server).2
  | .obpDelete append key => (processCommitGroup append [.obpDelete key] server).2

end ClientOperation

variable [Platform] [Process]

/-- The servers that an empty store reaches: requests come in groups that storage may refuse, connections execute
commands and OBP reads themselves, and expired keys are collected. -/
inductive Lives : Coordinator.Server → Prop where
  | start (clock : Clock) (maxmemoryBytes : Nat) (policy : EvictionPolicy) (runtime : CommitRuntime) :
      Lives ⟨.withMaxmemory clock maxmemoryBytes policy, runtime⟩
  | group {server : Coordinator.Server} (lives : Lives server) (append : AppendBatches)
      (requests : List MasterCommitOperation) : Lives (processCommitGroup append requests server).2
  | execute {server : Coordinator.Server} (lives : Lives server) (arguments : List String) :
      Lives { server with store := (executeServerCommand arguments server.store).2 }
  | obpGet {server : Coordinator.Server} (lives : Lives server) (key : Bytes) :
      Lives { server with store := (server.store.getEntry key).2 }
  | collect {server : Coordinator.Server} (lives : Lives server) :
      Lives { server with store := (ShardedStore.perform .gcExpired server.store).2 }

theorem Lives.filled {server : Coordinator.Server} (lives : Lives server) :
    server.store.All (OnValues fun _ => Filled) := by
  induction lives with
  | start clock maxmemoryBytes policy runtime =>
      intro key entry held
      cases held
  | group _ append requests all =>
      exact processCommitGroup_all set_blob_filled append (fun _ _ arguments _ => executeServerCommand_filled arguments) all
  | execute _ arguments all => exact (executeServerCommand_filled arguments _ all).all
  | obpGet _ key all =>
      have reads : Preserves (OnValues fun _ => Filled) (ShardedStore.perform (.get key)) := Ensures.reads rfl
      exact (reads _ all).all
  | collect _ all =>
      have reads : Preserves (OnValues fun _ => Filled) (ShardedStore.perform .gcExpired) := Ensures.reads rfl
      exact (reads _ all).all

/-- An operation that does not overwrite keeps the family of what is alive throughout. -/
theorem run_keepsFamily {operation : ClientOperation} (gentle : ¬ operation.Overwrites) (server : Coordinator.Server)
    {time : Nat} (upto : server.store.engine.clock.Upto (operation.run server).store.engine.clock time) {key : Bytes}
    {old new : DataEntry} (held : server.store.engine.lookup key = some old) (live : old.expired time = false)
    (later : (operation.run server).store.engine.lookup key = some new) : family new.value = family old.value := by
  cases operation with
  | execute arguments =>
      exact (executeServerCommand_tame gentle).family server.store time upto key old held live new later
  | prepare arguments =>
      exact (prepareCommandOperation_guards gentle).keepsFamily server.store time upto key old held live new later
  | prepareWithin baseline arguments =>
      exact prepareMember_keepsFamily baseline gentle server.store time upto key old held live new later
  | commit append arguments =>
      have guards : Guards (prepareRequest (.command arguments)) Prepared := prepareCommand_guards gentle
      exact alone_keepsFamily guards append server upto held live later
  | obpGet key =>
      have tame : Tame (ShardedStore.perform (.get key)) := Tame.reads (fun _ => Ensures.reads rfl)
      exact tame.family server.store time upto _ old held live new later
  | obpSet append key value => exact absurd trivial gentle
  | obpDelete append key =>
      have guards : Guards (prepareRequest (.obpDelete key)) Prepared := by
        apply (prepareObpDelete_guards key).bind
        · exact fun _ undo _ => holds_true undo
        · exact fun _ _ undoes => Ensures.pure undoes
      exact alone_keepsFamily guards append server upto held live later

/-- No server that an empty store reaches stores an empty list, hash or set. Whatever the server, an operation that
does not overwrite leaves a key that is alive up to its last reading of the clock with a value of the same family,
if it leaves it a value. -/
theorem values_well_formed :
    (∀ server, Lives server → ∀ key entry, server.store.engine.lookup key = some entry → Filled entry.value) ∧
      ∀ (operation : ClientOperation) (server : Coordinator.Server), ¬ operation.Overwrites →
        ∀ time, server.store.engine.clock.Upto (operation.run server).store.engine.clock time →
          ∀ key old new, server.store.view time key = some old → (operation.run server).store.view time key = some new →
            family new.value = family old.value := by
  constructor
  · exact fun server lives key entry held => lives.filled key entry held
  · intro operation server gentle time upto key old new before after
    obtain ⟨present, held, rfl⟩ := Option.map_eq_some_iff.mp before
    obtain ⟨later, kept, rfl⟩ := Option.map_eq_some_iff.mp after
    exact run_keepsFamily gentle server upto (OnyxEngine.fresh_held held) (Expiring.live_eq_some held).2
      (OnyxEngine.fresh_held kept)

end OnyxDB.Server

namespace OnyxDB.Server
open OnyxDB.Engine OnyxDB.Engine.Value OnyxDB.Store OnyxDB.Coordinator

/-- Two elements pushed to a list: it is filled after the first push, and still a list after the second. -/
theorem values_well_formed_pushes :
    letI := Reference.platform (fun _ => .error "unsupported")
    letI := startedProcess
    letI pushed := (ClientOperation.execute ["LPUSH", "k", "a"]).run (emptyServer 0)
    pushed.store.view 0 [107] = some ⟨.list [[97]], none⟩ ∧ Filled (.list [[97]]) ∧
      ((ClientOperation.execute ["RPUSH", "k", "b"]).run pushed).store.view 0 [107] = some ⟨.list [[97], [98]], none⟩ ∧
      family (.list [[97], [98]]) = family (.list [[97]]) := by
  let _ := Reference.platform (fun _ => .error "unsupported")
  let _ := startedProcess
  have lives : Lives ((ClientOperation.execute ["LPUSH", "k", "a"]).run (emptyServer 0)) :=
    (Lives.start (.constant 0) 0 .noEviction (emptyServer 0).runtime).execute ["LPUSH", "k", "a"]
  have gentle : ¬ (ClientOperation.execute ["RPUSH", "k", "b"]).Overwrites := by
    rintro (name | name | name | name) <;> exact absurd name (by decide)
  have upto : ∀ clock, (Clock.constant 0).Upto clock 0 := fun _ => Clock.Fixed.upto (fun _ => rfl)
  refine ⟨rfl, values_well_formed.1 _ lives [107] ⟨.list [[97]], none, 0, 0⟩ rfl, rfl, ?_⟩
  exact values_well_formed.2 (.execute ["RPUSH", "k", "b"])
    ((ClientOperation.execute ["LPUSH", "k", "a"]).run (emptyServer 0)) gentle 0 (upto _) [107]
    ⟨.list [[97]], none⟩ ⟨.list [[97], [98]], none⟩ rfl rfl

end OnyxDB.Server
