import OnyxDB.Coordinator.GroupRollback
import OnyxDB.Coordinator.KeyLimitRuns
import OnyxDB.Coordinator.LoggedBatches
import OnyxDB.Engine.ValueSymmetry
import OnyxDB.Library.Retention

/-! What can be seen of a master between two commit groups. Its store shows the acknowledged batches and
nothing else, up to the append with an indeterminate outcome after which the coordinator takes no group. -/

namespace OnyxDB.Coordinator
open OnyxDB.Library OnyxDB.Engine OnyxDB.Engine.Value OnyxDB.Store OnyxDB.Protocol OnyxDB.Command
  OnyxDB.Persistence.Model OnyxDB.Persistence.Commit OnyxDB.Library.Retention

section Contents

theorem Alike.symm {first second : Option PersistentEntry} (alike : Alike first second) : Alike second first := by
  rcases alike with rfl | equal
  · exact .refl _
  · rcases imageBeq_some equal with ⟨rfl, rfl⟩ | ⟨one, other, rfl, rfl, same⟩
    · exact .refl _
    · right
      simp only [imageBeq, entryBeq, Bool.and_eq_true, beq_iff_eq] at same ⊢
      exact ⟨OnyxValue.beq_symm same.1, same.2.symm⟩

/-- At a clock that stands still, the store shows what the batches make of `origin`. -/
structure Reflects (time : Nat) (origin : Bytes → Option PersistentEntry) (batches : List CommittedBatch)
    (store : ShardedStore) : Prop where
  fixed : store.engine.clock.Fixed time
  repeats : Repeats time origin (batches.flatMap batchWrites) (store.view time)

variable {time : Nat} {origin : Bytes → Option PersistentEntry} {batches : List CommittedBatch}
  {store after : ShardedStore}

theorem Reflects.describes (reflects : Reflects time origin batches store) {more : List CommittedBatch}
    {rollbacks : List MutationRollback} (describes : Describes time store after more rollbacks) :
    Reflects time origin (batches ++ more) after := by
  refine ⟨describes.fixed, ?_⟩
  rw [List.flatMap_append]
  exact reflects.repeats.trans describes.repeats

/-- Writes of batches, made to the store itself. -/
theorem Reflects.writes (reflects : Reflects time origin batches store) {more : List CommittedBatch}
    (written : Writes store after (more.flatMap batchWrites)) : Reflects time origin (batches ++ more) after := by
  refine ⟨written.leads.fixed reflects.fixed, ?_⟩
  rw [List.flatMap_append]
  apply reflects.repeats.trans
  intro key
  rw [written.view time reflects.fixed.upto]
  exact .refl _

/-- Another store that shows the same. -/
theorem Reflects.alike (reflects : Reflects time origin batches store) (fixed : after.engine.clock.Fixed time)
    (alike : ∀ key, Alike (store.view time key) (after.view time key)) : Reflects time origin batches after :=
  ⟨fixed, fun key => (reflects.repeats key).trans (alike key)⟩

/-- The store when the wall clock has moved on. -/
def ShardedStore.withClock (store : ShardedStore) (clock : Clock) : ShardedStore :=
  { store with engine := { store.engine with clock } }

/-- What is seen later is what has not expired of what is seen now. -/
theorem view_later {store : ShardedStore} {time later : Nat} (order : time ≤ later) :
    visible later (store.view time) = store.view later := by
  funext key
  rw [visible, ShardedStore.view, ShardedStore.view, OnyxEngine.view, OnyxEngine.view, shown_eq_live, shown_eq_live,
    Expiring.live_live persistent_expired order]

/-- Time shows less of both contents. -/
theorem Repeats.later {before : Bytes → Option PersistentEntry}
    {writes : List (Expiring.Write Bytes PersistentEntry)} {after : Bytes → Option PersistentEntry} {time later : Nat}
    (repeats : Repeats time before writes after) (order : time ≤ later) :
    Repeats later before writes (visible later after) := by
  intro key
  have shown := (repeats key).live later
  have same : shownImage later (visible time (Expiring.replay before writes) key) =
      visible later (Expiring.replay before writes) key := congrFun (visible_visible order _) key
  rwa [same] at shown

theorem Reverts.later {before : Bytes → Option PersistentEntry}
    {writes : List (Expiring.Write Bytes PersistentEntry)} {after : Bytes → Option PersistentEntry} {time later : Nat}
    (reverts : Reverts time before writes after) (order : time ≤ later) :
    Reverts later (visible later before) writes after := by
  intro key
  have shown := (reverts key).live later
  have same : shownImage later (visible time (Expiring.replay after writes) key) =
      visible later (Expiring.replay after writes) key := congrFun (visible_visible order _) key
  rwa [same] at shown

/-- What describes a group still does when time has passed. -/
theorem Describes.elapse {store after : ShardedStore} {batches : List CommittedBatch}
    {rollbacks : List MutationRollback} {time later : Nat} (describes : Describes time store after batches rollbacks)
    {clock : Clock} (fixed : clock.Fixed later) (order : time ≤ later) :
    Describes later (ShardedStore.withClock store clock) (ShardedStore.withClock after clock) batches rollbacks := by
  have before : (ShardedStore.withClock store clock).view later = visible later (store.view time) :=
    (view_later order).symm
  have now : (ShardedStore.withClock after clock).view later = visible later (after.view time) :=
    (view_later order).symm
  refine ⟨fixed, ?_, ?_⟩
  · intro key
    rw [before, now, visible_replay_visible le_rfl]
    exact describes.repeats.later order key
  · intro key
    rw [before, now, visible_replay_visible le_rfl]
    exact describes.reverts.later order key

theorem Reflects.elapse (reflects : Reflects time origin batches store) {clock : Clock} {later : Nat}
    (fixed : clock.Fixed later) (order : time ≤ later) :
    Reflects later origin batches (ShardedStore.withClock store clock) := by
  have shown : (ShardedStore.withClock store clock).view later = visible later (store.view time) :=
    (view_later order).symm
  refine ⟨fixed, ?_⟩
  intro key
  rw [shown]
  exact reflects.repeats.later order key

end Contents

section Acknowledged

/-- The batches a process has acknowledged, under its sequences, are what replicas are sent and what the backlog
keeps the end of. -/
structure Publishes (first : Nat) (batches : List CommittedBatch) (runtime : CommitRuntime) : Prop where
  published : runtime.published = numbered first batches
  backlog : runtime.backlog = retained backlogCapacity runtime.published
  offset : runtime.replOffset = first + batches.length
  bounded : batches ≠ [] → runtime.replOffset < 2 ^ 64

/-- The store shows the acknowledged batches, with a group behind them whose append has an indeterminate outcome. -/
structure Conveys (time : Nat) (content : Bytes → Option PersistentEntry) (first : Nat)
    (acknowledged tentative : List CommittedBatch) (server : Server) : Prop
    extends Publishes first acknowledged server.runtime where
  reflects : Reflects time content (acknowledged ++ tentative) server.store
  settled : server.runtime.failStopStarted = false → tentative = []

variable {time first : Nat} {content : Bytes → Option PersistentEntry}
  {acknowledged tentative : List CommittedBatch} {server : Server}

/-- A server that takes groups has no group of unknown outcome behind it. -/
theorem Conveys.available (conveys : Conveys time content first acknowledged tentative server)
    (available : server.available = true) : tentative = [] := by
  rw [Server.available, Bool.not_eq_true', Bool.or_eq_false_iff] at available
  exact conveys.settled available.1

theorem Conveys.store (conveys : Conveys time content first acknowledged tentative server) {store : ShardedStore}
    (reflects : Reflects time content (acknowledged ++ tentative) store) :
    Conveys time content first acknowledged tentative { server with store } :=
  { conveys with reflects }

end Acknowledged

section Outcomes
variable [Platform]

/-- What becomes of a prepared group: all of its batches are acknowledged, or it is undone, or nobody knows. -/
inductive Outcome (prepared : List PreparedMasterCommit) (server : Server) : Server → Prop where
  | committed (fits : allBatches prepared ≠ [] →
      server.runtime.replOffset + (allBatches prepared).length < 2 ^ 64) :
      Outcome prepared server ⟨server.store, server.runtime.advance (allBatches prepared)⟩
  | undone (reason : String) :
      Outcome prepared server
        ⟨(rollbackPrepared prepared server.store).2, server.runtime.markPersistenceFailed reason⟩
  | indeterminate (reason : String) :
      Outcome prepared server ⟨server.store, server.runtime.enterFailStop reason⟩

/-- Storage leaves it open whether it has the batches of a prepared group. -/
def groupIndeterminate (append : AppendBatches) (prepared : List PreparedMasterCommit) (server : Server) : Bool :=
  match numberBatches server.runtime.replOffset (prepared.flatMap PreparedMasterCommit.batches) with
  | some (first :: rest) =>
      match server.runtime.persistAndPublishMasterBatches append (first :: rest) with
      | .ok _ => false
      | .error error => error.indeterminate
  | _ => false

/-- What a group leaves when storage knows whether it has it. -/
inductive Determined (prepared : List PreparedMasterCommit) (server : Server) : Server → Prop where
  | committed (fits : allBatches prepared ≠ [] →
      server.runtime.replOffset + (allBatches prepared).length < 2 ^ 64) :
      Determined prepared server ⟨server.store, server.runtime.advance (allBatches prepared)⟩
  | undone (reason : String) :
      Determined prepared server
        ⟨(rollbackPrepared prepared server.store).2, server.runtime.markPersistenceFailed reason⟩

theorem concludeGroup_cases (append : AppendBatches) (requests : List MasterCommitOperation)
    (prepared : List PreparedMasterCommit) (server : Server) :
    (groupIndeterminate append prepared server = false ∧
      Determined prepared server (concludeGroup append requests prepared server).2) ∨
    (groupIndeterminate append prepared server = true ∧ ∃ reason,
      (concludeGroup append requests prepared server).2 = ⟨server.store, server.runtime.enterFailStop reason⟩) := by
  unfold concludeGroup groupIndeterminate
  obtain ⟨batches, derived⟩ : ∃ batches, prepared.flatMap PreparedMasterCommit.batches = batches := ⟨_, rfl⟩
  have all : allBatches prepared = batches := derived
  simp only [derived]
  cases numbers : numberBatches server.runtime.replOffset batches with
  | none => exact Or.inl ⟨rfl, .undone _⟩
  | some entries =>
      obtain ⟨rfl, fits⟩ := numberBatches_some numbers
      cases batches with
      | nil =>
          have unchanged := @Determined.committed _ prepared server (fun filled => absurd all filled)
          rw [all, advance_nil] at unchanged
          exact Or.inl ⟨rfl, unchanged⟩
      | cons batch batches =>
          have bound := fits (List.cons_ne_nil batch batches)
          have persisted := persistAndPublish_eq append bound
          cases answered : append server.runtime.appended (numbered server.runtime.replOffset (batch :: batches)) with
          | ok _ =>
              have advanced := @Determined.committed _ prepared server (fun _ => by rw [all]; exact bound)
              rw [answered] at persisted
              rw [all] at advanced
              rw [numbered] at persisted ⊢
              simp only [persisted, Except.map]
              exact Or.inl ⟨trivial, advanced⟩
          | error error =>
              rw [answered] at persisted
              rw [numbered] at persisted ⊢
              simp only [persisted, Except.map]
              cases error.indeterminate with
              | true => exact Or.inr ⟨rfl, _, rfl⟩
              | false => exact Or.inl ⟨rfl, .undone _⟩

theorem concludeGroup_outcome (append : AppendBatches) (requests : List MasterCommitOperation)
    (prepared : List PreparedMasterCommit) (server : Server) :
    Outcome prepared server (concludeGroup append requests prepared server).2 := by
  rcases concludeGroup_cases append requests prepared server with ⟨_, determined⟩ | ⟨_, reason, lost⟩
  · generalize (concludeGroup append requests prepared server).2 = after at determined ⊢
    cases determined with
    | committed fits => exact .committed fits
    | undone reason => exact .undone reason
  · rw [lost]
    exact .indeterminate reason

variable [Process]

theorem processCommitGroup_concludes (append : AppendBatches) {requests : List MasterCommitOperation} {server : Server}
    (available : server.available = true) {prepared : List PreparedMasterCommit} {after : ShardedStore}
    (prepares : Prepares server.store requests prepared after) :
    processCommitGroup append requests server = concludeGroup append requests prepared ⟨after, server.runtime⟩ := by
  rw [Server.available, Bool.not_eq_true'] at available
  unfold processCommitGroup
  rw [available, if_neg (by simp), prepareRequests_eq prepares, List.nil_append]

/-- A group at a clock that stands still is turned away, or prepared as described and concluded. -/
theorem processCommitGroup_outcome {time : Nat} (append : AppendBatches) (requests : List MasterCommitOperation)
    {server : Server} (fixed : server.store.engine.clock.Fixed time) :
    (processCommitGroup append requests server).2 = server ∨
      ∃ prepared after, server.available = true ∧
        Describes time server.store after (allBatches prepared) (prepared.flatMap PreparedMasterCommit.rollbacks) ∧
        Outcome prepared ⟨after, server.runtime⟩ (processCommitGroup append requests server).2 := by
  cases available : server.available with
  | false =>
      left
      rw [Server.available, Bool.not_eq_false'] at available
      unfold processCommitGroup
      rw [available, if_pos rfl]
  | true =>
      right
      obtain ⟨prepared, after, prepares, _⟩ := prepares_all requests fixed
      refine ⟨prepared, after, rfl, prepares_describes fixed prepares, ?_⟩
      rw [processCommitGroup_concludes append available prepares]
      exact concludeGroup_outcome append requests prepared _

end Outcomes

section Runs
variable [Platform] [Process]

/-- What only reads a store: a command that writes nothing, an OBP read, the collection of expired keys and a
snapshot. -/
inductive QuietStep : ShardedStore → ShardedStore → Prop where
  | read {store : ShardedStore} (arguments : List String) (reads : isWriteCommand (argument arguments 0) = false) :
      QuietStep store (executeServerCommand arguments store).2
  | obpGet {store : ShardedStore} (key : Bytes) : QuietStep store (store.getEntry key).2
  | collect {store : ShardedStore} : QuietStep store (ShardedStore.perform .gcExpired store).2
  | snapshot {store : ShardedStore} : QuietStep store store.rawEntries.2

omit [Platform] [Process] in
/-- What only reads a store changes nothing that is shown. -/
theorem confined_same {α : Type} {program : StoreM α} (confined : Confined [] program) {store : ShardedStore}
    {time : Nat} (fixed : store.engine.clock.Fixed time) :
    (program store).2.engine.clock.Fixed time ∧ (program store).2.view time = store.view time := by
  have ran := confined store fixed.nondecreasing
  exact ⟨ran.leads.fixed fixed, ran.engine.same_view fixed.upto⟩

theorem QuietStep.same {store after : ShardedStore} (step : QuietStep store after) {time : Nat}
    (fixed : store.engine.clock.Fixed time) :
    after.engine.clock.Fixed time ∧ after.view time = store.view time := by
  cases step with
  | read arguments reads =>
      have confined := executeServerCommand_confined arguments
      rw [affectedKeys_nil reads] at confined
      exact confined_same confined fixed
  | obpGet key =>
      have confined : Confined [] (ShardedStore.perform (.get key)) := Confined.reads rfl
      exact confined_same confined fixed
  | collect =>
      have confined : Confined [] (ShardedStore.perform .gcExpired) := Confined.reads rfl
      exact confined_same confined fixed
  | snapshot => exact ⟨(rawEntries_leads store).fixed fixed, store.engine.snapshotAll_ages.same_view fixed.upto⟩

theorem Reflects.quiet {time : Nat} {origin : Bytes → Option PersistentEntry} {batches : List CommittedBatch}
    {store after : ShardedStore} (reflects : Reflects time origin batches store) (step : QuietStep store after) :
    Reflects time origin batches after := by
  obtain ⟨fixed, same⟩ := step.same reflects.fixed
  exact reflects.alike fixed (fun key => Or.inl (congrFun same key).symm)

/-- What goes on at a master at one moment: a commit group, whatever storage answers, or a read. -/
inductive ServerStep : Server → Server → Prop where
  | group {server : Server} (append : AppendBatches) (requests : List MasterCommitOperation) :
      ServerStep server (processCommitGroup append requests server).2
  | quiet {server : Server} {store : ShardedStore} (step : QuietStep server.store store) :
      ServerStep server { server with store }

/-- The master of a process, from its start on. The wall clock stands still during a step and moves on between
the steps. -/
inductive Course (start : Nat) (origin : Server) : Nat → Server → Prop where
  | start : Course start origin start origin
  | step {time : Nat} {server after : Server} (course : Course start origin time server)
      (next : ServerStep server after) : Course start origin time after
  | elapse {time later : Nat} {server : Server} (course : Course start origin time server) {clock : Clock}
      (fixed : clock.Fixed later) (order : time ≤ later) :
      Course start origin later { server with store := ShardedStore.withClock server.store clock }

variable {time first : Nat} {content : Bytes → Option PersistentEntry}
  {acknowledged tentative : List CommittedBatch} {server : Server}

omit [Process] in
/-- A group of which storage knows adds its batches, or nothing. -/
theorem Conveys.determined {store : ShardedStore} {prepared : List PreparedMasterCommit} {after : Server}
    (conveys : Conveys time content first acknowledged [] server)
    (describes : Describes time server.store store (allBatches prepared)
      (prepared.flatMap PreparedMasterCommit.rollbacks))
    (determined : Determined prepared ⟨store, server.runtime⟩ after) :
    ∃ more, Conveys time content first (acknowledged ++ more) [] after := by
  have before := conveys.reflects
  rw [List.append_nil] at before
  cases determined with
  | committed fits =>
      refine ⟨allBatches prepared, ⟨?_, ?_, ?_, ?_⟩, ?_, fun _ => rfl⟩
      · simp only [CommitRuntime.advance, conveys.published, conveys.offset]
        exact (numbered_append first acknowledged _).symm
      · simp only [CommitRuntime.advance, conveys.backlog]
        exact foldl_push backlogCapacity server.runtime.published _
      · simp only [CommitRuntime.advance, conveys.offset, List.length_append, Nat.add_assoc]
      · intro filled
        cases batches : allBatches prepared with
        | nil =>
            rw [batches, List.append_nil] at filled
            exact conveys.bounded filled
        | cons batch more =>
            rw [batches] at fits
            exact fits (List.cons_ne_nil batch more)
      · rw [List.append_nil]
        exact before.describes describes
  | undone reason =>
      refine ⟨[], ?_⟩
      rw [List.append_nil]
      have writes := restoreAll_writes (prepared.flatMap PreparedMasterCommit.rollbacks) store
      have restored : ∀ key, Alike (server.store.view time key) ((rollbackPrepared prepared store).2.view time key) := by
        intro key
        rw [rollbackPrepared, writes.view time describes.fixed.upto]
        exact describes.reverts key
      have reflects := conveys.reflects.alike (writes.leads.fixed describes.fixed) restored
      exact { conveys with reflects }

omit [Process] in
/-- What a concluded group adds: its batches are acknowledged, or nothing is, or they are tentative. -/
theorem Conveys.outcome {store : ShardedStore} {prepared : List PreparedMasterCommit} {after : Server}
    (conveys : Conveys time content first acknowledged [] server)
    (describes : Describes time server.store store (allBatches prepared)
      (prepared.flatMap PreparedMasterCommit.rollbacks))
    (outcome : Outcome prepared ⟨store, server.runtime⟩ after) :
    ∃ more tentative, Conveys time content first (acknowledged ++ more) tentative after := by
  cases outcome with
  | committed fits =>
      obtain ⟨more, conveyed⟩ := conveys.determined describes (.committed fits)
      exact ⟨more, [], conveyed⟩
  | undone reason =>
      obtain ⟨more, conveyed⟩ := conveys.determined describes (.undone reason)
      exact ⟨more, [], conveyed⟩
  | indeterminate reason =>
      have before := conveys.reflects
      rw [List.append_nil] at before
      refine ⟨[], allBatches prepared, ?_⟩
      rw [List.append_nil]
      exact { conveys with
        reflects := before.describes describes
        settled := fun running => absurd running (Bool.noConfusion : ¬ true = false) }

/-- A step acknowledges some batches more. Once an append has had an indeterminate outcome, it acknowledges nothing
and shows nothing new. -/
theorem Conveys.step (conveys : Conveys time content first acknowledged tentative server) {after : Server}
    (step : ServerStep server after) :
    ∃ more other, Conveys time content first (acknowledged ++ more) other after ∧
      (server.runtime.failStopStarted = true → more = [] ∧ other = tentative ∧ after.runtime = server.runtime) := by
  have same : ∀ {after : Server}, Conveys time content first acknowledged tentative after →
      after.runtime = server.runtime → ∃ more other, Conveys time content first (acknowledged ++ more) other after ∧
        (server.runtime.failStopStarted = true → more = [] ∧ other = tentative ∧ after.runtime = server.runtime) := by
    intro after kept runtime
    refine ⟨[], tentative, ?_, fun _ => ⟨rfl, rfl, runtime⟩⟩
    rwa [List.append_nil]
  cases step with
  | group append requests =>
      rcases processCommitGroup_outcome append requests conveys.reflects.fixed with turned | concluded
      · rw [turned]
        exact same conveys rfl
      · obtain ⟨prepared, store, available, describes, outcome⟩ := concluded
        obtain rfl := conveys.available available
        obtain ⟨more, other, conveyed⟩ := conveys.outcome describes outcome
        refine ⟨more, other, conveyed, ?_⟩
        intro stopped
        rw [Server.available, stopped] at available
        cases available
  | quiet step => exact same (conveys.store (conveys.reflects.quiet step)) rfl

theorem Conveys.course (conveys : Conveys time content first acknowledged tentative server) {later : Nat}
    {after : Server} (course : Course time server later after) :
    ∃ more other, Conveys later content first (acknowledged ++ more) other after ∧
      (server.runtime.failStopStarted = true → more = [] ∧ other = tentative ∧ after.runtime = server.runtime) := by
  induction course with
  | start =>
      refine ⟨[], tentative, ?_, fun _ => ⟨rfl, rfl, rfl⟩⟩
      rwa [List.append_nil]
  | step _ next before =>
      obtain ⟨more, other, conveyed, still⟩ := before
      obtain ⟨further, last, reached, rest⟩ := conveyed.step next
      rw [List.append_assoc] at reached
      refine ⟨more ++ further, last, reached, ?_⟩
      intro stopped
      obtain ⟨rfl, rfl, runtime⟩ := still stopped
      obtain ⟨rfl, rfl, same⟩ := rest (by rw [runtime, stopped])
      exact ⟨rfl, rfl, same.trans runtime⟩
  | elapse _ fixed order before =>
      obtain ⟨more, other, conveyed, still⟩ := before
      exact ⟨more, other, { conveyed with reflects := conveyed.reflects.elapse fixed order }, still⟩

/-- A server that has just been started. -/
structure Fresh (time : Nat) (server : Server) : Prop where
  fixed : server.store.engine.clock.Fixed time
  running : server.runtime.failStopStarted = false
  published : server.runtime.published = []
  backlog : server.runtime.backlog = []

omit [Platform] [Process] in
theorem Fresh.conveys (fresh : Fresh time server) :
    Conveys time (server.store.view time) server.runtime.replOffset [] [] server where
  published := fresh.published
  backlog := by rw [fresh.backlog, fresh.published]; rfl
  offset := rfl
  bounded filled := absurd rfl filled
  reflects := ⟨fresh.fixed, fun key => Or.inl (shownImage_view server.store time key)⟩
  settled _ := rfl

/-- In every run of a master, what the store shows between two steps is what the acknowledged batches, which are
numbered without a gap and of which the backlog keeps the last, make of the content at the start; and the batches of a
later moment begin with those of an earlier one. An append of indeterminate outcome leaves its group shown behind them;
from then on nothing is acknowledged and nothing else is shown. -/
theorem acknowledged_batches_shown {start : Nat} {origin : Server} (fresh : Fresh start origin) {time : Nat}
    {server : Server} (course : Course start origin time server) :
    ∃ acknowledged tentative,
      Conveys time (origin.store.view start) origin.runtime.replOffset acknowledged tentative server ∧
      ∀ later after, Course time server later after → ∃ more other,
        Conveys later (origin.store.view start) origin.runtime.replOffset (acknowledged ++ more) other after ∧
        (server.runtime.failStopStarted = true → more = [] ∧ other = tentative ∧ after.runtime = server.runtime) := by
  obtain ⟨acknowledged, tentative, conveyed, _⟩ := fresh.conveys.course course
  exact ⟨acknowledged, tentative, conveyed, fun _ _ further => conveyed.course further⟩

end Runs

/-- A master that has set a key. -/
def oneSet [Platform] [Process] : Server :=
  (processCommitGroup acceptEverything [.command ["SET", "a", "1"]] (emptyServer 0)).2

theorem oneSet_course :
    letI := Reference.platform (fun _ => .error "unsupported")
    letI := startedProcess
    Course 0 (emptyServer 0) 0 oneSet :=
  letI := Reference.platform (fun _ => .error "unsupported")
  letI := startedProcess
  .step .start (.group acceptEverything _)

theorem acknowledged_batches_shown_set :
    letI := Reference.platform (fun _ => .error "unsupported")
    letI := startedProcess
    ∃ acknowledged tentative, Conveys 0 ((emptyServer 0).store.view 0) 0 acknowledged tentative oneSet ∧
      ∀ later after, Course 0 oneSet later after → ∃ more other,
        Conveys later ((emptyServer 0).store.view 0) 0 (acknowledged ++ more) other after ∧
        (oneSet.runtime.failStopStarted = true → more = [] ∧ other = tentative ∧ after.runtime = oneSet.runtime) :=
  letI := Reference.platform (fun _ => .error "unsupported")
  letI := startedProcess
  acknowledged_batches_shown ⟨fun _ => rfl, rfl, rfl, rfl⟩ oneSet_course

end OnyxDB.Coordinator
