import OnyxDB.Replication.CommitGates
import OnyxDB.Replication.Convergence

/-! What the observers of a master have before them. Whoever holds the visibility gate, or the write gate before a group
has entered fail-stop, stands beside no group, so that the server shows the acknowledged batches and nothing else. -/

namespace OnyxDB.Replication.Observers
open OnyxDB.Library OnyxDB.Library.Guards OnyxDB.Engine OnyxDB.Engine.Value OnyxDB.Store OnyxDB.Protocol
  OnyxDB.Command OnyxDB.Persistence.Model OnyxDB.Persistence.Commit OnyxDB.Coordinator OnyxDB.Replication.Stream
  OnyxDB.Library.Retention

section Invariant
variable [Platform] [Process] {time first : Nat} {content : Bytes → Option PersistentEntry} {master : Master}

/-- Behind what goes on is a server that shows the acknowledged batches: the server itself, or, while a group is under
way, the server before it. -/
def Settled (time : Nat) (content : Bytes → Option PersistentEntry) (first : Nat) (server : Coordinator.Server)
    (stages : Nat → Stage) : Prop :=
  ∃ acknowledged basis, Conveys time content first acknowledged [] basis ∧ basis.runtime = server.runtime ∧
    ((∀ task, ¬ (stages task).commits) → basis = server) ∧
    ∀ task requests rest prepared, stages task = .committing requests rest prepared →
      Describes time basis.store server.store (allBatches prepared) (prepared.flatMap PreparedMasterCommit.rollbacks)

/-- What holds of a master between two steps. -/
structure Sound (time : Nat) (content : Bytes → Option PersistentEntry) (first : Nat) (master : Master) : Prop where
  guarded : Guarded holds master.stage
  unheld : master.retained.isSome = true → ∀ task, holds (master.stage task) .visibility = .free
  stopped : master.retained.isSome = true → master.server.runtime.failStopStarted = true
  watermark : ∀ task sequence, master.stage task = .capturing sequence → sequence = master.server.runtime.replOffset
  sequence : ∀ task sequence, master.stage task = .dumped sequence → sequence = master.server.runtime.replOffset
  settled : ¬ master.fences → Settled time content first master.server master.stage

variable {server after : Coordinator.Server} {stage next : Stage} {retains : Bool} {task : Nat}

omit [Platform] [Process] in
theorem commits_alone (commits : stage.commits) (gate : Gate) : holds stage gate = .alone := by
  cases stage with
  | committing => cases gate <;> rfl
  | _ => exact commits.elim

omit [Platform] [Process] in
/-- Beside a task that holds a gate no group is under way. -/
theorem rests_beside {stages : Nat → Stage} (guarded : Guarded holds stages) {gate : Gate}
    (held : holds (stages task) gate ≠ .free) {other : Nat} (apart : other ≠ task) : ¬ (stages other).commits :=
  fun commits => held (guarded.alone (commits_alone commits gate) apart.symm)

theorem Action.replOffset (action : Action server stage after next retains) (rests : ¬ stage.commits) :
    after.runtime.replOffset = server.runtime.replOffset := by
  cases action with
  | prepare | unprepared | conclude | interrupt => exact absurd trivial rests
  | _ => rfl

theorem Action.marks {watermark : Nat} (action : Action server stage after (.capturing watermark) retains) :
    watermark = after.runtime.replOffset := by
  cases action
  rfl

theorem Action.sequences {sequence : Nat} (action : Action server stage after (.dumped sequence) retains) :
    sequence = after.runtime.replOffset := by
  cases action
  rfl

omit [Process] in
theorem determined_failStopStarted {prepared : List PreparedMasterCommit}
    (determined : Determined prepared server after) :
    after.runtime.failStopStarted = server.runtime.failStopStarted := by
  cases determined <;> rfl

theorem Action.stopped (action : Action server stage after next retains)
    (stopped : server.runtime.failStopStarted = true) : after.runtime.failStopStarted = true := by
  cases action with
  | @conclude requests prepared append =>
      rcases concludeGroup_cases append requests prepared server with ⟨_, determined⟩ | ⟨_, _, lost⟩
      · exact (determined_failStopStarted determined).trans stopped
      · rw [lost]
        rfl
  | announce | interrupt | sealLost | stop => rfl
  | _ => exact stopped

/-- The visibility guard is retained by a task that has it to itself, with the flag of fail-stop set. -/
theorem Action.retaining (action : Action server stage after next retains) (kept : retains = true) :
    holds stage .visibility = .alone ∧ next = .idle ∧ after.runtime.failStopStarted = true := by
  cases action with
  | @conclude requests prepared append =>
      rcases concludeGroup_cases append requests prepared server with ⟨determinate, _⟩ | ⟨_, _, lost⟩
      · rw [determinate] at kept
        cases kept
      · rw [lost]
        exact ⟨rfl, rfl, rfl⟩
  | interrupt | sealLost | stop => exact ⟨rfl, rfl, rfl⟩
  | _ => cases kept

omit [Platform] [Process] in
/-- The stages of the others are what they were. -/
theorem stages_after (stages : Nat → Stage) (task : Nat) (next : Stage) (other : Nat) :
    (other = task ∧ Function.update stages task next other = next) ∨
      (other ≠ task ∧ Function.update stages task next other = stages other) := by
  by_cases same : other = task
  · exact Or.inl ⟨same, by rw [same, Function.update_self]⟩
  · exact Or.inr ⟨same, Function.update_of_ne same next stages⟩

variable {stages : Nat → Stage}

omit [Platform] [Process] in
theorem rests_after (rests : ∀ other, other ≠ task → ¬ (stages other).commits) (still : ¬ next.commits)
    (other : Nat) : ¬ (Function.update stages task next other).commits := by
  rcases stages_after stages task next other with ⟨_, same⟩ | ⟨apart, same⟩
  · rwa [same]
  · rw [same]
    exact rests other apart

omit [Platform] [Process] in
/-- Where no group is under way, the server shows the acknowledged batches. -/
theorem Settled.resting (settled : Settled time content first server stages)
    (rests : ∀ task, ¬ (stages task).commits) :
    ∃ acknowledged, Conveys time content first acknowledged [] server := by
  obtain ⟨acknowledged, basis, conveys, _, quiet, _⟩ := settled
  rw [quiet rests] at conveys
  exact ⟨acknowledged, conveys⟩

omit [Platform] [Process] in
theorem settled_resting {acknowledged : List CommittedBatch}
    (conveys : Conveys time content first acknowledged [] server) (rests : ∀ task, ¬ (stages task).commits) :
    Settled time content first server stages :=
  ⟨acknowledged, server, conveys, rfl, fun _ => rfl,
    fun task requests rest prepared stands => absurd (by rw [stands]; trivial) (rests task)⟩

omit [Platform] [Process] in
/-- A task that is not part of a group goes on and changes flags of the runtime at most. -/
theorem Settled.flags (settled : Settled time content first server stages) (rests : ¬ (stages task).commits)
    (still : ¬ next.commits) {runtime : CommitRuntime}
    (publishes : ∀ acknowledged, Publishes first acknowledged server.runtime →
      Publishes first acknowledged runtime) :
    Settled time content first ⟨server.store, runtime⟩ (Function.update stages task next) := by
  obtain ⟨acknowledged, basis, conveys, same, quiet, busy⟩ := settled
  have published := publishes acknowledged (same ▸ conveys.toPublishes)
  refine ⟨acknowledged, ⟨basis.store, runtime⟩, ⟨published, conveys.reflects, fun _ => rfl⟩, rfl, ?_, ?_⟩
  · intro resting
    have before : ∀ other, ¬ (stages other).commits := by
      intro other
      rcases stages_after stages task next other with ⟨rfl, _⟩ | ⟨_, there⟩
      · exact rests
      · exact there ▸ resting other
    rw [quiet before]
  · intro other requests rest prepared stands
    rcases stages_after stages task next other with ⟨_, here⟩ | ⟨_, there⟩
    · rw [here] at stands
      exact absurd (by rw [stands]; trivial) still
    · rw [there] at stands
      exact busy other requests rest prepared stands

theorem Settled.act (settled : Settled time content first server stages) (guarded : Guarded holds stages)
    (action : Action server (stages task) after next retains) (kept : retains = true → ¬ (stages task).commits) :
    Settled time content first after (Function.update stages task next) := by
  generalize stands : stages task = stage at action kept
  have same (rests : ¬ stage.commits) (still : ¬ next.commits) :
      Settled time content first server (Function.update stages task next) :=
    settled.flags (stands ▸ rests) still (fun _ publishes => publishes)
  have beside {gate : Gate} (held : holds stage gate ≠ .free) :
      ∀ other, other ≠ task → ¬ (stages other).commits :=
    fun other => rests_beside guarded (stands.symm ▸ held)
  have quiet {store : ShardedStore} (step : QuietStep server.store store) {gate : Gate}
      (held : holds stage gate ≠ .free) (rests : ¬ stage.commits) (still : ¬ next.commits) :
      Settled time content first { server with store } (Function.update stages task next) := by
    have resting : ∀ other, ¬ (stages other).commits := by
      intro other
      by_cases here : other = task
      · rwa [here, stands]
      · exact beside held other here
    obtain ⟨acknowledged, conveys⟩ := settled.resting resting
    exact settled_resting (conveys.store (conveys.reflects.quiet step)) (rests_after (beside held) still)
  cases action with
  | observe | leave | request | compact | lock | enter | retry | refuse | watermark | unsealed | dump | sequence =>
      exact same id id
  | announce | sealLost | stop =>
      exact settled.flags (stands ▸ id) id (fun _ publishes => ⟨publishes.published, publishes.backlog,
        publishes.offset, publishes.bounded⟩)
  | read arguments reads => exact @quiet _ (.read arguments reads) .visibility (by decide) id id
  | obpGet key => exact @quiet _ (.obpGet key) .visibility (by decide) id id
  | capture => exact @quiet _ .snapshot .write (by intro free; cases free) id id
  | ship => exact @quiet _ .snapshot .write (by intro free; cases free) id id
  | @begin requests accepting =>
      have others := @beside .write (by intro free; cases free)
      have resting : ∀ other, ¬ (stages other).commits := by
        intro other
        by_cases here : other = task
        · rw [here, stands]
          exact id
        · exact others other here
      obtain ⟨acknowledged, conveys⟩ := settled.resting resting
      refine ⟨acknowledged, server, conveys, rfl, fun _ => rfl, ?_⟩
      intro other all rest prepared there
      rcases stages_after stages task (.committing requests requests []) other with ⟨_, here⟩ | ⟨apart, same⟩
      · cases here.symm.trans there
        exact .quiet conveys.reflects.fixed (fun key => .refl _)
      · exact absurd (by rw [← same, there]; trivial) (others other apart)
  | @prepare requests rest request prepared pending store preparation =>
      obtain ⟨acknowledged, basis, conveys, runtime, _, busy⟩ := settled
      have describes := busy task requests (request :: rest) prepared stands
      obtain ⟨_, _, succeeds, further⟩ := prepareRequest_describes request describes.fixed
      cases preparation.symm.trans succeeds
      refine ⟨acknowledged, basis, conveys, runtime, ?_, ?_⟩
      · intro resting
        refine absurd ?_ (resting task)
        rw [Function.update_self]
        trivial
      · intro other all left ready there
        rcases stages_after stages task (.committing requests rest (prepared ++ [pending])) other with
          ⟨_, here⟩ | ⟨apart, same⟩
        · cases here.symm.trans there
          rw [allBatches, List.flatMap_append, List.flatMap_append, List.flatMap_singleton, List.flatMap_singleton]
          exact describes.trans further
        · have others := @beside .write (by intro free; cases free) other apart
          exact absurd (by rw [← same, there]; trivial) others
  | @unprepared requests rest request prepared error store preparation =>
      obtain ⟨_, _, _, _, _, busy⟩ := settled
      have describes := busy task requests (request :: rest) prepared stands
      obtain ⟨_, _, succeeds, _⟩ := prepareRequest_describes request describes.fixed
      cases preparation.symm.trans succeeds
  | @conclude requests prepared append =>
      obtain ⟨acknowledged, basis, conveys, runtime, _, busy⟩ := settled
      have describes := busy task requests [] prepared stands
      rcases concludeGroup_cases append requests prepared server with ⟨_, determined⟩ | ⟨lost, _⟩
      · have same : server = ⟨server.store, basis.runtime⟩ := by rw [runtime]
        rw [same] at determined ⊢
        obtain ⟨more, concluded⟩ := conveys.determined describes determined
        exact settled_resting concluded (rests_after (@beside .write (by intro free; cases free)) id)
      · exact absurd trivial (kept lost)
  | interrupt => exact absurd trivial (kept rfl)

/-- Expired keys are collected, whatever is under way. -/
theorem Settled.collect (settled : Settled time content first server stages) :
    Settled time content first { server with store := (ShardedStore.perform .gcExpired server.store).2 } stages := by
  obtain ⟨acknowledged, basis, conveys, runtime, quiet, busy⟩ := settled
  by_cases rests : ∀ task, ¬ (stages task).commits
  · obtain rfl := quiet rests
    exact settled_resting (conveys.store (conveys.reflects.quiet .collect)) rests
  · refine ⟨acknowledged, basis, conveys, runtime, fun resting => absurd resting rests, ?_⟩
    intro task requests rest prepared stands
    have describes := busy task requests rest prepared stands
    obtain ⟨fixed, same⟩ := QuietStep.same .collect describes.fixed
    have collected := describes.trans (.quiet fixed (fun key => Or.inl (congrFun same key).symm))
    rwa [List.append_nil, List.append_nil] at collected

omit [Platform] [Process] in
/-- Time passes, whatever is under way. -/
theorem Settled.elapse (settled : Settled time content first server stages) {clock : Clock} {later : Nat}
    (fixed : clock.Fixed later) (order : time ≤ later) :
    Settled later content first { server with store := ShardedStore.withClock server.store clock } stages := by
  obtain ⟨acknowledged, basis, conveys, runtime, quiet, busy⟩ := settled
  refine ⟨acknowledged, { basis with store := ShardedStore.withClock basis.store clock },
    { conveys with reflects := conveys.reflects.elapse fixed order }, runtime, ?_, ?_⟩
  · intro resting
    rw [quiet resting]
  · intro task requests rest prepared stands
    exact (busy task requests rest prepared stands).elapse fixed order

omit [Platform] [Process] in
theorem retained_after {retained : Option Stage}
    (closed : (retained.or (bif retains then some stage else none)).isSome = true) :
    retained.isSome = true ∨ retains = true := by
  cases retained with
  | some => exact Or.inl rfl
  | none =>
      cases retains with
      | true => exact Or.inr rfl
      | false => cases closed

theorem Sound.act (sound : Sound time content first master)
    (action : Action master.server (master.stage task) after next retains)
    (may : MayGo holds master.shut master.stage task next) :
    Sound time content first ⟨after, master.retained.or (bif retains then some (master.stage task) else none),
      Function.update master.stage task next⟩ := by
  have offset {gate : Gate} {other : Nat} {stage : Stage} (apart : other ≠ task) (stands : master.stage other = stage)
      (held : holds stage gate = .alone) : after.runtime.replOffset = master.server.runtime.replOffset := by
    refine action.replOffset ?_
    have taken : holds (master.stage other) gate ≠ .free := by
      rw [stands, held]
      decide
    exact rests_beside sound.guarded taken apart.symm
  refine ⟨sound.guarded.go may, ?unheld, ?stopped, ?watermark, ?sequence, ?settled⟩
  case unheld =>
    intro closed
    rcases retained_after closed with before | retaining
    · exact may.unheld ⟨rfl, before⟩ (sound.unheld before)
    · obtain ⟨held, rfl, _⟩ := action.retaining retaining
      intro other
      simp only
      rcases stages_after master.stage task .idle other with ⟨_, here⟩ | ⟨apart, there⟩
      · rw [here]
        rfl
      · rw [there]
        exact sound.guarded.alone held apart
  case stopped =>
    intro closed
    rcases retained_after closed with before | retaining
    · exact action.stopped (sound.stopped before)
    · exact (action.retaining retaining).2.2
  case watermark =>
    intro other watermark stands
    simp only at stands
    rcases stages_after master.stage task next other with ⟨_, here⟩ | ⟨apart, there⟩
    · rw [← here, stands] at action
      exact action.marks
    · rw [there] at stands
      exact (sound.watermark other watermark stands).trans (@offset .write _ _ apart stands rfl).symm
  case sequence =>
    intro other sequence stands
    simp only at stands
    rcases stages_after master.stage task next other with ⟨_, here⟩ | ⟨apart, there⟩
    · rw [← here, stands] at action
      exact action.sequences
    · rw [there] at stands
      exact (sound.sequence other sequence stands).trans (@offset .write _ _ apart stands rfl).symm
  case settled =>
    intro opened
    refine (sound.settled ?_).act sound.guarded action ?_
    · rintro ⟨fencing, before, commits⟩
      exact opened ⟨fencing, by rw [before]; rfl, commits⟩
    · intro kept commits
      cases retained : master.retained with
      | none => exact opened ⟨_, by rw [retained, kept]; rfl, commits⟩
      | some fencing =>
          have free := sound.unheld (by rw [retained]; rfl) task
          rw [commits_alone commits] at free
          cases free

theorem Sound.step {after : Master} (sound : Sound time content first master) (step : MasterStep master after) :
    Sound time content first after := by
  cases step with
  | act action may => exact sound.act action may
  | collect => exact { sound with settled := fun opened => (sound.settled opened).collect }

omit [Platform] [Process] in
theorem unfenced : ¬ Master.fences ⟨server, none, stages⟩ := by
  rintro ⟨_, retained, _⟩
  cases retained

omit [Platform] [Process] in
theorem started_sound {server : Coordinator.Server} (fresh : Fresh time server) :
    Sound time (server.store.view time) server.runtime.replOffset (.started server) where
  guarded _ _ _ _ := trivial
  unheld closed := by cases closed
  stopped closed := by cases closed
  watermark _ _ stands := by cases stands
  sequence _ _ stands := by cases stands
  settled _ := settled_resting fresh.conveys (fun _ => id)

theorem MasterRun.sound {start : Nat} {origin : Coordinator.Server} (fresh : Fresh start origin)
    (run : MasterRun start origin time master) :
    Sound time (origin.store.view start) origin.runtime.replOffset master := by
  induction run with
  | start => exact started_sound fresh
  | step _ next sound => exact sound.step next
  | elapse _ fixed order sound =>
      exact { sound with settled := fun opened => (sound.settled opened).elapse fixed order }

omit [Platform] [Process] in
theorem repeats_settled {acknowledged : List CommittedBatch}
    (conveys : Conveys time content first acknowledged [] server) (key : Bytes) :
    Alike (visible time (Expiring.replay content (acknowledged.flatMap batchWrites)) key)
      (server.store.view time key) := by
  have repeats := conveys.reflects.repeats key
  rwa [List.append_nil] at repeats

omit [Process] in
theorem snapshot_settled {acknowledged : List CommittedBatch}
    (conveys : Conveys time content first acknowledged [] server) (key : Bytes) :
    Alike (visible time (Expiring.replay content (acknowledged.flatMap batchWrites)) key)
      (visible time (History.listed server.store.rawEntries.1) key) := by
  have content : visible time (History.listed server.store.rawEntries.1) = server.store.view time :=
    rawEntries_content server.store conveys.reflects.fixed.upto
  rw [content]
  exact repeats_settled conveys key

/-- What an observer has before it. -/
theorem observers_see_acknowledged {start : Nat} {origin : Coordinator.Server} (fresh : Fresh start origin)
    (run : MasterRun start origin time master) {observer : Observer} {sequence : Nat}
    {seen : Bytes → Option PersistentEntry} (observes : Observes time master observer sequence seen)
    (intact : observer = .fullSync → ¬ master.fences) :
    ∃ acknowledged, master.server.runtime.published = numbered origin.runtime.replOffset acknowledged ∧
      sequence = origin.runtime.replOffset + acknowledged.length ∧
      ∀ key, Alike (visible time (Expiring.replay (origin.store.view start) (acknowledged.flatMap batchWrites)) key)
        (seen key) := by
  have sound := run.sound fresh
  have shown {task : Nat} {gate : Gate} (held : holds (master.stage task) gate ≠ .free)
      (rests : ¬ (master.stage task).commits) (intact : ¬ master.fences) :
      ∃ acknowledged,
        Conveys time (origin.store.view start) origin.runtime.replOffset acknowledged [] master.server := by
    refine (sound.settled intact).resting ?_
    intro other
    by_cases here : other = task
    · rwa [here]
    · exact rests_beside sound.guarded held here
  have unshut {task : Nat} (held : holds (master.stage task) .visibility ≠ .free) : ¬ master.fences := by
    rintro ⟨_, closed, _⟩
    exact held (sound.unheld (by rw [closed]; rfl) task)
  cases observes with
  | @client task reads =>
      have held : holds (master.stage task) .visibility ≠ .free := by
        rw [reads]
        decide
      obtain ⟨acknowledged, conveys⟩ := shown held (by rw [reads]; exact id) (unshut held)
      exact ⟨acknowledged, conveys.published, conveys.offset, repeats_settled conveys⟩
  | @compaction task _ captures =>
      have held : holds (master.stage task) .visibility ≠ .free := by
        rw [captures]
        intro free
        cases free
      obtain ⟨acknowledged, conveys⟩ := shown held (by rw [captures]; exact id) (unshut held)
      have sequence := (sound.watermark _ _ captures).trans conveys.offset
      exact ⟨acknowledged, conveys.published, sequence, snapshot_settled conveys⟩
  | @fullSync task _ ships =>
      have held : holds (master.stage task) .write ≠ .free := by
        rw [ships]
        intro free
        cases free
      obtain ⟨acknowledged, conveys⟩ := shown held (by rw [ships]; exact id) (intact rfl)
      have sequence := (sound.sequence _ _ ships).trans conveys.offset
      exact ⟨acknowledged, conveys.published, sequence, snapshot_settled conveys⟩

end Invariant

section Undisturbed
variable [Platform] [Process] {start time : Nat} {origin server after : Coordinator.Server} {stages : Nat → Stage}
  {stage next : Stage} {retained : Option Stage} {retains : Bool} {task : Nat}

/-- A task goes on beside others that hold no gate. -/
theorem MasterRun.go (run : MasterRun start origin time ⟨server, retained, Function.update stages task stage⟩)
    (alone : ∀ other, other ≠ task → ∀ gate, holds (stages other) gate = .free)
    (opened : retained = none ∨ holds next .visibility = .free) (action : Action server stage after next retains) :
    MasterRun start origin time
      ⟨after, retained.or (bif retains then some stage else none), Function.update stages task next⟩ := by
  have may : MayGo holds (Master.shut ⟨server, retained, Function.update stages task stage⟩)
      (Function.update stages task stage) task next := by
    intro gate _ taken
    refine ⟨?_, ?_⟩
    · rintro ⟨rfl, closed⟩
      rcases opened with unshut | free
      · rw [unshut] at closed
        cases closed
      · exact taken free
    · intro other apart
      rw [Function.update_of_ne apart, alone other apart gate]
      exact Hold.beside_free _
  have acts : Action server (Function.update stages task stage task) after next retains := by
    rw [Function.update_self]
    exact action
  have step := run.step (.act acts may)
  simp only [Function.update_idem, Function.update_self] at step
  exact step

theorem MasterRun.prepares {store middle : ShardedStore} {runtime : CommitRuntime}
    {requests rest : List MasterCommitOperation} {prepared more : List PreparedMasterCommit}
    (prepares : Prepares store rest more middle)
    (run : MasterRun start origin time
      ⟨⟨store, runtime⟩, none, Function.update stages task (.committing requests rest prepared)⟩)
    (alone : ∀ other, other ≠ task → ∀ gate, holds (stages other) gate = .free) :
    MasterRun start origin time
      ⟨⟨middle, runtime⟩, none, Function.update stages task (.committing requests [] (prepared ++ more))⟩ := by
  induction prepares generalizing prepared with
  | done => rwa [List.append_nil]
  | next first _ rest =>
      have prepared := rest (run.go alone (Or.inl rfl) (.prepare first))
      rwa [List.append_assoc, List.singleton_append] at prepared

/-- A group that nothing comes between does what the coordinator does with it. -/
theorem MasterRun.group (run : MasterRun start origin time ⟨server, none, stages⟩)
    (fixed : server.store.engine.clock.Fixed time) (idle : stages task = .idle)
    (alone : ∀ other, other ≠ task → ∀ gate, holds (stages other) gate = .free)
    (available : server.available = true) (append : AppendBatches) (requests : List MasterCommitOperation) :
    ∃ retained,
      MasterRun start origin time ⟨(processCommitGroup append requests server).2, retained, stages⟩ := by
  obtain ⟨prepared, store, prepares, _⟩ := prepares_all requests fixed
  have accepting : server.runtime.acceptingWrites = true := by
    rw [Server.available, Bool.not_eq_true', Bool.or_eq_false_iff, Bool.not_eq_false'] at available
    exact available.2
  have still : Function.update stages task .idle = stages := by
    rw [← idle, Function.update_eq_self]
  rw [← still] at run
  have asked := run.go alone (Or.inl rfl) (.request requests available)
  have waited := asked.go alone (Or.inl rfl) .lock
  have entered := waited.go alone (Or.inl rfl) .enter
  have begun := entered.go alone (Or.inl rfl) (.begin accepting)
  have ready := begun.prepares prepares alone
  have concluded := ready.go alone (Or.inl rfl) (.conclude append)
  rw [still, List.nil_append] at concluded
  rw [processCommitGroup_concludes append available prepares]
  exact ⟨_, concluded⟩

end Undisturbed

section Alone
variable [Platform] [Process] {start time : Nat} {origin server : Coordinator.Server} {retained : Option Stage}

/-- Nothing is under way. -/
def resting : Nat → Stage := fun _ => .idle

omit [Platform] [Process] in
theorem resting_free (other : Nat) (gate : Gate) : holds (resting other) gate = .free := rfl

theorem MasterRun.rests (run : MasterRun start origin time ⟨server, retained, resting⟩) (task : Nat) :
    MasterRun start origin time ⟨server, retained, Function.update resting task .idle⟩ := by
  have same : Function.update resting task .idle = resting := Function.update_eq_self task resting
  rwa [same]

/-- The handler of a full synchronization comes to its capture, also after fail-stop. -/
theorem MasterRun.dumps (run : MasterRun start origin time ⟨server, retained, resting⟩) :
    MasterRun start origin time
      ⟨server, retained, Function.update resting 1 (.dumped server.runtime.replOffset)⟩ := by
  have dumping := (run.rests 1).go (fun other _ => resting_free other) (Or.inr rfl) .dump
  have dumped := dumping.go (fun other _ => resting_free other) (Or.inr rfl) .sequence
  rwa [cond_false, Option.or_none, cond_false, Option.or_none] at dumped

/-- A client comes to its read. -/
theorem MasterRun.reads (run : MasterRun start origin time ⟨server, none, resting⟩) :
    MasterRun start origin time ⟨server, none, Function.update resting 1 .reading⟩ :=
  (run.rests 1).go (fun other _ => resting_free other) (Or.inl rfl) .observe

/-- A group at a master where nothing is under way. -/
theorem MasterRun.groups (run : MasterRun start origin time ⟨server, none, resting⟩) (fresh : Fresh start origin)
    (available : server.available = true) (append : AppendBatches) (requests : List MasterCommitOperation)
    (running : (processCommitGroup append requests server).2.runtime.failStopStarted = false) :
    MasterRun start origin time ⟨(processCommitGroup append requests server).2, none, resting⟩ := by
  obtain ⟨_, conveys⟩ := ((run.sound fresh).settled unfenced).resting (fun _ => id)
  obtain ⟨retained, concluded⟩ := @MasterRun.group _ _ _ _ _ _ _ 0 run conveys.reflects.fixed rfl
    (fun other _ => resting_free other) available append requests
  cases retained : retained with
  | none => rwa [retained] at concluded
  | some stage =>
      rw [(concluded.sound fresh).stopped (by rw [retained]; rfl)] at running
      cases running

end Alone

theorem emptyServer_fresh : Fresh 0 (Coordinator.emptyServer 0) := ⟨fun _ => rfl, rfl, rfl, rfl⟩

/-- A full synchronization is captured after a key has been set. -/
theorem observers_see_acknowledged_set :
    letI := Reference.platform (fun _ => .error "unsupported")
    letI := startedProcess
    ∃ master seen, MasterRun 0 (Coordinator.emptyServer 0) 0 master ∧ Observes 0 master .fullSync 1 seen ∧
      ∃ acknowledged, master.server.runtime.published = numbered 0 acknowledged ∧ 1 = 0 + acknowledged.length ∧
        ∀ key, Alike
          (visible 0
            (Expiring.replay ((Coordinator.emptyServer 0).store.view 0) (acknowledged.flatMap batchWrites)) key)
          (seen key) := by
  let := Reference.platform (fun _ => .error "unsupported")
  let := startedProcess
  have begun : MasterRun 0 (Coordinator.emptyServer 0) 0 ⟨Coordinator.emptyServer 0, none, resting⟩ := .start
  have run := begun.groups emptyServer_fresh rfl acceptEverything [.command ["SET", "a", "1"]]
    (by decide +kernel)
  obtain ⟨server, concluded, sequence⟩ : ∃ server : Coordinator.Server,
      MasterRun 0 (Coordinator.emptyServer 0) 0 ⟨server, none, resting⟩ ∧ server.runtime.replOffset = 1 :=
    ⟨_, run, by decide +kernel⟩
  have dumped := concluded.dumps
  rw [sequence] at dumped
  have observes : Observes 0 ⟨server, none, Function.update resting 1 (.dumped 1)⟩ .fullSync 1 _ :=
    @Observes.fullSync _ _ _ 1 1 (Function.update_self 1 _ resting)
  exact ⟨_, _, dumped, observes, observers_see_acknowledged emptyServer_fresh dumped observes (fun _ => unfenced)⟩

theorem looked_fresh :
    letI := Reference.platform parseZero
    Fresh 0 looked := ⟨fun _ => rfl, rfl, rfl, rfl⟩

/-- A client reads negative zero where the acknowledged batches have stored zero. -/
theorem client_reads_negative_zero :
    letI := Reference.platform parseZero
    letI := startedProcess
    ∃ master seen, MasterRun 0 looked 0 master ∧ Observes 0 master .client 2 seen ∧
      master.server.runtime.published = numbered 0 [zeroBatch, setBatch] ∧
      seen [107] ≠
        visible 0 (Expiring.replay (looked.store.view 0) ([zeroBatch, setBatch].flatMap batchWrites)) [107] := by
  let := Reference.platform parseZero
  let := startedProcess
  have begun : MasterRun 0 looked 0 ⟨looked, none, resting⟩ := .start
  have stored := begun.groups looked_fresh rfl acceptEverything [setZero "0.0"] (by decide +kernel)
  have replaced := stored.groups looked_fresh (by decide +kernel) acceptEverything
    [setZero "-0.0", .command ["SET", "a", "1"]] (by decide +kernel)
  obtain ⟨server, published, concluded, sequence, printed⟩ : ∃ server : Coordinator.Server,
      server.runtime.published = [(1, zeroBatch), (2, setBatch)] ∧
        MasterRun 0 looked 0 ⟨server, none, resting⟩ ∧ server.runtime.replOffset = 2 ∧
        printedImage (server.store.view 0 [107]) = 4 :=
    ⟨_, looked_zeros, replaced, by decide +kernel, by decide +kernel⟩
  have observes := @Observes.client _ 0 ⟨server, none, Function.update resting 1 .reading⟩ 1
    (Function.update_self 1 _ resting)
  rw [sequence] at observes
  refine ⟨_, _, concluded.reads, observes, published, ?_⟩
  intro same
  have shorter : printedImage (server.store.view 0 [107]) = 3 := by
    rw [same]
    decide +kernel
  rw [shorter] at printed
  cases printed

/-- Storage does not know whether it has a record. -/
def unknownOutcome : AppendBatches := fun _ _ => .error { message := "unknown outcome", indeterminate := true }

/-- After a group of unknown outcome a full synchronization ships its key. -/
theorem fullSync_ships_tentative :
    letI := Reference.platform parseZero
    letI := startedProcess
    ∃ master seen, MasterRun 0 looked 0 master ∧ Observes 0 master .fullSync 0 seen ∧
      master.server.runtime.published = [] ∧ (seen [97]).isSome = true := by
  let := Reference.platform parseZero
  let := startedProcess
  have begun : MasterRun 0 looked 0 ⟨looked, none, resting⟩ := .start
  obtain ⟨retained, lost⟩ := @MasterRun.group _ _ _ _ _ _ _ 0 begun (fun _ => rfl) rfl
    (fun other _ => resting_free other) rfl unknownOutcome [.command ["SET", "a", "1"]]
  obtain ⟨server, stopped, sequence, published, shown⟩ : ∃ server : Coordinator.Server,
      MasterRun 0 looked 0 ⟨server, retained, resting⟩ ∧ server.runtime.replOffset = 0 ∧
        server.runtime.published = [] ∧
        (visible 0 (History.listed server.store.rawEntries.1) [97]).isSome = true :=
    ⟨_, lost, by decide +kernel, by decide +kernel, by decide +kernel⟩
  have dumped := stopped.dumps
  rw [sequence] at dumped
  exact ⟨_, _, dumped, @Observes.fullSync _ _ _ 1 0 (Function.update_self 1 _ resting), published, shown⟩

/-- An observer that has other values before it than the acknowledged batches make: a client, of two equal numbers the
one that a group without a batch for it has stored, and a full synchronization, once fail-stop has given the write gate
back, a group of which nobody knows whether storage has it. -/
theorem observers_differ :
    letI := Reference.platform parseZero
    letI := startedProcess
    (∃ master seen, MasterRun 0 looked 0 master ∧ Observes 0 master .client 2 seen ∧
      master.server.runtime.published = numbered 0 [zeroBatch, setBatch] ∧
      seen [107] ≠
        visible 0 (Expiring.replay (looked.store.view 0) ([zeroBatch, setBatch].flatMap batchWrites)) [107]) ∧
    (∃ master seen, MasterRun 0 looked 0 master ∧ Observes 0 master .fullSync 0 seen ∧
      master.server.runtime.published = [] ∧ (seen [97]).isSome = true) :=
  ⟨client_reads_negative_zero, fullSync_ships_tentative⟩

end OnyxDB.Replication.Observers
