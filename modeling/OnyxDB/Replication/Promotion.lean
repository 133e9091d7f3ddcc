import OnyxDB.Replication.Node

/-! Promotion is a boundary that is crossed once. Every task that acts for an upstream looks at the
flags after it has the gate, and promotion changes them before it gives the gate up; so whatever was
waiting when a promotion commits is turned away. -/

namespace OnyxDB.Replication
open OnyxDB.Library OnyxDB.Engine OnyxDB.Engine.Value OnyxDB.Store OnyxDB.Persistence
  OnyxDB.Persistence.Commit OnyxDB.Persistence.Model OnyxDB.Persistence.Writing
  OnyxDB.Persistence.Lifecycle

section Histories

/-- What a store should hold: the content at the sequence `start`, and the batches accepted since. -/
structure History where
  origin : Bytes → Option PersistentEntry
  start : Nat
  batches : List CommittedBatch

namespace History

/-- The sequence of the last batch. -/
def sequence (history : History) : Nat := history.start + history.batches.length

def content (history : History) : Bytes → Option PersistentEntry :=
  Expiring.replay history.origin (history.batches.flatMap batchWrites)

/-- The content of a list of entries, the last one of a key counting. -/
def listed (entries : List (Bytes × DataEntry)) : Bytes → Option PersistentEntry :=
  Expiring.replay (fun _ => none) (entries.map (fun entry => (entry.1, some (.ofDataEntry entry.2))))

/-- What a process starts with. -/
def opening (server : Server) : History where
  origin := fun key => (server.store.engine.lookup key).map .ofDataEntry
  start := server.sequence
  batches := []

def extend (history : History) (batches : List CommittedBatch) : History :=
  { history with batches := history.batches ++ batches }

theorem sequence_extend (history : History) (batches : List CommittedBatch) :
    (history.extend batches).sequence = history.sequence + batches.length := by
  rw [sequence, sequence, extend, List.length_append, Nat.add_assoc]

theorem content_extend (history : History) (batches : List CommittedBatch) :
    (history.extend batches).content =
      Expiring.replay history.content (batches.flatMap batchWrites) := by
  rw [content, content, extend, List.flatMap_append, Expiring.replay_append]

end History

/-- The store shows a content at every time that none of the readings since `clock` has passed. -/
structure Agrees (clock : Clock) (content : Bytes → Option PersistentEntry) (store : ShardedStore) :
    Prop where
  leads : clock.Leads store.engine.clock
  view : ∀ time, clock.Upto store.engine.clock time → store.view time = visible time content

theorem Agrees.writes {clock : Clock} {content : Bytes → Option PersistentEntry}
    {store after : ShardedStore}
    (agrees : Agrees clock content store) {writes : List (Expiring.Write Bytes PersistentEntry)}
    (written : Writes store after writes) : Agrees clock (Expiring.replay content writes) after := by
  refine ⟨agrees.leads.trans written.leads, ?_⟩
  intro time upto
  rw [written.view time (upto.rest agrees.leads), agrees.view time (upto.start written.leads),
    visible_replay_visible le_rfl]

variable [Platform]

namespace History

def note (history : History) : Event → History
  | .accepted batch => history.extend [batch]
  | .replaced baseline => ⟨listed baseline.entries, baseline.identity.baselineSequence, []⟩
  | .written batches => history.extend batches
  | _ => history

/-- The history after a run. -/
def after (history : History) (events : List Event) : History := events.foldl note history

theorem after_snoc (history : History) (events : List Event) (event : Event) :
    history.after (events ++ [event]) = (history.after events).note event := by
  rw [after, List.foldl_append]
  rfl

end History

/-- A store that is replaced shows the entries, whatever it held. -/
theorem agrees_replaceAll {clock : Clock} {store : ShardedStore}
    (leads : clock.Leads store.engine.clock) (entries : List (Bytes × DataEntry)) :
    Agrees clock (History.listed entries) (store.replaceAll entries) := by
  refine ⟨leads.trans (replaceAll_leads store entries), ?_⟩
  intro time _
  have slots : (store.replaceAll entries).engine.lookup =
      Expiring.replay (fun _ => none) (entries.map (fun entry => (entry.1, some entry.2))) :=
    (store.engine.replaceAll_lookup entries).2
  have persistent := Expiring.replay_shape (Option.map PersistentEntry.ofDataEntry) (fun _ => none)
    (entries.map (fun entry => (entry.1, some entry.2)))
  rw [List.map_map] at persistent
  funext key
  calc
    (store.replaceAll entries).view time key
      = shown time ((store.replaceAll entries).engine.lookup key) := rfl
    _ = visible time (History.listed entries) key := by
      rw [shown_eq_live, slots]
      exact congrArg (Expiring.live (fun time entry => entry.expired time) time)
        (congrFun persistent key)

end Histories

section OneWay

/-- A holder that has not looked at the flags yet. -/
def Holder.Waiting : Holder → Prop
  | .reception _ stage => stage = .entered
  | .effect _ _ stage => stage = .entered
  | .install _ stage => stage = .entered
  | .promotion stage => stage = .entered
  | .finalization _ stage => stage = .entered

/-- A node that has left its upstream for good. -/
structure Detached (state : State) : Prop where
  promoted : state.2.promoteToMaster = true
  unready : state.2.replicationReady = false
  unnamed : state.2.upstreamReplid = 0
  waiting : ∀ holder ∈ state.2.holder, holder.Waiting
  marked : state.1.replicaState = some (durableReplicaState .detached)

/-- The flags and the marker are kept, and the gate is free or goes to a task that has yet to look. -/
theorem Detached.keep {state after : State} (detached : Detached state)
    (promoted : after.2.promoteToMaster = state.2.promoteToMaster)
    (ready : after.2.replicationReady = false)
    (named : after.2.upstreamReplid = state.2.upstreamReplid)
    (marked : after.1.replicaState = state.1.replicaState)
    (waiting : ∀ holder ∈ after.2.holder, holder.Waiting) : Detached after :=
  ⟨promoted.trans detached.promoted, ready, named.trans detached.unnamed, waiting,
    marked.trans detached.marked⟩

theorem waiting_none : ∀ holder ∈ (none : Option Holder), holder.Waiting := by
  intro holder member
  cases member

theorem waiting_some {holder : Holder} (waiting : holder.Waiting) :
    ∀ other ∈ some holder, other.Waiting := by
  intro other member
  cases member
  exact waiting

theorem Detached.reception {state after : State} (detached : Detached state)
    (step : ReceptionStep state after) : Detached after := by
  have ready := detached.unready
  cases step with
  | enter replid free linked => exact detached.keep rfl ready rfl rfl (waiting_some rfl)
  | refuse owned refused => exact detached.keep rfl ready rfl rfl waiting_none
  | check owned unpromoted wanted accepting =>
      rw [detached.promoted] at unpromoted
      cases unpromoted
  | write bytes owned => cases detached.waiting _ owned
  | rename owned => cases detached.waiting _ owned
  | fail owned => exact detached.keep rfl rfl rfl rfl waiting_none
  | unready owned => cases detached.waiting _ owned
  | finish owned => cases detached.waiting _ owned

theorem Detached.promotion {state after : State} {event : Event} (detached : Detached state)
    (step : PromotionStep state event after) : Detached after ∧ ¬event.OfUpstream := by
  have unready := detached.unready
  cases step with
  | prepare free ready => exact ⟨detached.keep rfl unready rfl rfl detached.waiting, id⟩
  | enter free visible => exact ⟨detached.keep rfl unready rfl rfl (waiting_some rfl), id⟩
  | refuse owned refused => exact ⟨detached.keep rfl unready rfl rfl waiting_none, id⟩
  | check owned ready =>
      rw [unready] at ready
      cases ready
  | write bytes owned => cases detached.waiting _ owned
  | rename owned => cases detached.waiting _ owned
  | fail owned => exact ⟨detached.keep rfl unready rfl rfl waiting_none, id⟩
  | lose owned => cases detached.waiting _ owned
  | unname owned => cases detached.waiting _ owned
  | unready owned => cases detached.waiting _ owned
  | promote owned => cases detached.waiting _ owned
  | finish owned => cases detached.waiting _ owned

theorem Detached.finalization {state after : State} {event : Event} (detached : Detached state)
    (step : FinalizationStep state event after) : Detached after ∧ ¬event.OfUpstream := by
  have ready := detached.unready
  cases step with
  | enter free visible installed => exact ⟨detached.keep rfl ready rfl rfl (waiting_some rfl), id⟩
  | load owned followed => exact absurd detached.unnamed followed
  | write bytes owned => cases detached.waiting _ owned
  | rename owned => cases detached.waiting _ owned
  | fail owned => exact ⟨detached.keep rfl ready rfl rfl waiting_none, id⟩
  | lose owned => exact ⟨detached.keep rfl ready rfl rfl waiting_none, id⟩
  | finish owned => exact ⟨detached.keep rfl ready rfl rfl waiting_none, id⟩

theorem Detached.ambient {state after : State} (detached : Detached state)
    (step : AmbientStep state after) : Detached after := by
  have ready := detached.unready
  cases step with
  | disconnect present between => exact detached.keep rfl ready rfl rfl detached.waiting
  | resume linked known between => exact detached.keep rfl ready rfl rfl detached.waiting
  | refuseWrites => exact detached.keep rfl ready rfl rfl detached.waiting
  | unready => exact detached.keep rfl rfl rfl rfl detached.waiting
  | requestStop => exact detached.keep rfl ready rfl rfl detached.waiting
  | failStop free visible => exact detached.keep rfl ready rfl rfl waiting_none

variable [Platform] {upstreams : Upstreams}

theorem Detached.effect {state after : State} {event : Event} (detached : Detached state)
    (step : EffectStep upstreams state event after) : Detached after ∧ ¬event.OfUpstream := by
  have unready := detached.unready
  cases step with
  | enter free visible linked sent => exact ⟨detached.keep rfl unready rfl rfl (waiting_some rfl), id⟩
  | refuse owned refused => exact ⟨detached.keep rfl unready rfl rfl waiting_none, id⟩
  | check owned accepting ready next room =>
      rw [unready] at ready
      cases ready
  | accept owned opened => cases detached.waiting _ owned
  | reject owned => cases detached.waiting _ owned
  | lose owned opened cut => cases detached.waiting _ owned
  | apply owned => cases detached.waiting _ owned
  | interrupt owned armed => exact absurd (detached.waiting _ owned) armed

theorem Detached.install {state after : State} {event : Event} (detached : Detached state)
    (step : InstallCallStep upstreams state event after) : Detached after ∧ ¬event.OfUpstream := by
  have ready := detached.unready
  cases step with
  | enter free visible idle linked identified offered =>
      exact ⟨detached.keep rfl ready rfl rfl (waiting_some rfl), id⟩
  | refuse owned refused => exact ⟨detached.keep rfl ready rfl rfl waiting_none, id⟩
  | check owned unpromoted wanted accepting =>
      rw [detached.promoted] at unpromoted
      cases unpromoted
  | file owned early files => cases detached.waiting _ owned
  | mark owned files => cases detached.waiting _ owned
  | fail owned early => cases detached.waiting _ owned
  | lose owned => cases detached.waiting _ owned
  | replace owned => cases detached.waiting _ owned
  | base owned => cases detached.waiting _ owned
  | name owned => cases detached.waiting _ owned
  | ready owned => cases detached.waiting _ owned

theorem Detached.maintenance {state after : State} (detached : Detached state)
    (step : MaintenanceStep state after) : Detached after := by
  have ready := detached.unready
  cases step with
  | exclusive free visible runs ongoing => exact detached.keep rfl ready rfl rfl detached.waiting
  | shared beside runs unguarded ongoing => exact detached.keep rfl ready rfl rfl detached.waiting
  | observe ages => exact detached.keep rfl ready rfl rfl detached.waiting
  | fail writing begun unfinished => exact detached.keep rfl ready rfl rfl detached.waiting
  | restore displaced => exact detached.keep rfl ready rfl rfl detached.waiting

theorem Detached.master {state after : State} {event : Event} (detached : Detached state)
    (step : MasterStep state event after) : Detached after ∧ ¬event.OfUpstream := by
  have ready := detached.unready
  cases step with
  | commit group free visible master accepting opened room =>
      exact ⟨detached.keep rfl ready rfl rfl detached.waiting, id⟩
  | reject free visible master => exact ⟨detached.keep rfl rfl rfl rfl waiting_none, id⟩
  | lose group free visible master cut => exact ⟨detached.keep rfl rfl rfl rfl waiting_none, id⟩

/-- A detached node stays detached and does nothing for an upstream. -/
theorem Detached.step {state after : State} {event : Event} (detached : Detached state)
    (step : NodeStep upstreams state event after) : Detached after ∧ ¬event.OfUpstream := by
  cases step with
  | reception step => exact ⟨detached.reception step, id⟩
  | effect step => exact detached.effect step
  | install step => exact detached.install step
  | promotion step => exact detached.promotion step
  | finalization step => exact detached.finalization step
  | maintenance step => exact ⟨detached.maintenance step, id⟩
  | master step => exact detached.master step
  | ambient step => exact ⟨detached.ambient step, id⟩

theorem Detached.run {state after : State} {events : List Event} (detached : Detached state)
    (run : NodeRun upstreams state events after) :
    Detached after ∧ ∀ event ∈ events, ¬event.OfUpstream := by
  induction run with
  | refl => exact ⟨detached, by simp⟩
  | step run next before =>
      obtain ⟨still, earlier⟩ := before
      obtain ⟨then_, last⟩ := still.step next
      refine ⟨then_, ?_⟩
      intro event member
      rcases List.mem_append.mp member with old | new
      · exact earlier event old
      · rw [List.mem_singleton.mp new]
        exact last

end OneWay

section Exactness

/-- The store holds exactly the batches up to the sequence of the server. -/
structure Exact (clock : Clock) (history : History) (server : Server) : Prop where
  sequence : server.sequence = history.sequence
  agrees : Agrees clock history.content server.store

/-- What has been made of the marker and the flags at each stage of a promotion. -/
def Leaving (directory : ReplicaDirectory) (node : Node) : PromotionStage → Prop
  | .entered | .checked => True
  | .detached => directory.replicaState = some (durableReplicaState .detached)
  | .unnamed => directory.replicaState = some (durableReplicaState .detached) ∧ node.upstreamReplid = 0
  | .unready => directory.replicaState = some (durableReplicaState .detached) ∧
      node.upstreamReplid = 0 ∧ node.replicationReady = false
  | .promoted => directory.replicaState = some (durableReplicaState .detached) ∧
      node.upstreamReplid = 0 ∧ node.replicationReady = false ∧ node.promoteToMaster = true

/-- The store and the history of a node, by what the owner of the gate is about. An accepted effect is
missing in the store until it is applied; a baseline is in the store before its sequence is. -/
def Consistent (clock : Clock) (history : History) (directory : ReplicaDirectory) (node : Node) : Prop :=
  match node.holder with
  | none | some (.reception _ _) => node.failStopped = true ∨ Exact clock history node.server
  | some (.effect sequence _ .checked) => node.failStopped = false ∧
      Exact clock history node.server ∧ sequence = node.server.sequence + 1
  | some (.effect _ batch .accepted) => node.failStopped = false ∧
      ∃ earlier, history = History.extend earlier [batch] ∧ node.server.sequence = history.sequence ∧
        Agrees clock earlier.content node.server.store
  | some (.install baseline .replaced) => node.failStopped = false ∧
      history.sequence = baseline.identity.baselineSequence ∧
      Agrees clock history.content node.server.store
  | some (.promotion stage) => node.failStopped = false ∧ Exact clock history node.server ∧
      Leaving directory node stage
  | some (.effect _ _ _) | some (.install _ _) | some (.finalization _ _) =>
      node.failStopped = false ∧ Exact clock history node.server

theorem Agrees.rest {clock : Clock} {content : Bytes → Option PersistentEntry} {store after : ShardedStore}
    (agrees : Agrees clock content store) (written : Writes store after []) :
    Agrees clock content after := by
  have still := agrees.writes written
  rw [Expiring.replay_nil] at still
  exact still

theorem Exact.rest {clock : Clock} {history : History} {server after : Server}
    (exact_ : Exact clock history server) (written : Writes server.store after.store [])
    (sequence : after.sequence = server.sequence) : Exact clock history after :=
  ⟨sequence.trans exact_.sequence, exact_.agrees.rest written⟩

/-- What goes on beside the owner of the gate. -/
theorem Consistent.beside {clock : Clock} {history : History} {directory other : ReplicaDirectory}
    {node after : Node} (consistent : Consistent clock history directory node)
    (holder : after.holder = node.holder) (stopped : after.failStopped = node.failStopped)
    (written : Writes node.server.store after.server.store [])
    (sequence : after.server.sequence = node.server.sequence)
    (marked : other.replicaState = directory.replicaState)
    (named : after.upstreamReplid = node.upstreamReplid)
    (ready : node.replicationReady = false → after.replicationReady = false)
    (promoted : after.promoteToMaster = node.promoteToMaster) :
    Consistent clock history other after := by
  have still : Exact clock history node.server → Exact clock history after.server :=
    fun exact_ => exact_.rest written sequence
  unfold Consistent at consistent ⊢
  rw [holder, stopped]
  match node.holder, consistent with
  | none, consistent => exact consistent.imp id still
  | some (.reception _ _), consistent => exact consistent.imp id still
  | some (.effect _ batch .accepted), ⟨running, earlier, same, number, agrees⟩ =>
      exact ⟨running, earlier, same, sequence.trans number, agrees.rest written⟩
  | some (.effect _ _ .entered), ⟨running, exact_⟩ => exact ⟨running, still exact_⟩
  | some (.effect _ _ .checked), ⟨running, exact_, next⟩ =>
      exact ⟨running, still exact_, by rw [sequence, next]⟩
  | some (.install baseline .replaced), ⟨running, number, agrees⟩ =>
      exact ⟨running, number, agrees.rest written⟩
  | some (.install baseline .entered), ⟨running, exact_⟩ => exact ⟨running, still exact_⟩
  | some (.install baseline (.filing _)), ⟨running, exact_⟩ => exact ⟨running, still exact_⟩
  | some (.install baseline .based), ⟨running, exact_⟩ => exact ⟨running, still exact_⟩
  | some (.install baseline .named), ⟨running, exact_⟩ => exact ⟨running, still exact_⟩
  | some (.finalization _ _), ⟨running, exact_⟩ => exact ⟨running, still exact_⟩
  | some (.promotion stage), ⟨running, exact_, leaving⟩ =>
      refine ⟨running, still exact_, ?_⟩
      unfold Leaving at leaving ⊢
      rw [marked, named, promoted]
      match stage, leaving with
      | .entered, _ => trivial
      | .checked, _ => trivial
      | .detached, leaving => exact leaving
      | .unnamed, leaving => exact leaving
      | .unready, ⟨detached, unnamed, unready⟩ => exact ⟨detached, unnamed, ready unready⟩
      | .promoted, ⟨detached, unnamed, unready, promoted⟩ =>
          exact ⟨detached, unnamed, ready unready, promoted⟩

section Steps
variable {clock : Clock} {history : History} {directory other : ReplicaDirectory} {node after : Node}
  {event : Event}

theorem Consistent.reception (consistent : Consistent clock history directory node)
    (step : ReceptionStep (directory, node) (other, after)) :
    Consistent clock history other after := by
  unfold Consistent at consistent ⊢
  cases step with
  | enter replid free linked =>
      rw [free] at consistent
      exact consistent
  | refuse owned refused =>
      rw [owned] at consistent
      exact consistent
  | check owned unpromoted wanted accepting =>
      rw [owned] at consistent
      exact consistent
  | write bytes owned =>
      rw [owned] at consistent ⊢
      exact consistent
  | rename owned =>
      rw [owned] at consistent
      exact consistent
  | fail owned =>
      rcases owned with owned | owned
      · rw [owned] at consistent
        exact consistent
      · rw [owned] at consistent
        exact consistent
  | unready owned =>
      rw [owned] at consistent
      exact consistent
  | finish owned =>
      rw [owned] at consistent
      exact consistent

theorem Consistent.ambient (consistent : Consistent clock history directory node)
    (step : AmbientStep (directory, node) (other, after)) : Consistent clock history other after := by
  have quiet := Writes.refl node.server.store
  cases step with
  | disconnect present between => exact consistent.beside rfl rfl quiet rfl rfl rfl id rfl
  | resume linked known between => exact consistent.beside rfl rfl quiet rfl rfl rfl id rfl
  | refuseWrites => exact consistent.beside rfl rfl quiet rfl rfl rfl id rfl
  | unready => exact consistent.beside rfl rfl quiet rfl rfl rfl (fun _ => rfl) rfl
  | requestStop => exact consistent.beside rfl rfl quiet rfl rfl rfl id rfl
  | failStop free visible => exact Or.inl rfl

variable [Platform] {upstreams : Upstreams}

theorem Consistent.promotion (consistent : Consistent clock history directory node)
    (step : PromotionStep (directory, node) event (other, after)) :
    Consistent clock (history.note event) other after := by
  unfold Consistent at consistent ⊢
  cases step with
  | prepare free ready =>
      rw [free] at consistent ⊢
      exact consistent
  | enter free visible =>
      rw [free] at consistent
      exact ⟨visible, consistent.resolve_left (by simp [visible]), trivial⟩
  | refuse owned unready =>
      rw [owned] at consistent
      exact Or.inr consistent.2.1
  | check owned ready =>
      rw [owned] at consistent
      exact consistent
  | write bytes owned =>
      rw [owned] at consistent ⊢
      exact consistent
  | rename owned =>
      rw [owned] at consistent
      exact ⟨consistent.1, consistent.2.1, rfl⟩
  | fail owned =>
      rcases owned with owned | owned
      · rw [owned] at consistent
        exact Or.inr consistent.2.1
      · rw [owned] at consistent
        exact Or.inr consistent.2.1
  | lose owned => exact Or.inl rfl
  | unname owned =>
      rw [owned] at consistent
      exact ⟨consistent.1, consistent.2.1, consistent.2.2, rfl⟩
  | unready owned =>
      rw [owned] at consistent
      exact ⟨consistent.1, consistent.2.1, consistent.2.2.1, consistent.2.2.2, rfl⟩
  | promote owned =>
      rw [owned] at consistent
      obtain ⟨running, exact_, detached, unnamed, unready⟩ := consistent
      exact ⟨running, exact_, detached, unnamed, unready, rfl⟩
  | finish owned =>
      rw [owned] at consistent
      exact Or.inr consistent.2.1

theorem Consistent.finalization (consistent : Consistent clock history directory node)
    (step : FinalizationStep (directory, node) event (other, after)) :
    Consistent clock (history.note event) other after := by
  unfold Consistent at consistent ⊢
  cases step with
  | enter free visible installed =>
      rw [free] at consistent
      exact ⟨visible, consistent.resolve_left (by simp [visible])⟩
  | load owned followed =>
      rw [owned] at consistent
      exact consistent
  | write bytes owned =>
      rw [owned] at consistent ⊢
      exact consistent
  | rename owned =>
      rw [owned] at consistent
      exact consistent
  | fail owned =>
      rw [owned] at consistent
      exact Or.inr ⟨consistent.2.sequence, consistent.2.agrees⟩
  | lose owned => exact Or.inl rfl
  | finish owned =>
      rcases owned with ⟨owned, _⟩ | owned
      · rw [owned] at consistent
        exact Or.inr ⟨consistent.2.sequence, consistent.2.agrees⟩
      · rw [owned] at consistent
        exact Or.inr ⟨consistent.2.sequence, consistent.2.agrees⟩

theorem Consistent.effect (consistent : Consistent clock history directory node)
    (step : EffectStep upstreams (directory, node) event (other, after)) :
    Consistent clock (history.note event) other after := by
  unfold Consistent at consistent ⊢
  cases step with
  | enter free visible linked sent =>
      rw [free] at consistent
      exact ⟨visible, consistent.resolve_left (by simp [visible])⟩
  | refuse owned refused =>
      rw [owned] at consistent
      exact Or.inr consistent.2
  | check owned accepting ready next room =>
      rw [owned] at consistent
      exact ⟨consistent.1, consistent.2, next⟩
  | @accept _ _ sequence batch owned opened =>
      rw [owned] at consistent
      obtain ⟨running, exact_, next⟩ := consistent
      refine ⟨running, history, rfl, ?_, exact_.agrees⟩
      show sequence = (history.extend [batch.batch]).sequence
      rw [History.sequence_extend, next, exact_.sequence]
      rfl
  | reject owned =>
      rw [owned] at consistent
      exact Or.inr consistent.2.1
  | lose owned opened cut => exact Or.inl rfl
  | @apply _ _ _ batch owned =>
      rw [owned] at consistent
      obtain ⟨running, earlier, same, number, agrees⟩ := consistent
      refine Or.inr ⟨number, ?_⟩
      have written := agrees.writes (applyCommittedBatch_writes node.server.store batch)
      show Agrees clock history.content _
      rw [same, History.content_extend, List.flatMap_singleton]
      exact written
  | interrupt owned armed => exact Or.inl rfl

theorem Consistent.install (consistent : Consistent clock history directory node)
    (step : InstallCallStep upstreams (directory, node) event (other, after)) :
    Consistent clock (history.note event) other after := by
  unfold Consistent at consistent ⊢
  cases step with
  | enter free visible idle linked identified offered =>
      rw [free] at consistent
      exact ⟨visible, consistent.resolve_left (by simp [visible])⟩
  | refuse owned refused =>
      rw [owned] at consistent
      exact Or.inr consistent.2
  | check owned unpromoted wanted accepting =>
      rw [owned] at consistent
      exact consistent
  | file owned early files =>
      rw [owned] at consistent
      exact consistent
  | mark owned files =>
      rw [owned] at consistent
      exact consistent
  | fail owned early =>
      rw [owned] at consistent
      exact Or.inr consistent.2
  | lose owned => exact Or.inl rfl
  | replace owned =>
      rw [owned] at consistent
      exact ⟨consistent.1, rfl, agrees_replaceAll consistent.2.agrees.leads _⟩
  | base owned =>
      rw [owned] at consistent
      exact ⟨consistent.1, consistent.2.1.symm, consistent.2.2⟩
  | name owned =>
      rw [owned] at consistent
      exact consistent
  | ready owned =>
      rw [owned] at consistent
      exact Or.inr consistent.2

theorem Consistent.maintenance (consistent : Consistent clock history directory node)
    (step : MaintenanceStep (directory, node) (other, after)) :
    Consistent clock history other after := by
  cases step with
  | exclusive free visible runs ongoing =>
      obtain ⟨written, sequence⟩ := runs_writes_nothing runs
      exact consistent.beside rfl rfl written sequence rfl rfl id rfl
  | shared beside runs unguarded ongoing =>
      obtain ⟨written, sequence⟩ := runs_writes_nothing runs
      exact consistent.beside rfl rfl written sequence rfl rfl id rfl
  | observe ages =>
      have runs : Runs (directory.toDirectory, node.server) (directory.toDirectory, { node.server with
        store := _ }) := .observe ages
      exact consistent.beside rfl rfl (runs_writes_nothing runs).1 rfl rfl rfl id rfl
  | fail writing begun unfinished =>
      exact consistent.beside rfl rfl (Writes.refl _) rfl rfl rfl id rfl
  | restore displaced => exact consistent.beside rfl rfl (Writes.refl _) rfl rfl rfl id rfl

theorem encodedGroup_writes (store : ShardedStore) (group : List EncodedBatch) :
    Writes store (group.foldl (fun store encoded => applyCommittedBatch store encoded.batch) store)
      ((group.map EncodedBatch.batch).flatMap batchWrites) := by
  induction group generalizing store with
  | nil => exact Writes.refl store
  | cons encoded group rest =>
      exact (applyCommittedBatch_writes store encoded.batch).trans (rest _)

theorem Consistent.master (consistent : Consistent clock history directory node)
    (step : MasterStep (directory, node) event (other, after)) :
    Consistent clock (history.note event) other after := by
  unfold Consistent at consistent ⊢
  cases step with
  | commit group free visible master accepting opened room =>
      rw [free] at consistent ⊢
      obtain ⟨number, agrees⟩ := consistent.resolve_left (by simp [visible])
      refine Or.inr ⟨?_, ?_⟩
      · show node.server.sequence + group.length = (history.extend _).sequence
        rw [History.sequence_extend, List.length_map, number]
      · show Agrees clock (history.extend _).content _
        rw [History.content_extend]
        exact agrees.writes (encodedGroup_writes node.server.store group)
  | reject free visible master =>
      rw [free] at consistent
      exact consistent
  | lose group free visible master cut => exact Or.inl rfl

theorem Consistent.step {state after : State} (consistent : Consistent clock history state.1 state.2)
    (step : NodeStep upstreams state event after) :
    Consistent clock (history.note event) after.1 after.2 := by
  cases step with
  | reception step => exact consistent.reception step
  | effect step => exact consistent.effect step
  | install step => exact consistent.install step
  | promotion step => exact consistent.promotion step
  | finalization step => exact consistent.finalization step
  | maintenance step => exact consistent.maintenance step
  | master step => exact consistent.master step
  | ambient step => exact consistent.ambient step

end Steps

section Runs

theorem exact_opening (server : Server) :
    Exact server.store.engine.clock (.opening server) server := by
  refine ⟨rfl, Clock.Leads.refl _, ?_⟩
  intro time _
  funext key
  exact shown_eq_live time (server.store.engine.lookup key)

variable [Platform] {upstreams : Upstreams}

theorem consistent_of_run {server : Server} {identity : Option ReplicaIdentity}
    {configuredAsReplica : Bool} {start after : State} {events : List Event}
    (begun : start.2 = .start server identity configuredAsReplica)
    (run : NodeRun upstreams start events after) :
    Consistent server.store.engine.clock ((History.opening server).after events) after.1 after.2 := by
  induction run with
  | refl =>
      rw [begun]
      exact Or.inr (exact_opening server)
  | step run next before =>
      rw [History.after_snoc]
      exact before.step next

/-- A committed promotion has left the upstream, with the store as the accepted batches made it. -/
theorem promoted_detached {clock : Clock} {history : History} {before after : State}
    (consistent : Consistent clock history before.1 before.2)
    (commits : NodeStep upstreams before .promoted after) :
    Detached after ∧ Exact clock history after.2.server := by
  cases commits with
  | promotion step =>
      cases step with
      | finish owned =>
          unfold Consistent at consistent
          rw [owned] at consistent
          obtain ⟨_, exact_, marked, unnamed, unready, promoted⟩ := consistent
          exact ⟨⟨promoted, unready, unnamed, waiting_none, marked⟩, exact_⟩
  | effect step => cases step
  | install step => cases step
  | finalization step => cases step
  | master step => cases step

/-- When a promotion returns, the store holds exactly the batches up to its sequence; and whatever
happens from then on, nothing is done for an upstream any more. -/
theorem promotion_is_final (upstreams : Upstreams) (directory : ReplicaDirectory) (server : Server)
    (identity : Option ReplicaIdentity) (configuredAsReplica : Bool) (events : List Event)
    (before after : State)
    (run : NodeRun upstreams (directory, .start server identity configuredAsReplica) events before)
    (commits : NodeStep upstreams before .promoted after) :
    Exact server.store.engine.clock ((History.opening server).after events) after.2.server ∧
      ∀ laterEvents later, NodeRun upstreams after laterEvents later →
        (∀ event ∈ laterEvents, ¬event.OfUpstream) ∧ later.2.replicationReady = false ∧
          later.1.replicaState = some (durableReplicaState .detached) := by
  obtain ⟨detached, exact_⟩ := promoted_detached (consistent_of_run rfl run) commits
  refine ⟨exact_, ?_⟩
  intro laterEvents later afterwards
  obtain ⟨still, harmless⟩ := detached.run afterwards
  exact ⟨harmless, still.unready, still.marked⟩

end Runs

end Exactness

section Promotion

/-- A server of an empty store. -/
def emptyServer : Server where
  store := .new (.constant 0)
  sequence := 0
  snapshotWatermark := 0
  active := true
  compaction := none

/-- A replica that has applied one effect is promoted. -/
theorem replica_promoted_after_effect :
    letI := Reference.platform (fun _ => .error "unsupported")
    ∃ upstreams directory events before after,
      NodeRun upstreams (directory, .start emptyServer (some ⟨7, 0⟩) true) events before ∧
      NodeStep upstreams before .promoted after ∧ after.2.server.sequence = 1 ∧
      ((History.opening emptyServer).after events).batches = [loggedDeletion.batch] ∧
      Exact (.constant 0) ((History.opening emptyServer).after events) after.2.server ∧
      ∀ laterEvents later, NodeRun upstreams after laterEvents later →
        (∀ event ∈ laterEvents, ¬event.OfUpstream) ∧ later.2.replicationReady = false ∧
          later.1.replicaState = some (durableReplicaState .detached) := by
  let _ := Reference.platform (fun _ => .error "unsupported")
  let upstreams : Upstreams := ⟨fun _ _ _ => True, fun _ _ => True⟩
  have start : NodeRun upstreams ({}, .start emptyServer (some ⟨7, 0⟩) true) [] _ := .refl _
  have resumed := start.step (.ambient (.resume rfl (by decide) (by rintro _ ⟨⟩)))
  have entered := resumed.step (.effect (@EffectStep.enter _ _ _ _ 7 1 loggedDeletion.batch rfl rfl rfl trivial))
  have checked := entered.step (.effect (.check rfl rfl rfl rfl (by decide)))
  have accepted := checked.step (.effect (@EffectStep.accept _ _ _ _ 1 loggedDeletion.toEncodedBatch rfl rfl))
  have applied := accepted.step (.effect (.apply rfl))
  have asked := applied.step (.promotion (.prepare rfl rfl))
  have promoting := asked.step (.promotion (.enter rfl rfl))
  have allowed := promoting.step (.promotion (.check rfl rfl))
  have detached := allowed.step (.promotion (.rename rfl))
  have unnamed := detached.step (.promotion (.unname rfl))
  have unready := unnamed.step (.promotion (.unready rfl))
  have promoted := unready.step (.promotion (.promote rfl))
  exact ⟨upstreams, {}, _, _, _, promoted, .promotion (.finish rfl), rfl, rfl,
    promotion_is_final upstreams {} emptyServer (some ⟨7, 0⟩) true _ _ _ promoted
      (.promotion (.finish rfl))⟩

end Promotion

end OnyxDB.Replication
