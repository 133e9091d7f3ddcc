import OnyxDB.Library.Tasks
import OnyxDB.Maintenance.Runtime

/-! Ownership of automatic compactions, one atomic operation at a time.

Writers count their writes and then ask for a snapshot; the task that owns `compaction_pending` lowers
the count, moves the entry floor, gives the flag back and asks again. Nothing but the order of the
atomic operations keeps a crossing of the threshold from being lost between them. -/

namespace OnyxDB.Maintenance.Scheduling
open OnyxDB.Library.Tasks

structure Atomics where
  writeCount : Nat
  compactionEntryFloor : Nat
  physicalSegmentCount : Nat
  unsnapshottedSegmentCount : Nat
  segmentCleanupBlocked : Bool
  compactionPending : Bool
  deriving DecidableEq

/-- `request_snapshot_if_needed` before each of its atomic operations, with what it has loaded. -/
inductive RequestStage where
  | loadingPhysicalSegments
  | loadingCleanupBlocked
  | loadingWriteCount (physicalPressure : Bool)
  | loadingEntryFloor (physicalPressure : Bool) (writeCount : Nat)
  | loadingUnsnapshottedSegments (physicalPressure : Bool)
  | exchanging
  deriving DecidableEq

/-- The task that owns `compaction_pending`: its compaction lowers the count, then stores the entry
floor; `finish_compaction_schedule_and_rearm` comes last. -/
inductive OwnerStage where
  | scheduled
  | compacting
  | lowered
  | finishing
  deriving DecidableEq

/-- A writer stands at `adding` before `record_persisted_writes`; writers and finishing owners ask for a
snapshot in the same way. -/
inductive Stage where
  | idle
  | adding (count : Nat)
  | requesting (stage : RequestStage)
  | owning (stage : OwnerStage)
  deriving DecidableEq

structure State where
  atomics : Atomics
  stage : Nat → Stage

def Atomics.recordThreshold (atomics : Atomics) (minimum : Nat) : Nat := max minimum atomics.compactionEntryFloor

/-- One atomic operation of `request_snapshot_if_needed`. A request that wins the exchange is scheduled. -/
def request (threshold : Nat) (atomics : Atomics) : RequestStage → Atomics × Stage
  | .loadingPhysicalSegments =>
      (atomics, .requesting (if binlogSegmentSnapshotPressure ≤ atomics.physicalSegmentCount then
        .loadingCleanupBlocked else .loadingWriteCount false))
  | .loadingCleanupBlocked => (atomics, .requesting (.loadingWriteCount (!atomics.segmentCleanupBlocked)))
  | .loadingWriteCount pressure => (atomics, .requesting (.loadingEntryFloor pressure atomics.writeCount))
  | .loadingEntryFloor pressure writeCount =>
      (atomics, .requesting (if atomics.recordThreshold threshold ≤ writeCount then .exchanging
        else .loadingUnsnapshottedSegments pressure))
  | .loadingUnsnapshottedSegments pressure =>
      (atomics, if maxUnsnapshottedBinlogSegments ≤ atomics.unsnapshottedSegmentCount ∨ pressure = true then
        .requesting .exchanging else .idle)
  | .exchanging =>
      if atomics.compactionPending then (atomics, .idle)
      else ({ atomics with compactionPending := true }, .owning .scheduled)

/-- One step of the owning task. `value` is the count that its capture had seen, or the number of
entries of its snapshot. -/
def own (atomics : Atomics) (value : Nat) : OwnerStage → Atomics × Stage
  | .scheduled => (atomics, .owning .compacting)
  | .compacting => ({ atomics with writeCount := atomics.writeCount - value }, .owning .lowered)
  | .lowered => ({ atomics with compactionEntryFloor := value }, .owning .finishing)
  | .finishing => ({ atomics with compactionPending := false }, .requesting .loadingPhysicalSegments)

def advance (threshold : Nat) (atomics : Atomics) (value : Nat) : Stage → Option (Atomics × Stage)
  | .idle => none
  | .adding count =>
      some ({ atomics with writeCount := (atomics.writeCount + count) % 2 ^ 64 },
        .requesting .loadingPhysicalSegments)
  | .requesting stage => some (request threshold atomics stage)
  | .owning stage => some (own atomics value stage)

/-- `catalog` is what rollovers and catalog passes store beside the writers. -/
inductive Action where
  | write (task count : Nat)
  | advance (task value : Nat)
  | catalog (physicalSegmentCount unsnapshottedSegmentCount : Nat) (segmentCleanupBlocked : Bool)

def step (threshold : Nat) (state : State) : Action → Option State
  | .write task count =>
      if state.stage task = .idle then
        some { state with stage := Function.update state.stage task (.adding count) }
      else
        none
  | .advance task value =>
      (Scheduling.advance threshold state.atomics value (state.stage task)).map (fun (atomics, next) =>
        ⟨atomics, Function.update state.stage task next⟩)
  | .catalog physical unsnapshotted blocked =>
      some { state with atomics := { state.atomics with
        physicalSegmentCount := physical
        unsnapshottedSegmentCount := unsnapshotted
        segmentCleanupBlocked := blocked } }

/-- A server that starts with recovered counts and asks for maintenance. -/
def startup (atomics : Atomics) : State where
  atomics := { atomics with compactionPending := false }
  stage := fun task => if task = 0 then .requesting .loadingPhysicalSegments else .idle

def Stage.owns : Stage → Bool
  | .owning _ => true
  | _ => false

/-- A writer or a finisher is between its steps. -/
def Stage.asks : Stage → Bool
  | .requesting _ => true
  | _ => false

/-- A request that will meet a count at the threshold: it has yet to load the count, it has loaded one
at the threshold, or it has decided. -/
def Stage.promises (threshold : Nat) : Stage → Bool
  | .requesting .loadingPhysicalSegments | .requesting .loadingCleanupBlocked
  | .requesting (.loadingWriteCount _) | .requesting .exchanging => true
  | .requesting (.loadingEntryFloor _ writeCount) => decide (threshold ≤ writeCount)
  | _ => false

/-- The flag has one owner exactly while it is set, and while it is clear a crossing of the threshold has
a request that will meet it. -/
structure Watched (threshold : Nat) (state : State) : Prop where
  single : ∀ first second, (state.stage first).owns = true → (state.stage second).owns = true → first = second
  owned : state.atomics.compactionPending = true ↔ ∃ task, (state.stage task).owns = true
  promised : state.atomics.compactionPending = false →
    state.atomics.recordThreshold threshold ≤ state.atomics.writeCount →
    ∃ task, (state.stage task).promises (state.atomics.recordThreshold threshold) = true

section Steps
variable {threshold : Nat} {state : State} {task : Nat}

theorem promises_asks {stage : Stage} (promises : stage.promises threshold = true) : stage.asks = true := by
  unfold Stage.promises at promises
  split at promises <;> first | rfl | cases promises

theorem watched_startup (atomics : Atomics) : Watched threshold (startup atomics) := by
  have nobody : ∀ task, ((startup atomics).stage task).owns = false := by
    intro task
    simp only [startup]
    split <;> rfl
  constructor
  · intro first _ owns
    rw [nobody first] at owns
    cases owns
  · constructor
    · intro pending
      cases pending
    · rintro ⟨task, owns⟩
      rw [nobody task] at owns
      cases owns
  · exact fun _ _ => ⟨0, rfl⟩

/-- Owners are as before where the task that moves owns as before. -/
theorem owners_unchanged {next : Stage} (same : next.owns = (state.stage task).owns) (other : Nat) :
    (Function.update state.stage task next other).owns = (state.stage other).owns := by
  by_cases here : other = task
  · rw [here, Function.update_self, same]
  · rw [Function.update_of_ne here]

/-- A move that leaves the flag and its owner alone keeps the watch, once the crossings are covered. -/
theorem Watched.beside (watched : Watched threshold state) {atomics : Atomics} {next : Stage}
    (same : next.owns = (state.stage task).owns)
    (pending : atomics.compactionPending = state.atomics.compactionPending)
    (promised : atomics.compactionPending = false → atomics.recordThreshold threshold ≤ atomics.writeCount →
      ∃ other, (Function.update state.stage task next other).promises (atomics.recordThreshold threshold) = true) :
    Watched threshold ⟨atomics, Function.update state.stage task next⟩ := by
  have owners := owners_unchanged same
  constructor
  · intro first second left right
    rw [owners] at left right
    exact watched.single first second left right
  · rw [pending, watched.owned]
    simp only [owners]
  · exact promised

/-- A request that is left where it stands still promises. -/
theorem promised_beside (watched : Watched threshold state) {next : Stage}
    (clear : state.atomics.compactionPending = false)
    (crossed : state.atomics.recordThreshold threshold ≤ state.atomics.writeCount)
    (kept : (state.stage task).promises (state.atomics.recordThreshold threshold) = true →
      next.promises (state.atomics.recordThreshold threshold) = true) :
    ∃ other, (Function.update state.stage task next other).promises
      (state.atomics.recordThreshold threshold) = true := by
  obtain ⟨other, promises⟩ := watched.promised clear crossed
  refine ⟨other, ?_⟩
  by_cases here : other = task
  · rw [here, Function.update_self]
    rw [here] at promises
    exact kept promises
  · rw [Function.update_of_ne here]
    exact promises

/-- The task that moves promises from now on. -/
theorem promised_here {next : Stage} {bound : Nat} (promises : next.promises bound = true) :
    ∃ other, (Function.update state.stage task next other).promises bound = true := by
  refine ⟨task, ?_⟩
  rw [Function.update_self]
  exact promises

theorem watched_request (watched : Watched threshold state) {stage : RequestStage}
    (here : state.stage task = .requesting stage) :
    Watched threshold ⟨(request threshold state.atomics stage).1,
      Function.update state.stage task (request threshold state.atomics stage).2⟩ := by
  have idle : (state.stage task).owns = false := by
    rw [here]
    rfl
  cases stage with
  | loadingPhysicalSegments =>
      refine watched.beside idle.symm rfl (fun _ _ => promised_here ?_)
      simp only [request]
      split <;> rfl
  | loadingCleanupBlocked => exact watched.beside idle.symm rfl (fun _ _ => promised_here rfl)
  | loadingWriteCount pressure =>
      exact watched.beside idle.symm rfl (fun _ crossed => promised_here (decide_eq_true crossed))
  | loadingEntryFloor pressure writeCount =>
      refine watched.beside idle.symm rfl (fun clear crossed => promised_beside watched clear crossed ?_)
      intro promises
      rw [here] at promises
      simp only [request, if_pos (of_decide_eq_true promises)]
      rfl
  | loadingUnsnapshottedSegments pressure =>
      have same : (request threshold state.atomics (.loadingUnsnapshottedSegments pressure)).2.owns = false := by
        simp only [request]
        split <;> rfl
      refine watched.beside (same.trans idle.symm) rfl
        (fun clear crossed => promised_beside watched clear crossed ?_)
      intro promises
      rw [here] at promises
      cases promises
  | exchanging =>
      cases pending : state.atomics.compactionPending with
      | true =>
          simp only [request, pending, if_true]
          refine watched.beside idle.symm rfl (fun clear => ?_)
          rw [pending] at clear
          cases clear
      | false =>
          simp only [request, pending, Bool.false_eq_true, if_false]
          have nobody : ∀ other, (state.stage other).owns = false := by
            intro other
            cases owns : (state.stage other).owns with
            | false => rfl
            | true =>
                have set := watched.owned.mpr ⟨other, owns⟩
                rw [pending] at set
                cases set
          have only : ∀ other, (Function.update state.stage task (.owning .scheduled) other).owns = true →
              other = task := by
            intro other owns
            by_contra different
            rw [Function.update_of_ne different, nobody other] at owns
            cases owns
          constructor
          · intro first second left right
            rw [only first left, only second right]
          · refine ⟨fun _ => ⟨task, ?_⟩, fun _ => rfl⟩
            simp [Stage.owns]
          · intro clear
            cases clear

theorem watched_own (watched : Watched threshold state) {stage : OwnerStage} (value : Nat)
    (here : state.stage task = .owning stage) :
    Watched threshold ⟨(own state.atomics value stage).1,
      Function.update state.stage task (own state.atomics value stage).2⟩ := by
  have owns : (state.stage task).owns = true := by
    rw [here]
    rfl
  have pending := watched.owned.mpr ⟨task, owns⟩
  have vacuous : ∀ {goal : Prop}, state.atomics.compactionPending = false → goal := by
    intro goal clear
    rw [pending] at clear
    cases clear
  cases stage with
  | scheduled => exact watched.beside owns.symm rfl (fun clear => vacuous clear)
  | compacting => exact watched.beside owns.symm rfl (fun clear => vacuous clear)
  | lowered => exact watched.beside owns.symm rfl (fun clear => vacuous clear)
  | finishing =>
      have nobody : ∀ other, (Function.update state.stage task
          (.requesting .loadingPhysicalSegments) other).owns = false := by
        intro other
        by_cases same : other = task
        · rw [same, Function.update_self]
          rfl
        · rw [Function.update_of_ne same]
          cases also : (state.stage other).owns with
          | false => rfl
          | true => exact absurd (watched.single other task also owns) same
      constructor
      · intro first _ left
        rw [show (own state.atomics value .finishing).2 = .requesting .loadingPhysicalSegments from rfl,
          nobody first] at left
        cases left
      · constructor
        · intro set
          cases set
        · rintro ⟨other, also⟩
          rw [show (own state.atomics value .finishing).2 = .requesting .loadingPhysicalSegments from rfl,
            nobody other] at also
          cases also
      · exact fun _ _ => promised_here rfl

theorem watched_step (watched : Watched threshold state) {action : Action} {after : State}
    (stepped : step threshold state action = some after) : Watched threshold after := by
  cases action with
  | write task count =>
      simp only [step] at stepped
      split at stepped
      · rename_i idle
        cases stepped
        refine watched.beside (by rw [idle]; rfl) rfl
          (fun clear crossed => promised_beside watched clear crossed ?_)
        intro promises
        rw [idle] at promises
        cases promises
      · cases stepped
  | catalog physical unsnapshotted blocked =>
      cases stepped
      exact ⟨watched.single, watched.owned, watched.promised⟩
  | advance task value =>
      obtain ⟨⟨atomics, next⟩, advanced, rfl⟩ := Option.map_eq_some_iff.mp stepped
      cases here : state.stage task with
      | idle =>
          rw [here] at advanced
          cases advanced
      | adding count =>
          rw [here] at advanced
          cases advanced
          exact watched.beside (by rw [here]; rfl) rfl (fun _ _ => promised_here rfl)
      | requesting stage =>
          rw [here, advance, Option.some.injEq] at advanced
          have kept := watched_request watched here
          rw [advanced] at kept
          exact kept
      | owning stage =>
          rw [here, advance, Option.some.injEq] at advanced
          have kept := watched_own watched value here
          rw [advanced] at kept
          exact kept

/-- In every interleaving of writers and owners at most one task owns `compaction_pending`, and wherever
nobody is between its steps a count at the effective threshold has exactly one owner. -/
theorem run_crossing_owned {atomics : Atomics} {actions : List Action} {state : State}
    (ran : run (step threshold) (startup atomics) actions = some state) :
    (∀ first second, (state.stage first).owns = true → (state.stage second).owns = true → first = second) ∧
    ((∀ task, (state.stage task).asks = false) →
      state.atomics.recordThreshold threshold ≤ state.atomics.writeCount →
      state.atomics.compactionPending = true ∧ ∃! task, (state.stage task).owns = true) := by
  have always : ∀ (actions : List Action) (state : State),
      Along (step threshold) (fun _ _ => True) state actions := by
    intro actions
    induction actions with
    | nil => exact fun _ => trivial
    | cons action rest ih => exact fun state => ⟨trivial, fun after _ => ih after⟩
  have watched := run_keeps (Watched threshold) (fun _ _ _ watched _ stepped => watched_step watched stepped)
    actions (startup atomics) state (watched_startup atomics) (always actions _) ran
  refine ⟨watched.single, ?_⟩
  intro quiet crossed
  have pending : state.atomics.compactionPending = true := by
    cases pending : state.atomics.compactionPending with
    | true => rfl
    | false =>
        obtain ⟨task, promises⟩ := watched.promised pending crossed
        have asks := promises_asks promises
        rw [quiet task] at asks
        cases asks
  obtain ⟨task, owns⟩ := watched.owned.mp pending
  exact ⟨pending, task, owns, fun other also => watched.single other task also owns⟩

end Steps

/-- Two writers cross the threshold together while the owner of the first crossing gives the flag back
between their steps. -/
def crossingWriters : List Action :=
  [.advance 0 0, .advance 0 0, .advance 0 0, .advance 0 0,
    .write 1 3, .advance 1 0, .write 2 5, .advance 1 0, .advance 1 0, .advance 2 0, .advance 1 0,
    .advance 1 0, .advance 1 0, .advance 1 3, .advance 2 0, .advance 2 0, .advance 2 0, .advance 2 0,
    .advance 1 2, .advance 1 0, .advance 1 0, .advance 1 0, .advance 1 0, .advance 1 0]

def Action.task : Action → Option Nat
  | .write task _ | .advance task _ => some task
  | .catalog .. => none

/-- A task that no action names stays where it is. -/
theorem run_elsewhere {threshold task : Nat} : ∀ {actions : List Action} {state after : State},
    (∀ action ∈ actions, action.task ≠ some task) → run (step threshold) state actions = some after →
    after.stage task = state.stage task
  | [], _, _, _, ran => by
      cases ran
      rfl
  | action :: rest, state, after, unnamed, ran => by
      obtain ⟨middle, stepped, ran⟩ := Option.bind_eq_some_iff.mp ran
      have later := run_elsewhere (fun other member => unnamed other (List.mem_cons_of_mem _ member)) ran
      have here := unnamed action (List.mem_cons_self ..)
      rw [later]
      cases action with
      | write other count =>
          have different : task ≠ other := fun same => here (congrArg some same.symm)
          simp only [step] at stepped
          split at stepped <;> cases stepped
          exact Function.update_of_ne different ..
      | advance other value =>
          have different : task ≠ other := fun same => here (congrArg some same.symm)
          obtain ⟨_, _, rfl⟩ := Option.map_eq_some_iff.mp stepped
          exact Function.update_of_ne different ..
      | catalog =>
          cases stepped
          rfl

theorem crossingWriters_owned :
    ∃ state, run (step 3) (startup ⟨0, 0, 0, 0, false, false⟩) crossingWriters = some state ∧
      state.atomics.writeCount = 5 ∧ ∃! task, (state.stage task).owns = true := by
  have ran : (run (step 3) (startup ⟨0, 0, 0, 0, false, false⟩) crossingWriters).map (fun state =>
      (state.atomics, state.stage 0, state.stage 1, state.stage 2)) =
      some (⟨5, 2, 0, 0, false, true⟩, .idle, .owning .scheduled, .idle) := by
    decide
  obtain ⟨state, ran, final⟩ := Option.map_eq_some_iff.mp ran
  simp only [Prod.mk.injEq] at final
  obtain ⟨atomics, start, first, second⟩ := final
  refine ⟨state, ran, by rw [atomics], ((run_crossing_owned ran).2 ?_ (by rw [atomics]; decide)).2⟩
  intro task
  match task with
  | 0 => rw [start]; rfl
  | 1 => rw [first]; rfl
  | 2 => rw [second]; rfl
  | task + 3 =>
      have unnamed : ∀ action ∈ crossingWriters, action.task ≠ some (task + 3) := by
        simp [crossingWriters, Action.task]
      rw [run_elsewhere unnamed ran]
      rfl

end OnyxDB.Maintenance.Scheduling
