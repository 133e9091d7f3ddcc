import OnyxDB.Coordinator.GroupAnswers

/-! What the queue holds is accounted for: the memory of the requests in it, the slots of the channel, and the counters,
which wrap around and yet agree with what there is. -/

namespace OnyxDB.Coordinator
open OnyxDB.Library OnyxDB.Library.Semaphore OnyxDB.Engine OnyxDB.Engine.Value OnyxDB.Store OnyxDB.Protocol
  OnyxDB.Command OnyxDB.Persistence.Model OnyxDB.Persistence.Commit

section Units

theorem memoryUnits_bytes : commitQueueMemoryUnits * commitQueueMemoryUnitBytes = commitQueueMemoryBytes := by
  decide +kernel

/-- A submission that `submit` lets wait. -/
def Submission.Admissible (submission : Submission) : Prop := ∃ units, submission.operation.check = .ok units

/-- What a submission is charged with covers what it is estimated at, and is never more than there is. -/
theorem Submission.Admissible.charged {submission : Submission} (admissible : submission.Admissible) :
    0 < submission.units ∧ submission.units ≤ commitQueueMemoryUnits ∧
      submission.operation.estimatedBytes ≤ submission.units * commitQueueMemoryUnitBytes := by
  obtain ⟨units, passes⟩ := admissible
  unfold MasterCommitOperation.check at passes
  split at passes
  · cases passes
  · split at passes
    · cases passes
    next fits =>
      unfold Submission.units MasterCommitOperation.units
      unfold commitQueueMemoryUnits commitQueueMemoryBytes commitQueueMemoryUnitBytes at *
      omega

/-- Whatever is within the budget passes the last check as well. -/
theorem check_units {operation : MasterCommitOperation} (inside : operation.outsideLimit = false)
    (fits : max operation.estimatedBytes 1 ≤ commitQueueMemoryBytes) : operation.check = .ok operation.units := by
  have small : operation.units < 2 ^ 32 := by
    unfold MasterCommitOperation.units commitQueueMemoryUnitBytes
    unfold commitQueueMemoryBytes at fits
    omega
  unfold MasterCommitOperation.check
  rw [inside, if_neg Bool.false_ne_true, if_neg (Nat.not_lt.mpr fits), if_pos small]

end Units

section History

/-- Whether a submission has come to its end before it was sent. -/
def Settlement.early : Settlement → Bool
  | .refused _ | .withdrawn | .turnedAway => true
  | .shutDown | .dropped | .answered _ => false

def asked (events : List QueueEvent) : List Submission :=
  events.filterMap (fun event => match event with | .asked submission => some submission | _ => none)

def sent (events : List QueueEvent) : List Submission :=
  events.filterMap (fun event => match event with | .sent submission => some submission | _ => none)

/-- The submissions that have come to their end before they were sent, or behind that. -/
def settled (early : Bool) (events : List QueueEvent) : List Submission :=
  events.filterMap (fun event => match event with
    | .settled submission settlement => if settlement.early = early then some submission else none
    | _ => none)

def processed (events : List QueueEvent) : List ProcessedGroup :=
  events.filterMap (fun event => match event with | .processed group => some group | _ => none)

theorem asked_append (early late : List QueueEvent) : asked (early ++ late) = asked early ++ asked late :=
  List.filterMap_append

theorem sent_append (early late : List QueueEvent) : sent (early ++ late) = sent early ++ sent late :=
  List.filterMap_append

theorem settled_append (before : Bool) (early late : List QueueEvent) :
    settled before (early ++ late) = settled before early ++ settled before late :=
  List.filterMap_append

theorem processed_append (early late : List QueueEvent) :
    processed (early ++ late) = processed early ++ processed late :=
  List.filterMap_append

/-- The submissions that have not been sent yet. -/
def CommitQueue.entering (queue : CommitQueue) : List Submission :=
  queue.memory.waiting ++ queue.memory.granted ++ (queue.slots.waiting ++ queue.slots.granted)

/-- The submissions that have been sent and have not come to their end. -/
def CommitQueue.inside (queue : CommitQueue) : List Submission :=
  queue.channel ++ queue.deferred.toList ++ queue.worker.requests

end History

section Steps
variable [Platform] [Process]
variable {queue after : CommitQueue} {events : List QueueEvent}

theorem answers_requests (group : ProcessedGroup) : group.answers.map Prod.fst = group.requests := by
  have each := (processCommitGroup_conclusion group.append group.operations group.server).length
  have count : group.operations.length = group.requests.length := List.length_map _
  unfold ProcessedGroup.answers ProcessedGroup.completions
  rw [List.map_fst_zip (by omega)]

/-- A worker that fills a group has put nothing off, and one that has ended leaves nothing unread. -/
structure CommitQueue.Tidy (queue : CommitQueue) : Prop where
  deferring : ∀ requests logicalMutations inputBytes,
    queue.worker = .filling requests logicalMutations inputBytes → queue.deferred = none
  ended : queue.worker = .gone → queue.channel = [] ∧ queue.deferred = none

theorem CommitQueue.Tidy.step (tidy : queue.Tidy) (step : QueueStep queue events after) : after.Tidy := by
  obtain ⟨deferring, ended⟩ := tidy
  cases step with
  | send alive => exact ⟨deferring, fun gone => absurd gone alive⟩
  | resume => exact ⟨fun _ _ _ _ => rfl, fun gone => nomatch gone⟩
  | receive idle nothing => exact ⟨fun _ _ _ _ => nothing, fun gone => nomatch gone⟩
  | fill filling => exact ⟨fun _ _ _ _ => deferring _ _ _ filling, fun gone => nomatch gone⟩
  | stop => exact ⟨fun _ _ _ _ => rfl, fun _ => ⟨rfl, rfl⟩⟩
  | die => exact ⟨fun _ _ _ _ => rfl, fun _ => ⟨rfl, rfl⟩⟩
  | defer | full | turnDown | commit | enter | process | answer | finish | lose | reject =>
      exact ⟨fun _ _ _ other => (nomatch other), fun gone => nomatch gone⟩
  | ask | refuse | grantMemory | enterQueue | grantSlot | count | leaveLine | leaveGranted | leaveSlotLine | leaveSlot =>
      exact ⟨deferring, ended⟩

/-- What a step leaves as it was: memory changes hands, and submissions move on. -/
structure Conserves (need : Submission → Nat) (queue : CommitQueue) (events : List QueueEvent) (after : CommitQueue) :
    Prop where
  memory : after.memory.free + demand Submission.units (after.memory.granted ++ after.holding) =
    queue.memory.free + demand Submission.units (queue.memory.granted ++ queue.holding)
  entering : demand need after.entering + demand need (settled true events) + demand need (sent events) =
    demand need queue.entering + demand need (asked events)
  inside : demand need after.inside + demand need (settled false events) =
    demand need queue.inside + demand need (sent events)

attribute [local simp] CommitQueue.holding CommitQueue.queued CommitQueue.entering CommitQueue.inside
  CommitQueue.abandon CommitQueue.close CommitQueue.lost Worker.requests Settlement.early Semaphore.ask
  Semaphore.release asked sent settled

theorem QueueStep.conserves (tidy : queue.Tidy) (step : QueueStep queue events after) (need : Submission → Nat) :
    Conserves need queue events after := by
  obtain ⟨⟨free, waiting, granted⟩, ⟨slotsFree, slotsWaiting, slotsGranted⟩, channel, deferred, worker, uncounted,
    metrics⟩ := queue
  cases step with
  | ask | refuse | count | die => constructor <;> simp <;> omega
  | grantMemory grants =>
      obtain ⟨task, waiting, rfl, enough, rfl⟩ := grant_cases grants
      simp only at enough
      constructor <;> simp <;> omega
  | grantSlot grants =>
      obtain ⟨task, waiting, rfl, _, rfl⟩ := grant_cases grants
      constructor <;> simp <;> omega
  | enterQueue moved | send _ moved | leaveLine moved | leaveGranted moved | full moved | commit moved
  | enter moved | answer moved | finish moved | lose moved | reject moved | stop moved =>
      obtain rfl := moved
      constructor <;> simp <;> omega
  | leaveSlotLine moved why | leaveSlot moved why =>
      obtain rfl := moved
      rcases why with rfl | ⟨rfl, _⟩
      all_goals constructor <;> simp <;> omega
  | resume worked moved =>
      obtain rfl := worked
      obtain rfl := moved
      constructor <;> simp
  | receive worked nothing moved =>
      obtain rfl := worked
      obtain rfl := nothing
      obtain rfl := moved
      constructor <;> simp <;> omega
  | fill worked _ moved =>
      obtain rfl := worked
      obtain rfl := moved
      constructor <;> simp <;> omega
  | defer worked _ moved =>
      obtain rfl := tidy.deferring _ _ _ worked
      obtain rfl := worked
      obtain rfl := moved
      constructor <;> simp <;> omega
  | @process requests worked append server | @turnDown requests worked append server =>
      obtain rfl := worked
      have each := answers_requests ⟨append, server, requests⟩
      constructor <;> simp [each]

/-- The slots of the channel, as long as there is a worker to read it. -/
def CommitQueue.SlotsBalanced (queue : CommitQueue) : Prop :=
  queue.worker ≠ .gone → queue.slots.Balanced (fun _ => 1) commitQueueCapacity queue.channel

theorem CommitQueue.SlotsBalanced.step (balanced : queue.SlotsBalanced) (step : QueueStep queue events after) :
    after.SlotsBalanced := by
  intro alive
  cases step with
  | ask | refuse | grantMemory | count | leaveLine | leaveGranted => exact balanced alive
  | enterQueue => exact (balanced alive).ask _
  | grantSlot grants => exact (balanced alive).grant grants
  | send alive given => exact ((balanced alive).go given).perm (List.perm_append_singleton _ _).symm
  | leaveSlotLine _ why => exact balanced alive
  | leaveSlot given why => exact ((balanced alive).go given).release_one
  | resume idle => exact balanced (fun gone => nomatch idle.symm.trans gone)
  | full worked | turnDown worked | commit worked | enter worked | process worked | answer worked | finish worked
  | lose worked | reject worked => exact balanced (fun gone => nomatch worked.symm.trans gone)
  | receive worked _ moved | fill worked _ moved | defer worked _ moved =>
      have reading := balanced (fun gone => nomatch worked.symm.trans gone)
      rw [moved] at reading
      exact reading.release_one
  | stop | die => exact absurd rfl alive

end Steps

section Counters

theorem leaveQueue_iterate (count : Nat) (metrics : CommitCoordinatorMetrics) :
    CommitCoordinatorMetrics.leaveQueue^[count] metrics =
      { metrics with queueDepth := metrics.queueDepth - UInt64.ofNat count } := by
  induction count generalizing metrics with
  | zero => simp
  | succ count rest =>
      rw [Function.iterate_succ_apply, rest, UInt64.ofNat_add]
      simp only [CommitCoordinatorMetrics.leaveQueue, CommitCoordinatorMetrics.mk.injEq, true_and, and_true]
      grind

theorem le_max_depth (deepest depth : UInt64) : depth ≤ max deepest depth := by
  change depth ≤ if deepest ≤ depth then depth else deepest
  split
  · exact UInt64.le_refl depth
  next above => exact (UInt64.le_total deepest depth).resolve_left above

theorem queued_length (queue : CommitQueue) :
    queue.queued.length = queue.slots.waiting.length + queue.slots.granted.length +
      (queue.channel.length + queue.deferred.toList.length) := by
  unfold CommitQueue.queued
  rw [List.length_append, List.length_append, List.length_append]

variable {queue after : CommitQueue}

/-- The counters agree with what there is. -/
structure CommitQueue.Counted (queue : CommitQueue) : Prop where
  depth : queue.metrics.queueDepth = UInt64.ofNat queue.queued.length
  deepest : queue.metrics.queueDepth ≤ queue.metrics.queueDepthMax
  groups : queue.metrics.groupsTotal =
    queue.metrics.groupsCompletedTotal + queue.metrics.groupsRejectedTotal +
      queue.metrics.groupsIndeterminateTotal + queue.metrics.groupsInterruptedTotal + queue.metrics.groupsInProgress
  inProgress : queue.metrics.groupsInProgress = if queue.worker.measures then 1 else 0

theorem CommitQueue.Counted.still (counted : queue.Counted) (metrics : after.metrics = queue.metrics)
    (queued : after.queued.length = queue.queued.length) (measures : after.worker.measures = queue.worker.measures) :
    after.Counted := by
  obtain ⟨depth, deepest, groups, inProgress⟩ := counted
  constructor
  · rw [metrics, queued, depth]
  · rwa [metrics]
  · rwa [metrics]
  · rw [metrics, measures, inProgress]

/-- Requests leave the queue. -/
theorem CommitQueue.Counted.leave (counted : queue.Counted) {count : Nat}
    (metrics : after.metrics = CommitCoordinatorMetrics.leaveQueue^[count] queue.metrics)
    (queued : after.queued.length + count = queue.queued.length) (small : queue.queued.length < 2 ^ 64)
    (measures : after.worker.measures = queue.worker.measures) : after.Counted := by
  obtain ⟨depth, deepest, groups, inProgress⟩ := counted
  rw [leaveQueue_iterate] at metrics
  have fewer : UInt64.ofNat count ≤ queue.metrics.queueDepth := by
    have within : count < UInt64.size := lt_of_le_of_lt (by omega) small
    rw [depth, UInt64.le_iff_toNat_le, UInt64.toNat_ofNat_of_lt' within, UInt64.toNat_ofNat_of_lt' small]
    omega
  constructor
  · rw [metrics, depth, ← queued, UInt64.ofNat_add]
    simp
  · rw [metrics]
    exact UInt64.le_trans (UInt64.sub_le fewer) deepest
  · rw [metrics]
    exact groups
  · rw [metrics, measures]
    exact inProgress

/-- The worker ends, in a group or not. -/
theorem CommitQueue.Counted.close (counted : queue.Counted) (small : queue.queued.length < 2 ^ 64) :
    queue.close.Counted := by
  have shorter : queue.close.queued.length + (queue.channel ++ queue.deferred.toList).length =
      queue.queued.length := by
    rw [queued_length, queued_length, List.length_append]
    rfl
  cases measures : queue.worker.measures with
  | false =>
      refine counted.leave ?_ shorter small measures.symm
      simp only [CommitQueue.close, measures]
      rfl
  | true =>
      obtain ⟨left, unread⟩ : ∃ left,
          left = CommitCoordinatorMetrics.leaveQueue^[(queue.channel ++ queue.deferred.toList).length] queue.metrics :=
        ⟨_, rfl⟩
      have interrupted : queue.close.metrics = left.interrupt := by
        simp only [CommitQueue.close, measures, unread]
        rfl
      have before : { queue.close with worker := queue.worker, metrics := left }.Counted :=
        counted.leave unread shorter small rfl
      have depth : left.queueDepth = UInt64.ofNat queue.close.queued.length := before.depth
      have deepest : left.queueDepth ≤ left.queueDepthMax := before.deepest
      have groups : left.groupsTotal = left.groupsCompletedTotal + left.groupsRejectedTotal +
          left.groupsIndeterminateTotal + left.groupsInterruptedTotal + left.groupsInProgress := before.groups
      have inProgress : left.groupsInProgress = if queue.worker.measures then 1 else 0 := before.inProgress
      rw [measures, if_pos rfl] at inProgress
      have none : left.interrupt.groupsInProgress = 0 := by
        simp only [CommitCoordinatorMetrics.interrupt, CommitCoordinatorMetrics.recordEnd, inProgress]
        rfl
      constructor
      · rwa [interrupted]
      · rwa [interrupted]
      · rw [interrupted]
        simp only [CommitCoordinatorMetrics.interrupt, CommitCoordinatorMetrics.recordEnd]
        grind
      · rw [interrupted, none]
        rfl

variable [Platform] [Process]

theorem CommitQueue.Counted.step (counted : queue.Counted) (tidy : queue.Tidy)
    (small : queue.queued.length < 2 ^ 64) {events : List QueueEvent} (step : QueueStep queue events after) :
    after.Counted := by
  have leaves : ∀ {after : CommitQueue}, after.metrics = queue.metrics.leaveQueue →
      after.queued.length + 1 = queue.queued.length → after.worker.measures = queue.worker.measures →
      after.Counted := fun metrics queued measures => @Counted.leave _ _ counted 1 metrics queued small measures
  obtain ⟨depth, deepest, groups, inProgress⟩ := counted
  cases step with
  | ask | refuse | grantMemory | leaveLine | leaveGranted | count => exact ⟨depth, deepest, groups, inProgress⟩
  | enterQueue =>
      refine ⟨?_, ?_, groups, inProgress⟩
      · rw [queued_length] at depth ⊢
        simp only [CommitCoordinatorMetrics.enterQueue, Semaphore.ask, depth, List.length_append,
          List.length_singleton, UInt64.ofNat_add]
        grind
      · exact le_max_depth _ _
  | grantSlot grants =>
      obtain ⟨task, waiting, line, _, rfl⟩ := grant_cases grants
      refine Counted.still ⟨depth, deepest, groups, inProgress⟩ rfl ?_ rfl
      simp only [queued_length, line, List.length_append, List.length_cons, List.length_nil]
      omega
  | send alive given => 
      refine Counted.still ⟨depth, deepest, groups, inProgress⟩ rfl ?_ rfl
      simp only [queued_length, given, List.length_append, List.length_cons, List.length_nil]
      omega
  | leaveSlotLine given | leaveSlot given =>
      refine leaves rfl ?_ rfl
      simp only [queued_length, CommitQueue.abandon, Semaphore.release, given, List.length_append, List.length_cons]
      omega
  | resume idle left =>
      refine leaves rfl ?_ (by rw [idle]; rfl)
      simp [queued_length, left]
      omega
  | receive idle nothing arrived =>
      refine leaves rfl ?_ (by rw [idle]; rfl)
      simp only [queued_length, Semaphore.release, arrived, List.length_cons]
      omega
  | fill filling room arrived =>
      refine leaves rfl ?_ (by rw [filling]; rfl)
      simp only [queued_length, Semaphore.release, arrived, List.length_cons]
      omega
  | defer filling room arrived =>
      refine Counted.still ⟨depth, deepest, groups, inProgress⟩ rfl ?_ (by rw [filling]; rfl)
      simp only [queued_length, Semaphore.release, arrived, tidy.deferring _ _ _ filling, List.length_cons,
        Option.toList_some, Option.toList_none, List.length_nil]
  | full worked | enter worked | process worked | answer worked | lose worked | reject worked =>
      refine ⟨depth, deepest, groups, ?_⟩
      rw [worked] at inProgress
      exact inProgress
  | turnDown filled | commit filled =>
      rw [filled] at inProgress
      refine ⟨depth, deepest, ?_, ?_⟩
      · simp only [CommitCoordinatorMetrics.start, groups]
        grind
      · simp only [CommitCoordinatorMetrics.start, inProgress]
        rfl
  | @finish result batches answering =>
      rw [answering] at inProgress
      cases result with
      | completed | rejected | indeterminate =>
          refine ⟨depth, deepest, ?_, ?_⟩
          · simp only [CommitCoordinatorMetrics.finish, CommitCoordinatorMetrics.recordEnd, groups]
            grind
          · simp [CommitCoordinatorMetrics.finish, CommitCoordinatorMetrics.recordEnd, inProgress, Worker.measures]
  | stop | die => exact Counted.close ⟨depth, deepest, groups, inProgress⟩ small

end Counters

section Runs
variable [Platform] [Process]
variable {queue after : CommitQueue} {events : List QueueEvent}

/-- A submission that is new and stays is admissible. -/
theorem QueueStep.asks (step : QueueStep queue events after) :
    after = queue ∨ ∀ submission ∈ asked events, submission.Admissible := by
  cases step with
  | ask submission passes =>
      right
      intro other member
      obtain rfl := List.mem_singleton.mp member
      exact ⟨_, passes⟩
  | refuse => exact Or.inl rfl
  | stop | die =>
      right
      intro submission member
      simp [asked] at member
  | _ => exact Or.inr (fun submission member => absurd member List.not_mem_nil)

/-- Everything that holds at each point of a run. -/
structure CommitQueue.Sound (queue : CommitQueue) : Prop where
  tidy : queue.Tidy
  admissible : ∀ submission ∈ queue.entering ++ queue.inside, submission.Admissible
  memory : queue.memory.Balanced Submission.units commitQueueMemoryUnits queue.holding
  slots : queue.SlotsBalanced
  counted : queue.Counted

omit [Platform] [Process] in
theorem CommitQueue.Sound.start : CommitQueue.start.Sound where
  tidy := ⟨(fun _ _ _ filling => nomatch filling), fun _ => ⟨rfl, rfl⟩⟩
  admissible _ member := absurd member List.not_mem_nil
  memory := .new _ _
  slots _ := .new _ _
  counted := ⟨rfl, UInt64.le_refl _, rfl, rfl⟩

omit [Platform] [Process] in
/-- What holds memory is in the line or behind it. -/
theorem mem_of_holding {submission : Submission} (member : submission ∈ queue.memory.granted ++ queue.holding) :
    submission ∈ queue.entering ++ queue.inside := by
  simp only [CommitQueue.holding, CommitQueue.queued, CommitQueue.entering, CommitQueue.inside,
    List.mem_append] at member ⊢
  tauto

omit [Platform] [Process] in
theorem CommitQueue.Sound.charged (sound : queue.Sound) :
    queue.memory.free + demand Submission.units (queue.memory.granted ++ queue.holding) = commitQueueMemoryUnits := by
  have balanced := sound.memory
  unfold Semaphore.Balanced at balanced
  rw [demand_append, ← balanced, Nat.add_assoc]

omit [Platform] [Process] in
theorem CommitQueue.Sound.small (sound : queue.Sound) : queue.queued.length ≤ commitQueueMemoryUnits := by
  have charged := sound.charged
  have positive : ∀ submission ∈ queue.memory.granted ++ queue.holding, 0 < submission.units :=
    fun submission member => (sound.admissible submission (mem_of_holding member)).charged.1
  have fewer := length_le_demand Submission.units positive
  have part : queue.queued.length ≤ (queue.memory.granted ++ queue.holding).length := by
    rw [List.length_append, CommitQueue.holding, List.length_append]
    omega
  omega

theorem CommitQueue.Sound.step (sound : queue.Sound) (step : QueueStep queue events after) : after.Sound where
  tidy := sound.tidy.step step
  admissible := by
    rcases step.asks with rfl | asks
    · exact sound.admissible
    · intro submission member
      classical
      obtain ⟨_, entering, inside⟩ := step.conserves sound.tidy (fun other => if other = submission then 1 else 0)
      rw [mem_iff_demand, demand_append] at member
      have present : 0 < demand (fun other => if other = submission then 1 else 0)
          (queue.entering ++ queue.inside ++ asked events) := by
        rw [demand_append, demand_append]
        omega
      rcases List.mem_append.mp (mem_iff_demand.mpr present) with before | new
      · exact sound.admissible submission before
      · exact asks submission new
  memory := by
    have kept := (step.conserves sound.tidy Submission.units).memory
    rw [sound.charged, demand_append, ← Nat.add_assoc] at kept
    exact kept
  slots := sound.slots.step step
  counted := sound.counted.step sound.tidy (lt_of_le_of_lt sound.small (by decide)) step

omit [Platform] [Process] in
theorem sent_lost (queue : CommitQueue) : sent (queue.lost.map (QueueEvent.settled · .dropped)) = [] := by
  simp [sent]

omit [Platform] [Process] in
theorem processed_lost (queue : CommitQueue) : processed (queue.lost.map (QueueEvent.settled · .dropped)) = [] := by
  simp [processed]

omit [Platform] [Process] in
/-- Of the groups, an ending worker counts only that its own was interrupted. -/
theorem close_metrics (queue : CommitQueue) : ∃ depth interrupted inProgress, queue.close.metrics =
    { queue.metrics with
      queueDepth := depth
      groupsInterruptedTotal := interrupted
      groupsInProgress := inProgress } := by
  simp only [CommitQueue.close, leaveQueue_iterate]
  split
  · exact ⟨_, _, _, rfl⟩
  · exact ⟨_, _, _, rfl⟩

/-- The senders count what they have sent, each a little later. -/
theorem requests_step {past : List QueueEvent}
    (tallied : queue.metrics.requestsTotal + UInt64.ofNat queue.uncounted = UInt64.ofNat (sent past).length)
    (step : QueueStep queue events after) :
    after.metrics.requestsTotal + UInt64.ofNat after.uncounted = UInt64.ofNat (sent (past ++ events)).length := by
  rw [sent_append, List.length_append, UInt64.ofNat_add, ← tallied]
  cases step with
  | send =>
      change queue.metrics.requestsTotal + UInt64.ofNat (queue.uncounted + 1) =
        queue.metrics.requestsTotal + UInt64.ofNat queue.uncounted + 1
      rw [UInt64.ofNat_add, ← UInt64.add_assoc]
      rfl
  | @count others counting =>
      change queue.metrics.requestsTotal + 1 + UInt64.ofNat others =
        queue.metrics.requestsTotal + UInt64.ofNat queue.uncounted + 0
      rw [counting, UInt64.ofNat_add]
      grind
  | stop | die =>
      have requests : queue.close.metrics.requestsTotal = queue.metrics.requestsTotal := by
        simp only [CommitQueue.close, leaveQueue_iterate]
        split <;> rfl
      rw [sent_lost, requests]
      exact (UInt64.add_zero _).symm
  | @finish result batches =>
      cases result with
      | completed | rejected | indeterminate => exact (UInt64.add_zero _).symm
  | _ => exact (UInt64.add_zero _).symm

/-- The groups that are counted under a result. -/
def CommitCoordinatorMetrics.finished (metrics : CommitCoordinatorMetrics) : CommitGroupResult → UInt64
  | .completed => metrics.groupsCompletedTotal
  | .rejected => metrics.groupsRejectedTotal
  | .indeterminate => metrics.groupsIndeterminateTotal

/-- Whether the worker has a group of this result that it has processed and not counted. -/
def Worker.finishing (result : CommitGroupResult) : Worker → Bool
  | .answering _ own _ => decide (own = result)
  | _ => false

/-- The groups of a result that have been processed. -/
def concluded (result : CommitGroupResult) (events : List QueueEvent) : Nat :=
  (processed events).countP (fun group => decide (group.result.1 = result))

theorem concluded_append (result : CommitGroupResult) (early late : List QueueEvent) :
    concluded result (early ++ late) = concluded result early + concluded result late := by
  unfold concluded
  rw [processed_append, List.countP_append]

theorem concluded_lost (result : CommitGroupResult) (queue : CommitQueue) :
    concluded result (queue.lost.map (QueueEvent.settled · .dropped)) = 0 := by
  unfold concluded
  rw [processed_lost]
  rfl

theorem concluded_processed (result : CommitGroupResult) (group : ProcessedGroup) :
    concluded result [.processed group] = (decide (group.result.1 = result)).toNat := by
  have only : processed [.processed group] = [group] := rfl
  unfold concluded
  rw [only, List.countP_singleton]
  cases decide (group.result.1 = result) <;> rfl

/-- Every processed group is counted under its result, once it is answered. -/
theorem finished_step {past : List QueueEvent} (result : CommitGroupResult)
    (tallied : queue.metrics.finished result + UInt64.ofNat (queue.worker.finishing result).toNat =
      UInt64.ofNat (concluded result past))
    (step : QueueStep queue events after) :
    after.metrics.finished result + UInt64.ofNat (after.worker.finishing result).toNat =
      UInt64.ofNat (concluded result (past ++ events)) := by
  rw [concluded_append, UInt64.ofNat_add, ← tallied]
  have nothing : UInt64.ofNat (concluded result []) = 0 := rfl
  cases step with
  | turnDown worked append server | process worked append server =>
      rw [concluded_processed, worked]
      cases result <;> exact (congrArg (· + _) (UInt64.add_zero _).symm)
  | @finish own batches answering =>
      rw [answering, nothing, UInt64.add_zero]
      cases own with
      | completed | rejected | indeterminate =>
          cases result <;>
            simp [CommitCoordinatorMetrics.finished, CommitCoordinatorMetrics.finish,
              CommitCoordinatorMetrics.recordEnd, Worker.finishing]
  | stop worked =>
      obtain ⟨_, _, _, metrics⟩ := close_metrics queue
      rw [concluded_lost, metrics, worked]
      cases result <;> exact (UInt64.add_zero _).symm
  | die suspended =>
      have rests : queue.worker.finishing result = false := by
        cases worker : queue.worker with
        | answering => rw [worker] at suspended; cases suspended
        | _ => rfl
      obtain ⟨_, _, _, metrics⟩ := close_metrics queue
      rw [concluded_lost, metrics, rests]
      cases result <;> exact (UInt64.add_zero _).symm
  | ask | refuse | grantMemory | enterQueue | grantSlot | send | count | leaveLine | leaveGranted | leaveSlotLine
  | leaveSlot => cases result <;> exact (UInt64.add_zero _).symm
  | resume worked | receive worked | fill worked | defer worked | full worked | commit worked | enter worked
  | answer worked | lose worked | reject worked =>
      rw [worked]
      cases result <;> exact (UInt64.add_zero _).symm

/-- The one worker there is interrupts a group at most once, and that is its end. -/
def CommitQueue.Interrupted (queue : CommitQueue) : Prop :=
  queue.metrics.groupsInterruptedTotal = 0 ∨
    (queue.metrics.groupsInterruptedTotal = 1 ∧ queue.worker = .gone)

theorem CommitQueue.Interrupted.step (interrupted : queue.Interrupted) (step : QueueStep queue events after) :
    after.Interrupted := by
  have ends : queue.worker ≠ .gone → queue.close.Interrupted := by
    intro alive
    have none := interrupted.resolve_right (fun ended => alive ended.2)
    unfold CommitQueue.Interrupted CommitQueue.close
    simp only [leaveQueue_iterate]
    split
    · simp [CommitCoordinatorMetrics.interrupt, CommitCoordinatorMetrics.recordEnd, none]
    · exact .inl none
  cases step with
  | stop rejecting => exact ends (fun gone => nomatch rejecting.symm.trans gone)
  | die suspended =>
      refine ends fun gone => ?_
      rw [gone] at suspended
      cases suspended
  | ask | refuse | grantMemory | enterQueue | grantSlot | send | count | leaveLine | leaveGranted | leaveSlotLine
  | leaveSlot => exact interrupted
  | @finish own batches worked =>
      have none := interrupted.resolve_right (fun ended => nomatch worked.symm.trans ended.2)
      cases own with
      | completed | rejected | indeterminate => exact .inl none
  | resume worked | receive worked | fill worked | defer worked | full worked | turnDown worked | commit worked
  | enter worked | process worked | answer worked | lose worked | reject worked =>
      exact .inl (interrupted.resolve_right (fun ended => nomatch worked.symm.trans ended.2))

/-- The maximum rises only to the depth there is. -/
theorem QueueStep.deepest (step : QueueStep queue events after) :
    after.metrics.queueDepthMax = queue.metrics.queueDepthMax ∨
      (queue.metrics.queueDepthMax ≤ after.metrics.queueDepthMax ∧
        after.metrics.queueDepthMax = after.metrics.queueDepth) := by
  cases step with
  | enterQueue =>
      change (if queue.metrics.queueDepthMax ≤ queue.metrics.queueDepth + 1 then queue.metrics.queueDepth + 1
        else queue.metrics.queueDepthMax) = _ ∨ (_ ≤ (if _ then _ else _) ∧ (if _ then _ else _) = _)
      split
      next rises => exact .inr ⟨rises, rfl⟩
      next => exact .inl rfl
  | @finish own =>
      cases own with
      | completed | rejected | indeterminate => exact .inl rfl
  | stop | die =>
      obtain ⟨_, _, _, metrics⟩ := close_metrics queue
      rw [metrics]
      exact .inl rfl
  | _ => exact .inl rfl

theorem deepest_mono {labels : List (List QueueEvent)} (trace : Trace QueueStep queue labels after) :
    queue.metrics.queueDepthMax ≤ after.metrics.queueDepthMax := by
  induction trace with
  | nil => exact UInt64.le_refl _
  | cons first _ rest =>
      rcases first.deepest with same | ⟨rises, _⟩
      · rwa [← same]
      · exact UInt64.le_trans rises rest

/-- The run was once as deep as its maximum says. -/
def Deepest (events : List QueueEvent) (queue : CommitQueue) : Prop :=
  ∃ early past later, QueueRun past early ∧ Trace QueueStep early later queue ∧ past ++ later.flatten = events ∧
    early.metrics.queueDepth = queue.metrics.queueDepthMax

theorem Deepest.step {past : List QueueEvent} (run : QueueRun past queue) (deepest : Deepest past queue)
    (step : QueueStep queue events after) : Deepest (past ++ events) after := by
  rcases step.deepest with same | ⟨_, here⟩
  · obtain ⟨early, before, later, start, trace, rfl, depth⟩ := deepest
    refine ⟨early, before, later ++ [events], start, trace.snoc step, ?_, depth.trans same.symm⟩
    rw [List.flatten_append, List.flatten_singleton, List.append_assoc]
  · exact ⟨after, _, [], run.snoc step, .nil after, List.append_nil _, here.symm⟩

/-- What the queue holds is accounted for after some events. -/
structure QueueAccounted (events : List QueueEvent) (queue : CommitQueue) : Prop where
  memory : queue.memory.free + demand Submission.units (queue.memory.granted ++ queue.holding) =
    commitQueueMemoryUnits
  bytes : ((queue.memory.granted ++ queue.holding).map
    (fun submission => submission.operation.estimatedBytes)).sum ≤ commitQueueMemoryBytes
  slots : queue.worker ≠ .gone →
    queue.slots.free + queue.slots.granted.length + queue.channel.length = commitQueueCapacity
  depth : queue.metrics.queueDepth.toNat = queue.queued.length
  deepest : queue.metrics.queueDepth ≤ queue.metrics.queueDepthMax
  /-- No point before was deeper than the maximum, and one was as deep. -/
  within : ∀ early past later, QueueRun past early → Trace QueueStep early later queue →
    early.queued.length ≤ queue.metrics.queueDepthMax.toNat
  reached : ∃ early past later, QueueRun past early ∧ Trace QueueStep early later queue ∧
    past ++ later.flatten = events ∧ early.queued.length = queue.metrics.queueDepthMax.toNat
  requests : queue.metrics.requestsTotal + UInt64.ofNat queue.uncounted = UInt64.ofNat (sent events).length
  /-- The groups under each result are those that were processed with it, but for the one still to be counted. -/
  finished : ∀ result, queue.metrics.finished result + UInt64.ofNat (queue.worker.finishing result).toNat =
    UInt64.ofNat (concluded result events)
  interrupted : queue.Interrupted
  groups : queue.metrics.groupsTotal =
    queue.metrics.groupsCompletedTotal + queue.metrics.groupsRejectedTotal +
      queue.metrics.groupsIndeterminateTotal + queue.metrics.groupsInterruptedTotal + queue.metrics.groupsInProgress
  inProgress : queue.metrics.groupsInProgress = if queue.worker.measures then 1 else 0

omit [Platform] [Process] in
/-- The estimates of what holds memory are within what it is charged with. -/
theorem CommitQueue.Sound.estimated (sound : queue.Sound) (some : List Submission)
    (holding : ∀ submission ∈ some, submission ∈ queue.entering ++ queue.inside) :
    (some.map (fun submission => submission.operation.estimatedBytes)).sum ≤
      demand Submission.units some * commitQueueMemoryUnitBytes := by
  induction some with
  | nil => exact Nat.zero_le _
  | cons submission others rest =>
      have first := (sound.admissible submission (holding submission List.mem_cons_self)).charged.2.2
      have further := rest (fun other member => holding other (List.mem_cons_of_mem _ member))
      rw [List.map_cons, List.sum_cons, demand_cons, Nat.add_mul]
      exact Nat.add_le_add first further

theorem QueueRun.sound (run : QueueRun events queue) : queue.Sound :=
  run.keeps .start (fun _ _ _ _ sound step => sound.step step)

theorem QueueRun.depth (run : QueueRun events queue) : queue.metrics.queueDepth.toNat = queue.queued.length := by
  have small : queue.queued.length < UInt64.size := lt_of_le_of_lt run.sound.small (by decide)
  rw [run.sound.counted.depth, UInt64.toNat_ofNat_of_lt' small]

theorem QueueRun.deepest (run : QueueRun events queue) : Deepest events queue := by
  have both : QueueRun events queue ∧ Deepest events queue := by
    refine run.keeps ⟨⟨[], .nil _, rfl⟩, .start, [], [], ⟨[], .nil _, rfl⟩, .nil _, rfl, rfl⟩ ?_
    rintro past before events after ⟨run, deepest⟩ step
    exact ⟨run.snoc step, deepest.step run step⟩
  exact both.2

/-- In every run of clients and worker, whatever the order of their steps: memory and slots are neither lost nor made
up, what is estimated of the requests in memory is within the budget, and the counters agree with what there is. -/
theorem queue_accounted (run : QueueRun events queue) : QueueAccounted events queue := by
  have sound := run.sound
  constructor
  · exact sound.charged
  · have estimated := sound.estimated _ (fun _ member => mem_of_holding member)
    have charged : demand Submission.units (queue.memory.granted ++ queue.holding) ≤ commitQueueMemoryUnits :=
      (Nat.le_add_left _ _).trans sound.charged.le
    exact estimated.trans ((Nat.mul_le_mul_right _ charged).trans memoryUnits_bytes.le)
  · intro alive
    have balanced := sound.slots alive
    unfold Semaphore.Balanced at balanced
    rwa [demand_length, demand_length] at balanced
  · exact run.depth
  · exact sound.counted.deepest
  · intro early past later before trace
    rw [← before.depth]
    exact UInt64.le_trans before.sound.counted.deepest (deepest_mono trace)
  · obtain ⟨early, past, later, before, trace, events, depth⟩ := run.deepest
    exact ⟨early, past, later, before, trace, events, by rw [← depth, before.depth]⟩
  · exact run.keeps rfl (fun _ _ _ _ tallied step => requests_step tallied step)
  · intro result
    refine run.keeps ?_ (fun _ _ _ _ tallied step => finished_step result tallied step)
    cases result <;> rfl
  · exact run.keeps (.inl rfl) (fun _ _ _ _ interrupted step => interrupted.step step)
  · exact sound.counted.groups
  · exact sound.counted.inProgress

end Runs

/-- A client that sets a key. -/
def firstSet : Submission := ⟨0, .command ["SET", "a", "1"]⟩

/-- It is let through to the channel, where it is the only one. -/
theorem firstSet_run [Platform] [Process] : ∃ queue, QueueRun [.asked firstSet, .sent firstSet] queue ∧
    queue.memory.waiting = [] ∧ queue.worker = .idle ∧ queue.deferred = none ∧ queue.channel = [firstSet] := by
  have passes : firstSet.operation.check = .ok 1 := by decide
  have memory : (CommitQueue.start.memory.ask firstSet).grant Submission.units =
      some ⟨commitQueueMemoryUnits - firstSet.units, [], [firstSet]⟩ :=
    grant_asked (Submission.Admissible.charged ⟨1, passes⟩).2.1
  have slots : (CommitQueue.start.slots.ask firstSet).grant (fun _ => 1) =
      some ⟨commitQueueCapacity - 1, [], [firstSet]⟩ := grant_asked (by decide)
  have alive : Worker.idle ≠ .gone := fun gone => nomatch gone
  exact ⟨_, ⟨[[.asked firstSet], [], [], [], [.sent firstSet]],
    .cons (.ask firstSet passes) (.cons (.grantMemory memory) (.cons (@QueueStep.enterQueue _ _ _ firstSet [] [] rfl)
      (.cons (.grantSlot slots) (.cons (@QueueStep.send _ _ _ firstSet [] [] alive rfl) (.nil _))))), rfl⟩,
    rfl, rfl, rfl, rfl⟩

/-- A worker that finds one request takes it, commits it and answers. -/
theorem one_served [Platform] [Process] {queue : CommitQueue} {submission : Submission} (idle : queue.worker = .idle)
    (nothing : queue.deferred = none) (arrived : queue.channel = [submission]) (append : AppendBatches)
    (server : Server) : ∃ completion after, Trace QueueStep queue
      [[], [], [], [], [.processed ⟨append, server, [submission]⟩], [.settled submission (.answered completion)]]
      after := by
  obtain ⟨completion, answers⟩ : ∃ completion,
      (ProcessedGroup.mk append server [submission]).answers = [(submission, completion)] := by
    have each := answers_requests ⟨append, server, [submission]⟩
    obtain ⟨⟨_, completion⟩, answers, same⟩ := List.map_eq_singleton_iff.mp each
    obtain rfl : _ = submission := same
    exact ⟨completion, answers⟩
  obtain ⟨filling, receives, worker, empty⟩ : ∃ filling, QueueStep queue [] filling ∧
      filling.worker = .filling [submission] submission.operation.logicalMutationUpperBound
        submission.operation.estimatedBytes ∧ filling.channel = [] := ⟨_, .receive idle nothing arrived, rfl, rfl⟩
  obtain ⟨filled, fills, worker⟩ : ∃ filled, QueueStep filling [] filled ∧ filled.worker = .filled [submission] :=
    ⟨_, .full worker (.inr empty), rfl⟩
  obtain ⟨awaiting, commits, worker⟩ : ∃ awaiting, QueueStep filled [] awaiting ∧
      awaiting.worker = .awaiting [submission] := ⟨_, .commit worker, rfl⟩
  obtain ⟨committing, enters, worker⟩ : ∃ committing, QueueStep awaiting [] committing ∧
      committing.worker = .committing [submission] := ⟨_, .enter worker, rfl⟩
  have processes := QueueStep.process worker append server
  rw [answers] at processes
  exact ⟨completion, _, .cons receives (.cons fills (.cons commits (.cons enters (.cons processes
    (.cons (.answer rfl) (.nil _))))))⟩

theorem queue_accounted_set :
    letI := Reference.platform (fun _ => .error "unsupported")
    letI := startedProcess
    ∃ queue completion, QueueAccounted [.asked firstSet, .sent firstSet,
      .processed ⟨acceptEverything, emptyServer 0, [firstSet]⟩, .settled firstSet (.answered completion)] queue := by
  let := Reference.platform (fun _ => .error "unsupported")
  let := startedProcess
  obtain ⟨before, ⟨labels, sent, events⟩, _, idle, nothing, arrived⟩ := firstSet_run
  obtain ⟨completion, after, served⟩ := one_served idle nothing arrived acceptEverything (emptyServer 0)
  exact ⟨after, completion, queue_accounted ⟨_, sent.append served, by rw [List.flatten_append, events]; rfl⟩⟩

end OnyxDB.Coordinator
