import OnyxDB.Coordinator.QueueAccounting

/-! Requests pass through the coordinator in the order in which they were sent, each once. What comes to its end before
it is sent is never executed; what is sent is executed and answered, or its client is told that it may have been. -/

namespace OnyxDB.Coordinator
open OnyxDB.Library OnyxDB.Library.Semaphore OnyxDB.Engine OnyxDB.Engine.Value OnyxDB.Store OnyxDB.Protocol
  OnyxDB.Command OnyxDB.Persistence.Model OnyxDB.Persistence.Commit

section History

/-- The requests of the groups that were processed, in order. -/
def handed (events : List QueueEvent) : List Submission := (processed events).flatMap ProcessedGroup.requests

def answered (events : List QueueEvent) : List (Submission × Completion) :=
  events.filterMap (fun event => match event with
    | .settled submission (.answered completion) => some (submission, completion)
    | _ => none)

theorem answered_append (early late : List QueueEvent) : answered (early ++ late) = answered early ++ answered late :=
  List.filterMap_append

theorem handed_append (early late : List QueueEvent) : handed (early ++ late) = handed early ++ handed late := by
  unfold handed
  rw [processed_append, List.flatMap_append]

/-- The worker takes requests in. -/
def Worker.receives : Worker → Bool
  | .rejecting _ | .gone => false
  | _ => true

/-- The group that the worker has taken and not processed. -/
def Worker.preparing : Worker → List Submission
  | .filling requests _ _ | .filled requests | .awaiting requests | .committing requests => requests
  | _ => []

/-- The answers that the worker has and has not given. -/
def Worker.owed : Worker → List (Submission × Completion)
  | .answering owed _ _ => owed
  | _ => []

end History

section Groups

/-- A group that the worker may take: one request, or several within the bounds. -/
def Permitted (requests : List Submission) : Prop :=
  requests ≠ [] ∧ (1 < requests.length → WithinBounds (requests.map Submission.operation))

/-- The group the worker is at, with the sums it keeps while it fills it. -/
def Worker.Bounded : Worker → Prop
  | .filling requests logicalMutations inputBytes =>
      Permitted requests ∧
        logicalMutations = (requests.map (fun request => request.operation.logicalMutationUpperBound)).sum ∧
        inputBytes = (requests.map (fun request => request.operation.estimatedBytes)).sum
  | .filled requests | .awaiting requests | .committing requests => Permitted requests
  | _ => True

theorem permitted_one (request : Submission) : Permitted [request] :=
  ⟨List.cons_ne_nil _ _, fun several => absurd several (lt_irrefl 1)⟩

theorem filling_one (request : Submission) :
    (Worker.filling [request] request.operation.logicalMutationUpperBound request.operation.estimatedBytes).Bounded :=
  ⟨permitted_one request, by simp, by simp⟩

theorem filling_more {requests : List Submission} {request : Submission} {logicalMutations inputBytes : Nat}
    (bounded : (Worker.filling requests logicalMutations inputBytes).Bounded)
    (room : requests.length < maxCommitGroupRequests)
    (mutations : saturatingAdd logicalMutations request.operation.logicalMutationUpperBound ≤
      maxCommitGroupLogicalMutations)
    (bytes : saturatingAdd inputBytes request.operation.estimatedBytes ≤ maxCommitGroupInputBytes) :
    (Worker.filling (requests ++ [request])
      (saturatingAdd logicalMutations request.operation.logicalMutationUpperBound)
      (saturatingAdd inputBytes request.operation.estimatedBytes)).Bounded := by
  obtain ⟨_, rfl, rfl⟩ := bounded
  have mutationsSmall : maxCommitGroupLogicalMutations < usizeMax := by decide
  have bytesSmall : maxCommitGroupInputBytes < usizeMax := by decide
  have addedMutations := saturatingAdd_small mutationsSmall mutations
  have addedBytes := saturatingAdd_small bytesSmall bytes
  rw [addedMutations] at mutations ⊢
  rw [addedBytes] at bytes ⊢
  refine ⟨⟨by simp, fun _ => ⟨?_, ?_, ?_⟩⟩, by simp, by simp⟩
  · rw [List.length_map, List.length_append, List.length_singleton]
    exact room
  · simpa [Function.comp_def] using mutations
  · simpa [Function.comp_def] using bytes

variable [Platform] [Process]

theorem bounded_step {queue after : CommitQueue} {events : List QueueEvent} (bounded : queue.worker.Bounded)
    (step : QueueStep queue events after) :
    after.worker.Bounded ∧ ∀ group ∈ processed events, Permitted group.requests := by
  have nothing : ∀ group ∈ processed ([] : List QueueEvent), Permitted group.requests :=
    fun group member => absurd member List.not_mem_nil
  cases step with
  | ask | refuse | grantMemory | enterQueue | grantSlot | send | count | leaveLine | leaveGranted | leaveSlotLine
  | leaveSlot => exact ⟨bounded, nothing⟩
  | resume | receive => exact ⟨filling_one _, nothing⟩
  | fill filling room _ mutations bytes =>
      rw [filling] at bounded
      exact ⟨filling_more bounded room mutations bytes, nothing⟩
  | defer filling | full filling =>
      rw [filling] at bounded
      exact ⟨bounded.1, nothing⟩
  | commit worked | enter worked =>
      rw [worked] at bounded
      exact ⟨bounded, nothing⟩
  | turnDown worked | process worked =>
      rw [worked] at bounded
      refine ⟨trivial, fun group member => ?_⟩
      obtain rfl := List.mem_singleton.mp member
      exact bounded
  | answer | finish | lose | reject => exact ⟨trivial, nothing⟩
  | stop | die =>
      refine ⟨trivial, fun group member => ?_⟩
      simp [processed] at member

end Groups

section Order
variable [Platform] [Process]
variable {queue after : CommitQueue} {events past : List QueueEvent}

/-- The order of the requests, and the answers they get. -/
structure Ordered (events : List QueueEvent) (queue : CommitQueue) : Prop where
  order : queue.worker.receives = true →
    sent events = handed events ++ (queue.worker.preparing ++ (queue.deferred.toList ++ queue.channel))
  begins : handed events <+: sent events
  answers : answered events ++ queue.worker.owed = (processed events).flatMap ProcessedGroup.answers

/-- The requests that the worker is to process, in its order. -/
def CommitQueue.pending (queue : CommitQueue) : List Submission :=
  queue.worker.preparing ++ (queue.deferred.toList ++ queue.channel)

/-- A step in which nothing is sent, processed or answered, and what is pending stays in its order. -/
theorem Ordered.still (ordered : Ordered past queue) (sends : sent events = []) (processes : processed events = [])
    (answers : answered events = [])
    (pending : after.worker.receives = true → queue.worker.receives = true ∧ after.pending = queue.pending)
    (owed : after.worker.owed = queue.worker.owed) : Ordered (past ++ events) after := by
  have same : handed (past ++ events) = handed past := by
    rw [handed_append, handed, handed, processes, List.flatMap_nil, List.append_nil]
  constructor
  · intro receives
    obtain ⟨received, kept⟩ := pending receives
    rw [sent_append, sends, List.append_nil, same]
    exact (ordered.order received).trans (congrArg _ kept.symm)
  · rw [same, sent_append, sends, List.append_nil]
    exact ordered.begins
  · rw [answered_append, answers, List.append_nil, owed, processed_append, processes, List.append_nil]
    exact ordered.answers

theorem Ordered.step (ordered : Ordered past queue) (tidy : queue.Tidy) (step : QueueStep queue events after) :
    Ordered (past ++ events) after := by
  have rearranged : ∀ {after : CommitQueue}, queue.worker.receives = true → after.pending = queue.pending →
      after.worker.owed = queue.worker.owed → Ordered (past ++ []) after :=
    fun receives pending owed => ordered.still rfl rfl rfl (fun _ => ⟨receives, pending⟩) owed
  cases step with
  | ask | refuse | grantMemory | enterQueue | grantSlot | count | leaveLine | leaveGranted =>
      exact ordered.still rfl rfl rfl (fun receives => ⟨receives, rfl⟩) rfl
  | leaveSlotLine _ why | leaveSlot _ why =>
      rcases why with rfl | ⟨rfl, _⟩
      all_goals exact ordered.still rfl rfl rfl (fun receives => ⟨receives, rfl⟩) rfl
  | @send submission =>
      have same : handed (past ++ [.sent submission]) = handed past :=
        (handed_append _ _).trans (List.append_nil _)
      constructor
      · intro receives
        rw [same, sent_append, ordered.order receives]
        simp [sent]
      · rw [same, sent_append]
        exact ordered.begins.trans (List.prefix_append _ _)
      · rw [answered_append, processed_append, List.flatMap_append, ← ordered.answers]
        simp [answered, processed]
  | resume idle left =>
      refine rearranged (by rw [idle]; rfl) ?_ (by rw [idle]; rfl)
      simp [CommitQueue.pending, idle, left, Worker.preparing]
  | receive idle nothing arrived =>
      refine rearranged (by rw [idle]; rfl) ?_ (by rw [idle]; rfl)
      simp [CommitQueue.pending, idle, nothing, arrived, Worker.preparing]
  | fill filling _ arrived =>
      refine rearranged (by rw [filling]; rfl) ?_ (by rw [filling]; rfl)
      simp [CommitQueue.pending, filling, arrived, tidy.deferring _ _ _ filling, Worker.preparing]
  | defer filling _ arrived =>
      refine rearranged (by rw [filling]; rfl) ?_ (by rw [filling]; rfl)
      simp [CommitQueue.pending, filling, arrived, tidy.deferring _ _ _ filling, Worker.preparing]
  | full worked | commit worked | enter worked =>
      refine rearranged (by rw [worked]; rfl) ?_ (by rw [worked]; rfl)
      simp [CommitQueue.pending, worked, Worker.preparing]
  | @turnDown requests worked append server | @process requests worked append server =>
      have next : handed (past ++ [.processed ⟨append, server, requests⟩]) = handed past ++ requests := by
        rw [handed_append]
        simp [handed, processed]
      have same : sent (past ++ [.processed ⟨append, server, requests⟩]) = sent past :=
        (sent_append _ _).trans (List.append_nil _)
      have order := ordered.order (by rw [worked]; rfl)
      rw [worked] at order
      constructor
      · intro _
        rw [next, same, order, List.append_assoc]
        rfl
      · rw [next, same, order, ← List.append_assoc]
        exact List.prefix_append _ _
      · have before := ordered.answers
        rw [worked] at before
        rw [answered_append, processed_append, List.flatMap_append, ← before]
        simp [answered, processed, Worker.owed]
  | @answer submission completion owed result batches answering =>
      have order := ordered.order (by rw [answering]; rfl)
      have before := ordered.answers
      rw [answering] at order before
      have next : handed (past ++ [.settled submission (.answered completion)]) = handed past :=
        (handed_append _ _).trans (List.append_nil _)
      have same : sent (past ++ [.settled submission (.answered completion)]) = sent past :=
        (sent_append _ _).trans (List.append_nil _)
      constructor
      · intro _
        rw [next, same]
        exact order
      · rw [next, same]
        exact ordered.begins
      · rw [answered_append, processed_append, List.flatMap_append, ← before]
        simp [answered, processed, Worker.owed]
  | finish answering =>
      refine rearranged (by rw [answering]; rfl) ?_ (by rw [answering]; rfl)
      simp [CommitQueue.pending, answering, Worker.preparing]
  | lose worked | reject worked =>
      exact ordered.still rfl rfl rfl (fun receives => absurd receives Bool.false_ne_true) (by rw [worked]; rfl)
  | stop rejecting =>
      exact ordered.still (sent_lost queue) (by simp [processed]) (by simp [answered])
        (fun receives => absurd receives Bool.false_ne_true) (by rw [rejecting]; rfl)
  | die suspended =>
      have nothing : queue.worker.owed = [] := by
        cases worker : queue.worker with
        | answering => rw [worker] at suspended; cases suspended
        | _ => rfl
      exact ordered.still (sent_lost queue) (by simp [processed]) (by simp [answered])
        (fun receives => absurd receives Bool.false_ne_true) nothing.symm

end Order

section Passage
variable [Platform] [Process]
variable {queue : CommitQueue} {events : List QueueEvent}

/-- What has become of the submissions after some events. -/
structure Passed (events : List QueueEvent) (queue : CommitQueue) : Prop where
  /-- Each is on its way, or was sent, or came to its end before that; and once. -/
  entered : (asked events).Perm (queue.entering ++ settled true events ++ sent events)
  /-- What was sent is with the coordinator, or has come to its end behind that; and once. -/
  left : (sent events).Perm (queue.inside ++ settled false events)
  ordered : Ordered events queue
  permitted : ∀ group ∈ processed events, Permitted group.requests

theorem entering_step {past : List QueueEvent} {after : CommitQueue} (tidy : queue.Tidy)
    (entered : (asked past).Perm (queue.entering ++ settled true past ++ sent past))
    (step : QueueStep queue events after) :
    (asked (past ++ events)).Perm (after.entering ++ settled true (past ++ events) ++ sent (past ++ events)) := by
  refine perm_of_demand fun need => ?_
  have before := demand_perm need entered
  have moved := (step.conserves tidy need).entering
  simp only [asked_append, sent_append, settled_append, demand_append] at before ⊢
  omega

theorem inside_step {past : List QueueEvent} {after : CommitQueue} (tidy : queue.Tidy)
    (left : (sent past).Perm (queue.inside ++ settled false past)) (step : QueueStep queue events after) :
    (sent (past ++ events)).Perm (after.inside ++ settled false (past ++ events)) := by
  refine perm_of_demand fun need => ?_
  have before := demand_perm need left
  have moved := (step.conserves tidy need).inside
  simp only [sent_append, settled_append, demand_append] at before ⊢
  omega

theorem Passed.step {past : List QueueEvent} {after : CommitQueue} (passed : Passed past queue) (tidy : queue.Tidy)
    (bounded : queue.worker.Bounded) (step : QueueStep queue events after) : Passed (past ++ events) after where
  entered := entering_step tidy passed.entered step
  left := inside_step tidy passed.left step
  ordered := passed.ordered.step tidy step
  permitted := by
    intro group member
    rw [processed_append] at member
    rcases List.mem_append.mp member with before | new
    · exact passed.permitted group before
    · exact (bounded_step bounded step).2 group new

/-- A run, with what carries the induction. -/
theorem QueueRun.passes (run : QueueRun events queue) :
    queue.Tidy ∧ queue.worker.Bounded ∧ Passed events queue := by
  refine run.keeps ⟨CommitQueue.Sound.start.tidy, trivial, ?_⟩ ?_
  · exact ⟨List.Perm.nil, List.Perm.nil, ⟨fun _ => rfl, List.prefix_rfl, rfl⟩,
      fun group member => absurd member List.not_mem_nil⟩
  · rintro past before events after ⟨tidy, bounded, passed⟩ step
    exact ⟨tidy.step step, (bounded_step bounded step).1, passed.step tidy bounded step⟩

/-- In every run: nobody who asks is lost or served twice. What is sent is processed in the order in which it was sent,
in groups within the bounds, and every request of a processed group is answered with what came of it, in that order.
Where clients can be told apart, none that was turned back before it had sent is among the processed. -/
theorem submissions_pass (run : QueueRun events queue) :
    Passed events queue ∧
      ((asked events).Nodup → ∀ submission ∈ settled true events, submission ∉ handed events) := by
  obtain ⟨_, _, passed⟩ := run.passes
  refine ⟨passed, ?_⟩
  intro distinct submission back executed
  have apart := passed.entered.nodup distinct
  rw [List.append_assoc, List.nodup_append] at apart
  have turned := (List.nodup_append.mp apart.2.1).2.2
  exact turned submission back submission (passed.ordered.begins.subset executed) rfl

end Passage

/-- A client that sets another key. -/
def secondSet : Submission := ⟨1, .command ["SET", "b", "2"]⟩

/-- The first client is served; the second goes away while it waits for memory. -/
def servedAndWithdrawn [Platform] [Process] (completion : Completion) : List QueueEvent :=
  [.asked firstSet, .sent firstSet, .asked secondSet, .settled secondSet .withdrawn,
    .processed ⟨acceptEverything, emptyServer 0, [firstSet]⟩, .settled firstSet (.answered completion)]

theorem submissions_pass_served :
    letI := Reference.platform (fun _ => .error "unsupported")
    letI := startedProcess
    ∃ queue completion, Passed (servedAndWithdrawn completion) queue ∧
      ∀ submission ∈ settled true (servedAndWithdrawn completion),
        submission ∉ handed (servedAndWithdrawn completion) := by
  let := Reference.platform (fun _ => .error "unsupported")
  let := startedProcess
  obtain ⟨before, ⟨labels, sent, events⟩, line, idle, nothing, arrived⟩ := firstSet_run
  have passes : secondSet.operation.check = .ok 1 := by decide
  have waiting : (before.memory.ask secondSet).waiting = [] ++ secondSet :: [] := by
    rw [Semaphore.ask, line]
  have asks : QueueStep before [.asked secondSet] { before with memory := before.memory.ask secondSet } :=
    .ask secondSet passes
  obtain ⟨alone, leaves, idle, nothing, arrived⟩ : ∃ alone,
      QueueStep { before with memory := before.memory.ask secondSet } [.settled secondSet .withdrawn] alone ∧
        alone.worker = .idle ∧ alone.deferred = none ∧ alone.channel = [firstSet] :=
    ⟨_, .leaveLine waiting, idle, nothing, arrived⟩
  obtain ⟨completion, after, served⟩ := one_served idle nothing arrived acceptEverything (emptyServer 0)
  have run : QueueRun (servedAndWithdrawn completion) after :=
    ⟨_, sent.append (.cons asks (.cons leaves served)), by rw [List.flatten_append, events]; rfl⟩
  have distinct : (asked (servedAndWithdrawn completion)).Nodup := by
    change [firstSet, secondSet].Nodup
    rw [List.nodup_cons, List.mem_singleton]
    exact ⟨(fun same => nomatch congrArg Submission.number same), List.nodup_singleton secondSet⟩
  obtain ⟨passed, apart⟩ := submissions_pass run
  exact ⟨after, completion, passed, apart distinct⟩

end OnyxDB.Coordinator
