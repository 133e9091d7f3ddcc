import OnyxDB.Coordinator.QueueOrder
import OnyxDB.Library.Inevitable

/-! The queue empties: once nobody asks any more, whatever clients and worker do and in which order, every request comes
to its end and gives its memory back, as long as the worker gets the commit boundary whenever it waits for it. -/

namespace OnyxDB.Coordinator
open OnyxDB.Library OnyxDB.Library.Semaphore OnyxDB.Engine OnyxDB.Engine.Value OnyxDB.Store OnyxDB.Protocol
  OnyxDB.Command OnyxDB.Persistence.Model OnyxDB.Persistence.Commit

section Measure

/-- How far the worker is from its end. -/
def Worker.rank : Worker → Nat
  | .gone => 0
  | .idle | .rejecting _ => 1
  | .answering _ _ _ => 2
  | .committing _ => 3
  | .awaiting _ => 4
  | .filled _ => 5
  | .filling _ _ _ => 6

/-- The work before clients and worker: a request counts the more the farther it is from its end. -/
def CommitQueue.outstanding (queue : CommitQueue) : Nat :=
  12 * queue.memory.waiting.length + 11 * queue.memory.granted.length + 10 * queue.slots.waiting.length +
    9 * queue.slots.granted.length + 7 * (queue.channel.length + queue.deferred.toList.length) +
    queue.worker.requests.length + queue.worker.rank + queue.uncounted

/-- An ended worker leaves nothing to be done but the clients' own. -/
theorem close_decreases {queue : CommitQueue} (busy : 0 < queue.worker.rank) :
    queue.close.outstanding < queue.outstanding := by
  simp only [CommitQueue.outstanding, CommitQueue.close, Semaphore.release, Worker.requests, List.length_nil,
    Option.toList_none]
  have ended : Worker.gone.rank = 0 := rfl
  omega

variable [Platform] [Process]
variable {queue after : CommitQueue} {events : List QueueEvent}

attribute [local simp] CommitQueue.outstanding CommitQueue.abandon CommitQueue.close Worker.requests Worker.rank
  Semaphore.ask Semaphore.release

theorem QueueStep.decreases (tidy : queue.Tidy) (step : QueueStep queue events after) (nothing : asked events = []) :
    after.outstanding < queue.outstanding := by
  obtain ⟨⟨free, waiting, granted⟩, ⟨slotsFree, slotsWaiting, slotsGranted⟩, channel, deferred, worker, uncounted,
    metrics⟩ := queue
  cases step with
  | ask | refuse => cases nothing
  | grantMemory grants | grantSlot grants =>
      obtain ⟨task, waiting, rfl, _, rfl⟩ := grant_cases grants
      simp
      omega
  | enterQueue moved | send _ moved =>
      obtain rfl := moved
      simp
      omega
  | leaveLine moved | leaveGranted moved | leaveSlotLine moved | leaveSlot moved | count moved | full moved
  | commit moved | enter moved | answer moved | finish moved | lose moved | reject moved =>
      obtain rfl := moved
      simp
  | resume worked moved | fill worked _ moved =>
      obtain rfl := worked
      obtain rfl := moved
      simp
      omega
  | receive worked nothing moved =>
      obtain rfl := worked
      obtain rfl := nothing
      obtain rfl := moved
      simp
      omega
  | defer worked _ moved =>
      obtain rfl := tidy.deferring _ _ _ worked
      obtain rfl := worked
      obtain rfl := moved
      simp
  | @turnDown requests worked append server | @process requests worked append server =>
      obtain rfl := worked
      have each := congrArg List.length (answers_requests ⟨append, server, requests⟩)
      rw [List.length_map] at each
      simp [each]
  | stop rejecting =>
      obtain rfl := rejecting
      exact close_decreases Nat.zero_lt_one
  | die suspended =>
      refine close_decreases ?_
      cases worker with
      | gone => cases suspended
      | _ => exact Nat.succ_pos _

end Measure

section Progress
variable [Platform] [Process]
variable {queue after : CommitQueue} {events : List QueueEvent}

/-- Steps that need no misfortune: no client goes away, and the worker is not ended. -/
def Works (queue after : CommitQueue) : Prop :=
  ∃ events, QueueStep queue events after ∧ asked events = [] ∧ after.worker.receives = queue.worker.receives ∧
    ∀ submission, QueueEvent.settled submission .withdrawn ∉ events

/-- Steps in which nobody asks. -/
def Proceeds (queue after : CommitQueue) : Prop := ∃ events, QueueStep queue events after ∧ asked events = []

/-- Nobody waits or is with the coordinator, and all memory is free. -/
structure Drained (queue : CommitQueue) : Prop where
  entering : queue.entering = []
  inside : queue.inside = []
  memory : queue.memory.free = commitQueueMemoryUnits
  depth : queue.metrics.queueDepth = 0
  counted : queue.uncounted = 0

/-- Nothing is done any more, and the worker waits for the commit boundary. -/
def Halted (step : CommitQueue → CommitQueue → Prop) (queue : CommitQueue) : Prop :=
  queue.worker.awaits = true ∧ ∀ after, ¬ step queue after

theorem QueueStep.works (step : QueueStep queue events after) (nothing : asked events = [])
    (receives : after.worker.receives = queue.worker.receives)
    (stays : ∀ submission, QueueEvent.settled submission .withdrawn ∉ events) : ∃ after, Works queue after :=
  ⟨after, events, step, nothing, receives, stays⟩

/-- A worker that has something to do and does not wait for the boundary can go on. -/
theorem worker_works (busy : queue.worker ≠ .gone) (runs : queue.worker.awaits = false)
    (idle : queue.worker = .idle → queue.deferred ≠ none ∨ queue.channel ≠ []) : ∃ after, Works queue after := by
  have quiet : ∀ {after : CommitQueue}, QueueStep queue [] after →
      after.worker.receives = queue.worker.receives → ∃ after, Works queue after :=
    fun step receives => step.works rfl receives (fun _ => List.not_mem_nil)
  cases worker : queue.worker with
  | gone => exact absurd worker busy
  | idle =>
      cases left : queue.deferred with
      | some first => exact quiet (.resume worker left) (by rw [worker]; rfl)
      | none =>
          cases arrived : queue.channel with
          | nil =>
              rcases idle worker with put | waiting
              · exact absurd left put
              · exact absurd arrived waiting
          | cons first rest => exact quiet (.receive worker left arrived) (by rw [worker]; rfl)
  | filling requests logicalMutations inputBytes =>
      by_cases room : requests.length < maxCommitGroupRequests
      · cases arrived : queue.channel with
        | nil => exact quiet (.full worker (.inr arrived)) (by rw [worker]; rfl)
        | cons request rest =>
            by_cases mutations : saturatingAdd logicalMutations request.operation.logicalMutationUpperBound ≤
                maxCommitGroupLogicalMutations
            · by_cases bytes : saturatingAdd inputBytes request.operation.estimatedBytes ≤ maxCommitGroupInputBytes
              · exact quiet (.fill worker room arrived mutations bytes) (by rw [worker]; rfl)
              · exact quiet (.defer worker room arrived (.inr (Nat.lt_of_not_le bytes))) (by rw [worker]; rfl)
            · exact quiet (.defer worker room arrived (.inl (Nat.lt_of_not_le mutations))) (by rw [worker]; rfl)
      · exact quiet (.full worker (.inl room)) (by rw [worker]; rfl)
  | filled requests => exact quiet (.commit worker) (by rw [worker]; rfl)
  | awaiting requests =>
      rw [worker] at runs
      cases runs
  | committing requests =>
      have step := QueueStep.process worker acceptEverything (emptyServer 0)
      exact step.works rfl (by rw [worker]; rfl) (fun _ member => nomatch List.mem_singleton.mp member)
  | answering owed result batches =>
      cases owed with
      | nil => exact quiet (.finish worker) (by rw [worker]; rfl)
      | cons first owed =>
          have step := QueueStep.answer worker
          exact step.works rfl (by rw [worker]; rfl) (fun _ member => nomatch List.mem_singleton.mp member)
  | rejecting requests =>
      cases requests with
      | nil =>
          refine (QueueStep.stop worker).works ?_ (by rw [worker]; rfl) ?_
          · simp [asked]
          · simp
      | cons first requests =>
          have step := QueueStep.reject worker
          exact step.works rfl (by rw [worker]; rfl) (fun _ member => nomatch List.mem_singleton.mp member)

/-- Whoever waits for a slot gets on once the worker rests. -/
theorem slots_work (sound : queue.Sound) (empty : queue.channel = [])
    (waiting : queue.slots.waiting ++ queue.slots.granted ≠ []) : ∃ after, Works queue after := by
  cases given : queue.slots.granted with
  | cons submission late =>
      have first : queue.slots.granted = [] ++ submission :: late := given
      by_cases gone : queue.worker = .gone
      · have step := QueueStep.leaveSlot first (Or.inr ⟨rfl, gone⟩)
        exact step.works rfl rfl (fun _ member => nomatch List.mem_singleton.mp member)
      · have step := QueueStep.send gone first
        exact step.works rfl rfl (fun _ member => nomatch List.mem_singleton.mp member)
  | nil =>
      cases line : queue.slots.waiting with
      | nil => simp [given, line] at waiting
      | cons submission late =>
          have first : queue.slots.waiting = [] ++ submission :: late := line
          by_cases gone : queue.worker = .gone
          · have step := QueueStep.leaveSlotLine first (Or.inr ⟨rfl, gone⟩)
            exact step.works rfl rfl (fun _ member => nomatch List.mem_singleton.mp member)
          · have balanced := sound.slots gone
            rw [empty] at balanced
            obtain ⟨slots, grants⟩ := balanced.grants given line (by decide)
            exact (QueueStep.grantSlot grants).works rfl rfl (fun _ => List.not_mem_nil)

/-- Whoever waits for memory gets on once nobody holds any. -/
theorem memory_works (sound : queue.Sound) (empty : queue.holding = [])
    (waiting : queue.memory.waiting ++ queue.memory.granted ≠ []) : ∃ after, Works queue after := by
  cases given : queue.memory.granted with
  | cons submission late =>
      have first : queue.memory.granted = [] ++ submission :: late := given
      exact (QueueStep.enterQueue first).works rfl rfl (fun _ => List.not_mem_nil)
  | nil =>
      cases line : queue.memory.waiting with
      | nil => simp [given, line] at waiting
      | cons submission late =>
          have balanced := sound.memory
          rw [empty] at balanced
          have first : submission ∈ queue.entering ++ queue.inside := by simp [CommitQueue.entering, line]
          obtain ⟨memory, grants⟩ := balanced.grants given line (sound.admissible submission first).charged.2.1
          exact (QueueStep.grantMemory grants).works rfl rfl (fun _ => List.not_mem_nil)

omit [Platform] [Process] in
/-- A worker that has nothing to do holds nothing. -/
theorem inside_nil (tidy : queue.Tidy)
    (rests : queue.worker = .gone ∨ (queue.worker = .idle ∧ queue.deferred = none ∧ queue.channel = [])) :
    queue.inside = [] := by
  unfold CommitQueue.inside
  rcases rests with gone | ⟨idle, nothing, empty⟩
  · obtain ⟨empty, nothing⟩ := tidy.ended gone
    rw [empty, nothing, gone]
    rfl
  · rw [empty, nothing, idle]
    rfl

/-- Until the queue is drained somebody can go on without any misfortune, unless the worker waits for the boundary. -/
theorem works_of_undrained (sound : queue.Sound) (undrained : ¬ Drained queue) (runs : queue.worker.awaits = false) :
    ∃ after, Works queue after := by
  by_contra stuck
  have rests : queue.worker = .gone ∨ (queue.worker = .idle ∧ queue.deferred = none ∧ queue.channel = []) := by
    by_contra busy
    rw [not_or] at busy
    refine stuck (worker_works busy.1 runs fun idle => ?_)
    by_contra nothing
    rw [not_or, not_not, not_not] at nothing
    exact busy.2 ⟨idle, nothing⟩
  have inside := inside_nil sound.tidy rests
  obtain ⟨read, requests⟩ := List.append_eq_nil_iff.mp inside
  obtain ⟨channel, deferred⟩ := List.append_eq_nil_iff.mp read
  have slots : queue.slots.waiting ++ queue.slots.granted = [] := by
    by_contra waiting
    exact stuck (slots_work sound channel waiting)
  have holding : queue.holding = [] := by
    rw [CommitQueue.holding, CommitQueue.queued, slots, read, requests]
    rfl
  have lines : queue.memory.waiting ++ queue.memory.granted = [] := by
    by_contra waiting
    exact stuck (memory_works sound holding waiting)
  have charged := sound.charged
  rw [(List.append_eq_nil_iff.mp lines).2, holding] at charged
  have queued : queue.queued = [] := by rw [CommitQueue.queued, slots, read]; rfl
  refine undrained ⟨?_, inside, charged, ?_, ?_⟩
  · rw [CommitQueue.entering, lines, slots]
    rfl
  · rw [sound.counted.depth, queued]
    rfl
  · cases left : queue.uncounted with
    | zero => rfl
    | succ others => exact absurd ((QueueStep.count left).works rfl rfl (fun _ => List.not_mem_nil)) stuck

/-- What nobody asks at shrinks, and where nothing is done any more the queue is drained or the worker waits. -/
theorem proceeds_until (run : QueueRun events queue) {step : CommitQueue → CommitQueue → Prop}
    {goal : CommitQueue → Prop} (most : ∀ before after, step before after → Proceeds before after)
    (ends : ∀ last, last.Sound → (∀ after, ¬ step last after) → goal last) : Inevitable step goal queue := by
  have keeps : ∀ before after : CommitQueue, before.Sound → ¬ goal before → step before after →
      after.Sound ∧ after.outstanding < before.outstanding := by
    intro before after sound _ taken
    obtain ⟨events, taken, nothing⟩ := most before after taken
    exact ⟨sound.step taken, taken.decreases sound.tidy nothing⟩
  exact .of_measure wellFounded_lt CommitQueue.outstanding keeps ends run.sound

/-- From every point of a run: if nobody asks any more, and something is done wherever somebody can go on and the worker
does not wait for the commit boundary, then whatever it is that is done, and be it that clients go away and the worker
is ended, it comes to an end, with the queue drained or the worker waiting for a boundary that it does not get. Where
such a wait always ends, the queue comes to be drained. -/
theorem queue_drains (run : QueueRun events queue) {step : CommitQueue → CommitQueue → Prop}
    (moves : ∀ before, before.worker.awaits = false → (∃ after, Works before after) → ∃ after, step before after)
    (most : ∀ before after, step before after → Proceeds before after) :
    Inevitable step (fun last => Drained last ∨ Halted step last) queue ∧
      ((∀ before, before.worker.awaits = true → ∃ after, step before after) → Inevitable step Drained queue) := by
  have rests : ∀ last : CommitQueue, last.Sound → (∀ after, ¬ step last after) → last.worker.awaits = false →
      Drained last := by
    intro last sound still runs
    by_contra undrained
    obtain ⟨after, taken⟩ := moves last runs (works_of_undrained sound undrained runs)
    exact still after taken
  refine ⟨proceeds_until run most ?_, fun granted => proceeds_until run most ?_⟩
  · intro last sound still
    cases awaits : last.worker.awaits with
    | false => exact .inl (rests last sound still awaits)
    | true => exact .inr ⟨awaits, still⟩
  · intro last sound still
    refine rests last sound still (Bool.eq_false_iff.mpr fun awaits => ?_)
    obtain ⟨after, taken⟩ := granted last awaits
    exact still after taken

/-- The boundary is there whenever the worker waits for it. -/
theorem proceeds_of_awaits (awaits : queue.worker.awaits = true) : ∃ after, Proceeds queue after := by
  cases worker : queue.worker with
  | awaiting requests => exact ⟨_, [], .enter worker, rfl⟩
  | _ =>
      rw [worker] at awaits
      cases awaits

end Progress

theorem queue_drains_set :
    letI := Reference.platform (fun _ => .error "unsupported")
    letI := startedProcess
    ∃ queue, QueueRun [.asked firstSet, .sent firstSet] queue ∧ Inevitable Proceeds Drained queue := by
  let := Reference.platform (fun _ => .error "unsupported")
  let := startedProcess
  obtain ⟨queue, run, _⟩ := firstSet_run
  have moves : ∀ before : CommitQueue, before.worker.awaits = false → (∃ after, Works before after) →
      ∃ after, Proceeds before after := by
    rintro before _ ⟨after, events, step, nothing, _⟩
    exact ⟨after, events, step, nothing⟩
  obtain ⟨_, drains⟩ := queue_drains run moves (fun _ _ proceeds => proceeds)
  exact ⟨queue, run, drains (fun _ => proceeds_of_awaits)⟩

end OnyxDB.Coordinator
