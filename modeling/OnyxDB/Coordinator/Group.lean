import OnyxDB.Coordinator.Prepare

/-! Commit groups: the coordinator takes requests from its queue in groups, prepares a group on the store,
numbers its batches and hands them to storage in one append. A refusal undoes the whole group. -/

namespace OnyxDB.Coordinator
open OnyxDB.Engine OnyxDB.Engine.Value OnyxDB.Store OnyxDB.Protocol OnyxDB.Command
  OnyxDB.Persistence.Model OnyxDB.Persistence.Commit

def maxCommitGroupRequests : Nat := 64
def maxCommitGroupLogicalMutations : Nat := 256
def maxCommitGroupInputBytes : Nat := 8 * 1024 * 1024

section Queue

def argumentsSize (arguments : List String) : Nat :=
  arguments.foldl (fun total argument => saturatingAdd total (saturatingAdd (utf8Bytes argument).length 24)) 64

def MasterCommitOperation.estimatedBytes : MasterCommitOperation → Nat
  | .command arguments => argumentsSize arguments
  | .commandGroup commands | .transaction commands =>
      commands.foldl (fun total command => saturatingAdd total (argumentsSize command)) 64
  | .obpSet key value => saturatingAdd (saturatingAdd 64 key.length) value.length
  | .obpDelete key => saturatingAdd 64 key.length

def MasterCommitOperation.logicalMutationUpperBound : MasterCommitOperation → Nat
  | .commandGroup commands => max commands.length 1
  | _ => 1

/-- The receiving end of the queue: the requests in the order they were accepted, those still to come
included, and whether the next one has arrived at each call of `try_recv` to come. -/
structure Receiver where
  queue : List MasterCommitOperation
  arrived : Nat → Bool

def Receiver.tryRecv (receiver : Receiver) : Option MasterCommitOperation × Receiver :=
  let later := fun call => receiver.arrived (call + 1)
  match receiver.arrived 0, receiver.queue with
  | true, request :: rest => (some request, ⟨rest, later⟩)
  | _, queue => (none, ⟨queue, later⟩)

/-- The loop that fills a group, with room for so many more requests. -/
def fillGroup : Nat → List MasterCommitOperation → Nat → Nat → Receiver →
    List MasterCommitOperation × Option MasterCommitOperation × Receiver
  | 0, requests, _, _, receiver => (requests, none, receiver)
  | room + 1, requests, logicalMutations, inputBytes, receiver =>
      match receiver.tryRecv with
      | (none, receiver) => (requests, none, receiver)
      | (some request, receiver) =>
          let projectedMutations := saturatingAdd logicalMutations request.logicalMutationUpperBound
          let projectedBytes := saturatingAdd inputBytes request.estimatedBytes
          if projectedMutations > maxCommitGroupLogicalMutations ∨ projectedBytes > maxCommitGroupInputBytes then
            (requests, some request, receiver)
          else fillGroup room (requests ++ [request]) projectedMutations projectedBytes receiver

/-- The first request of the next group: the deferred one, else what the queue yields. There is none when
the queue is closed and empty. -/
def nextRequest (deferred : Option MasterCommitOperation) (receiver : Receiver) :
    Option (MasterCommitOperation × Receiver) :=
  match deferred, receiver.queue with
  | some request, _ => some (request, receiver)
  | none, request :: rest => some (request, { receiver with queue := rest })
  | none, [] => none

/-- The next group, the request that no longer fitted, and the queue behind them. -/
def nextGroup (deferred : Option MasterCommitOperation) (receiver : Receiver) :
    Option (List MasterCommitOperation × Option MasterCommitOperation × Receiver) :=
  (nextRequest deferred receiver).map (fun next =>
    fillGroup (maxCommitGroupRequests - 1) [next.1] next.1.logicalMutationUpperBound next.1.estimatedBytes next.2)

theorem tryRecv_queue (receiver : Receiver) :
    receiver.tryRecv.1.toList ++ receiver.tryRecv.2.queue = receiver.queue := by
  unfold Receiver.tryRecv
  split
  next present => rw [present]; rfl
  · rfl

/-- Filling a group loses, repeats and reorders nothing. -/
theorem fillGroup_queue (room : Nat) (requests : List MasterCommitOperation) (logicalMutations inputBytes : Nat)
    (receiver : Receiver) :
    let filled := fillGroup room requests logicalMutations inputBytes receiver
    filled.1 ++ filled.2.1.toList ++ filled.2.2.queue = requests ++ receiver.queue := by
  induction room generalizing requests logicalMutations inputBytes receiver with
  | zero => simp [fillGroup]
  | succ room rest =>
      have order := tryRecv_queue receiver
      unfold fillGroup
      cases received : receiver.tryRecv with
      | mk request after =>
          rw [received] at order
          cases request with
          | none =>
              simp only [Option.toList_none, List.nil_append, List.append_nil] at order ⊢
              rw [order]
          | some request =>
              simp only [Option.toList_some, List.singleton_append] at order
              simp only
              split
              · simp [← order]
              · have further := rest (requests ++ [request])
                  (saturatingAdd logicalMutations request.logicalMutationUpperBound)
                  (saturatingAdd inputBytes request.estimatedBytes) after
                simp only at further
                rw [further, ← order]
                simp

theorem nextGroup_queue {deferred : Option MasterCommitOperation} {receiver : Receiver}
    {group : List MasterCommitOperation} {left : Option MasterCommitOperation} {after : Receiver}
    (taken : nextGroup deferred receiver = some (group, left, after)) :
    group ++ left.toList ++ after.queue = deferred.toList ++ receiver.queue := by
  unfold nextGroup at taken
  cases first : nextRequest deferred receiver with
  | none => rw [first] at taken; cases taken
  | some next =>
      obtain ⟨request, rest⟩ := next
      rw [first] at taken
      simp only [Option.map_some, Option.some.injEq] at taken
      have order := fillGroup_queue (maxCommitGroupRequests - 1) [request] request.logicalMutationUpperBound
        request.estimatedBytes rest
      rw [taken] at order
      simp only at order
      rw [order]
      unfold nextRequest at first
      split at first
      · cases first
        rfl
      next present =>
        cases first
        rw [present]
        rfl
      · cases first

/-- The requests a group started with stay in it. -/
theorem fillGroup_grows (room : Nat) (requests : List MasterCommitOperation) (logicalMutations inputBytes : Nat)
    (receiver : Receiver) :
    requests.length ≤ (fillGroup room requests logicalMutations inputBytes receiver).1.length := by
  induction room generalizing requests logicalMutations inputBytes receiver with
  | zero => exact le_rfl
  | succ room rest =>
      unfold fillGroup
      cases received : receiver.tryRecv with
      | mk request after =>
          cases request with
          | none => exact le_rfl
          | some request =>
              simp only
              split
              · exact le_rfl
              · have further := rest (requests ++ [request])
                  (saturatingAdd logicalMutations request.logicalMutationUpperBound)
                  (saturatingAdd inputBytes request.estimatedBytes) after
                rw [List.length_append] at further
                exact (Nat.le_add_right _ _).trans further

theorem nextGroup_shortens {deferred : Option MasterCommitOperation} {receiver : Receiver}
    {group : List MasterCommitOperation} {left : Option MasterCommitOperation} {after : Receiver}
    (taken : nextGroup deferred receiver = some (group, left, after)) :
    left.toList.length + after.queue.length < deferred.toList.length + receiver.queue.length := by
  have order := congrArg List.length (nextGroup_queue taken)
  simp only [List.length_append] at order
  have filled : 0 < group.length := by
    unfold nextGroup at taken
    obtain ⟨next, _, filled⟩ := Option.map_eq_some_iff.mp taken
    have grows := fillGroup_grows (maxCommitGroupRequests - 1) [next.1] next.1.logicalMutationUpperBound
      next.1.estimatedBytes next.2
    rw [filled] at grows
    exact grows
  omega

/-- What the coordinator has done when its loop ends: the groups it handed over, the group it turned away
because the runtime was gone, and the requests it never looked at. -/
structure Coordination where
  groups : List (List MasterCommitOperation)
  rejected : List MasterCommitOperation
  dropped : List MasterCommitOperation

/-- `run_master_commit_coordinator`. The runtime is asked for before every group; `alive` says whether it
is still there. -/
def runMasterCommitCoordinator (alive : Nat → Bool) (deferred : Option MasterCommitOperation)
    (receiver : Receiver) : Coordination :=
  match _ : nextGroup deferred receiver with
  | none => ⟨[], [], []⟩
  | some (group, left, after) =>
      if alive 0 then
        let rest := runMasterCommitCoordinator (fun turn => alive (turn + 1)) left after
        { rest with groups := group :: rest.groups }
      else ⟨[], group, left.toList ++ after.queue⟩
termination_by deferred.toList.length + receiver.queue.length
decreasing_by exact nextGroup_shortens ‹_›

/-- The bounds of a group. -/
structure WithinBounds (group : List MasterCommitOperation) : Prop where
  requests : group.length ≤ maxCommitGroupRequests
  logicalMutations : (group.map MasterCommitOperation.logicalMutationUpperBound).sum ≤ maxCommitGroupLogicalMutations
  inputBytes : (group.map MasterCommitOperation.estimatedBytes).sum ≤ maxCommitGroupInputBytes

theorem saturatingAdd_small {first second limit : Nat} (small : limit < usizeMax)
    (fits : saturatingAdd first second ≤ limit) : saturatingAdd first second = first + second := by
  unfold saturatingAdd at *
  omega

/-- A group that took a second request was within the bounds when it took its last one. -/
theorem fillGroup_within (room : Nat) (requests : List MasterCommitOperation) (receiver : Receiver) :
    let filled := fillGroup room requests (requests.map MasterCommitOperation.logicalMutationUpperBound).sum
      (requests.map MasterCommitOperation.estimatedBytes).sum receiver
    filled.1 = requests ∨
      (filled.1.length ≤ requests.length + room ∧
        (filled.1.map MasterCommitOperation.logicalMutationUpperBound).sum ≤ maxCommitGroupLogicalMutations ∧
        (filled.1.map MasterCommitOperation.estimatedBytes).sum ≤ maxCommitGroupInputBytes) := by
  induction room generalizing requests receiver with
  | zero => exact Or.inl rfl
  | succ room rest =>
      simp only
      unfold fillGroup
      cases received : receiver.tryRecv with
      | mk request after =>
          cases request with
          | none => exact Or.inl rfl
          | some request =>
              simp only
              split
              · exact Or.inl rfl
              next fits =>
                rw [not_or, Nat.not_lt, Nat.not_lt] at fits
                have mutations := saturatingAdd_small (by decide) fits.1
                have bytes := saturatingAdd_small (by decide) fits.2
                have further := rest (requests ++ [request]) after
                simp only [List.map_append, List.map_cons, List.map_nil, List.sum_append, List.sum_cons,
                  List.sum_nil, Nat.add_zero, List.length_append, List.length_cons, List.length_nil] at further
                rw [mutations] at fits ⊢
                rw [bytes] at fits ⊢
                refine Or.inr ?_
                rcases further with same | ⟨length, within⟩
                · rw [same]
                  simp only [List.map_append, List.map_cons, List.map_nil, List.sum_append, List.sum_cons,
                    List.sum_nil, Nat.add_zero, List.length_append, List.length_cons, List.length_nil]
                  exact ⟨by omega, fits⟩
                · exact ⟨by omega, within⟩

theorem nextGroup_within {deferred : Option MasterCommitOperation} {receiver : Receiver}
    {group : List MasterCommitOperation} {left : Option MasterCommitOperation} {after : Receiver}
    (taken : nextGroup deferred receiver = some (group, left, after)) (several : 1 < group.length) :
    WithinBounds group := by
  unfold nextGroup at taken
  obtain ⟨next, _, filled⟩ := Option.map_eq_some_iff.mp taken
  have within := fillGroup_within (maxCommitGroupRequests - 1) [next.1] next.2
  simp only [List.map_cons, List.map_nil, List.sum_cons, List.sum_nil, Nat.add_zero] at within
  rw [filled] at within
  rcases within with alone | ⟨length, mutations, bytes⟩
  · change group = [next.1] at alone
    rw [alone] at several
    exact absurd several (by simp)
  · exact ⟨length, mutations, bytes⟩

theorem runMasterCommitCoordinator_idle {deferred : Option MasterCommitOperation} {receiver : Receiver}
    (alive : Nat → Bool) (taken : nextGroup deferred receiver = none) :
    runMasterCommitCoordinator alive deferred receiver = ⟨[], [], []⟩ := by
  rw [runMasterCommitCoordinator]
  split
  · rfl
  next present => rw [taken] at present; cases present

theorem runMasterCommitCoordinator_group {deferred left : Option MasterCommitOperation}
    {receiver after : Receiver} {group : List MasterCommitOperation} (alive : Nat → Bool)
    (taken : nextGroup deferred receiver = some (group, left, after)) :
    runMasterCommitCoordinator alive deferred receiver =
      if alive 0 then
        { runMasterCommitCoordinator (fun turn => alive (turn + 1)) left after with
          groups := group :: (runMasterCommitCoordinator (fun turn => alive (turn + 1)) left after).groups }
      else ⟨[], group, left.toList ++ after.queue⟩ := by
  rw [runMasterCommitCoordinator]
  split
  next absent => rw [taken] at absent; cases absent
  next present =>
    rw [taken] at present
    cases present
    rfl

theorem nextGroup_none {deferred : Option MasterCommitOperation} {receiver : Receiver}
    (taken : nextGroup deferred receiver = none) : deferred.toList ++ receiver.queue = [] := by
  unfold nextGroup nextRequest at taken
  cases deferred with
  | some request => simp at taken
  | none =>
      cases queued : receiver.queue with
      | nil => rfl
      | cons request rest => simp [queued] at taken

/-- What the loop does with its queue: every request is handed over once and in the order of arrival until
the runtime is gone, and a group of several requests is within the bounds. -/
structure Distributes (queue : List MasterCommitOperation) (alive : Nat → Bool) (run : Coordination) : Prop where
  order : run.groups.flatten ++ run.rejected ++ run.dropped = queue
  bounds : ∀ group ∈ run.groups, 1 < group.length → WithinBounds group
  complete : (∀ turn, alive turn = true) → run.groups.flatten = queue

theorem runMasterCommitCoordinator_distributes (alive : Nat → Bool) (deferred : Option MasterCommitOperation)
    (receiver : Receiver) :
    Distributes (deferred.toList ++ receiver.queue) alive
      (runMasterCommitCoordinator alive deferred receiver) := by
  induction size : deferred.toList.length + receiver.queue.length using Nat.strongRecOn
    generalizing alive deferred receiver with
  | ind size smaller =>
      cases taken : nextGroup deferred receiver with
      | none =>
          rw [runMasterCommitCoordinator_idle alive taken, nextGroup_none taken]
          exact ⟨rfl, fun _ member => absurd member List.not_mem_nil, fun _ => rfl⟩
      | some next =>
          obtain ⟨group, left, after⟩ := next
          have order := nextGroup_queue taken
          have shorter := nextGroup_shortens taken
          rw [runMasterCommitCoordinator_group alive taken, ← order]
          split
          · have rest := smaller (left.toList.length + after.queue.length) (size ▸ shorter)
              (fun turn => alive (turn + 1)) left after rfl
            refine ⟨?_, ?_, ?_⟩
            · have further := congrArg (group ++ ·) rest.order
              simpa only [List.flatten_cons, List.append_assoc] using further
            · intro chosen member several
              rcases List.mem_cons.mp member with rfl | later
              · exact nextGroup_within taken several
              · exact rest.bounds chosen later several
            · intro alive
              rw [List.flatten_cons, rest.complete (fun turn => alive (turn + 1)), List.append_assoc]
          next gone =>
            refine ⟨by simp, fun _ member => absurd member List.not_mem_nil, ?_⟩
            intro alive
            exact absurd (alive 0) gone

end Queue

end OnyxDB.Coordinator
