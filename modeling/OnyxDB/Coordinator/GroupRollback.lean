import OnyxDB.Coordinator.Coherence

/-! The rollback of a group, which undoes its requests in reverse: the content comes back as the coordinator compares
it. A value that a request replaced by an equal one has left no rollback and stays. -/

namespace OnyxDB.Coordinator
open OnyxDB.Library OnyxDB.Engine OnyxDB.Engine.Value OnyxDB.Store OnyxDB.Protocol OnyxDB.Command
  OnyxDB.Persistence.Model OnyxDB.Persistence.Commit

section Sizes

theorem sum_map_of_matching {α : Type} {first second : List α} (distinct : first.Nodup)
    (within : ∀ item ∈ first, item ∈ second) (length : first.length = second.length) (size : α → Nat) :
    (first.map size).sum = (second.map size).sum := by
  have same : first.Perm second :=
    (List.subperm_of_subset distinct within).perm_of_length_le (Nat.le_of_eq length.symm)
  exact (same.map size).sum_eq

theorem hash_size_eq {first second : HashMap} (equal : first.beq second = true) (size : (Sigma fun _ : Bytes => Bytes) → Nat) :
    (first.entries.map size).sum = (second.entries.map size).sum := by
  simp only [HashMap.beq, Bool.and_eq_true, beq_iff_eq, List.all_eq_true] at equal
  apply sum_map_of_matching (List.NodupKeys.nodup first.nodupKeys) ?_ equal.1
  intro entry member
  exact AList.mem_lookup_iff.mp (equal.2 entry member)

theorem set_size_eq {first second : HashSet} (equal : first.beq second = true) (size : Bytes → Nat) :
    (first.members.map size).sum = (second.members.map size).sum := by
  simp only [HashSet.beq, Bool.and_eq_true, beq_iff_eq, List.all_eq_true, decide_eq_true_eq] at equal
  exact sum_map_of_matching first.nodup equal.2 equal.1 size

variable [Platform]

/-- How long the document of a value is printed. -/
def printedLength : OnyxValue → Nat
  | .json document => (utf8Bytes (Platform.jsonToString document)).length
  | _ => 0

/-- Equal values have one size, if they are printed equally long. -/
theorem approxValueSize_eq {first second : OnyxValue} (equal : first.beq second = true)
    (printed : printedLength first = printedLength second) : approxValueSize first = approxValueSize second := by
  cases first <;> cases second <;> simp only [OnyxValue.beq, Bool.false_eq_true] at equal
  case blob.blob => rw [beq_iff_eq.mp equal]
  case int.int => rfl
  case float.float => rfl
  case list.list => rw [beq_iff_eq.mp equal]
  case hash.hash => exact hash_size_eq equal _
  case set.set => exact set_size_eq equal _
  case json.json => exact printed
  case vector.vector =>
    rw [Bool.and_eq_true, beq_iff_eq] at equal
    exact congrArg (· * 4) equal.1

/-- How long the document of an image is printed. -/
def printedImage (image : Option PersistentEntry) : Nat := image.elim 0 (fun entry => printedLength entry.value)

def imageSize (key : Bytes) (image : Option PersistentEntry) : Nat :=
  image.elim 0 (fun entry => approxEntrySize key (entry.intoDataEntry 0))

theorem Alike.size {first second : Option PersistentEntry} (alike : Alike first second)
    (printed : printedImage first = printedImage second) (key : Bytes) : imageSize key first = imageSize key second := by
  rcases alike with rfl | equal
  · rfl
  · rcases imageBeq_some equal with ⟨rfl, rfl⟩ | ⟨one, other, rfl, rfl, same⟩
    · rfl
    · simp only [entryBeq, Bool.and_eq_true] at same
      exact congrArg (key.length + · + 64) (approxValueSize_eq same.1 printed)

omit [Platform] in
theorem Alike.isSome {first second : Option PersistentEntry} (alike : Alike first second) :
    first.isSome = second.isSome := by
  rcases alike with rfl | equal
  · rfl
  · rcases imageBeq_some equal with ⟨rfl, rfl⟩ | ⟨one, other, rfl, rfl, _⟩
    · rfl
    · rfl

/-- The memory of the live entries, as the engine accounts for it. -/
def liveMemory (store : ShardedStore) (time : Nat) : Nat :=
  ((store.engine.aliveKeys time).map (fun key => imageSize key (store.view time key))).sum

end Sizes

section Counts
variable {store restored : ShardedStore} {time : Nat} (alike : ∀ key, Alike (store.view time key) (restored.view time key))
include alike

/-- Contents that are alike have the same live keys. -/
theorem aliveKeys_perm : (store.engine.aliveKeys time).Perm (restored.engine.aliveKeys time) := by
  rw [List.perm_ext_iff_of_nodup (store.engine.nodup_aliveKeys time) (restored.engine.nodup_aliveKeys time)]
  intro key
  rw [OnyxEngine.mem_aliveKeys, OnyxEngine.mem_aliveKeys]
  exact iff_of_eq (congrArg (· = true) (alike key).isSome)

theorem liveMemory_alike [Platform]
    (printed : ∀ key, printedImage (store.view time key) = printedImage (restored.view time key)) :
    liveMemory store time = liveMemory restored time := by
  have sizes : ∀ key, imageSize key (store.view time key) = imageSize key (restored.view time key) :=
    fun key => (alike key).size (printed key) key
  unfold liveMemory
  simp only [sizes]
  exact ((aliveKeys_perm alike).map _).sum_eq

end Counts

section Undoing

theorem undoWrites_cons (undo : MutationRollback) (rest : List MutationRollback) :
    undoWrites (undo :: rest) = undoWrites rest ++ restoringWrites undo.beforeEntries undo.evictedEntries := by
  rw [undoWrites, List.reverse_cons, List.flatMap_append, List.flatMap_singleton, undoWrites]

variable [Platform]

theorem restoreAll_writes (rollbacks : List MutationRollback) (store : ShardedStore) :
    Writes store (restoreAll rollbacks store).2 (undoWrites rollbacks) := by
  induction rollbacks with
  | nil => exact Writes.refl store
  | cons undo rest early =>
      rw [undoWrites_cons]
      exact early.trans (restoreEntries_writes _ _ _)

variable [Process]

/-- What a group of requests did, by the batches and rollbacks of all of them. -/
theorem prepares_describes {time : Nat} {store after : ShardedStore} {requests : List MasterCommitOperation}
    {prepared : List PreparedMasterCommit} (fixed : store.engine.clock.Fixed time)
    (prepares : Prepares store requests prepared after) :
    Describes time store after (allBatches prepared) (prepared.flatMap PreparedMasterCommit.rollbacks) := by
  induction prepares with
  | done => exact .quiet fixed (fun _ => .refl _)
  | @next _ _ _ request _ _ _ first _ rest =>
      obtain ⟨pending, middle, preparation, describes⟩ := prepareRequest_describes request fixed
      rw [first] at preparation
      cases preparation
      exact describes.trans (rest describes.fixed)

/-- After a group is rolled back, the content is what the group found, as the coordinator compares it: as many keys
are live, and they take as much memory, except where a document was replaced by an equal one that is printed with
another length. -/
theorem group_rollback_restores {time : Nat} {store : ShardedStore} (fixed : store.engine.clock.Fixed time)
    (requests : List MasterCommitOperation) :
    ∃ prepared after restored, prepareRequests requests [] store = (.ok prepared, after) ∧
      rollbackPrepared prepared after = ((), restored) ∧
      (∀ key, Alike (store.view time key) (restored.view time key)) ∧
      (store.engine.aliveKeys time).length = (restored.engine.aliveKeys time).length ∧
      ((∀ key, printedImage (store.view time key) = printedImage (restored.view time key)) →
        liveMemory store time = liveMemory restored time) := by
  obtain ⟨prepared, after, prepares, standing⟩ := prepares_all requests fixed
  have described := prepares_describes fixed prepares
  have writes := restoreAll_writes (prepared.flatMap PreparedMasterCommit.rollbacks) after
  have restores := writes.view time standing.upto
  have alike : ∀ key, Alike (store.view time key) ((rollbackPrepared prepared after).2.view time key) := by
    intro key
    rw [rollbackPrepared, restores]
    exact described.reverts key
  exact ⟨prepared, after, (rollbackPrepared prepared after).2, prepareRequests_eq prepares [], rfl, alike,
    (aliveKeys_perm alike).length_eq, liveMemory_alike alike⟩

/-- What a group leaves of a store when it is prepared and rolled back. -/
def rolledBack (requests : List MasterCommitOperation) (store : ShardedStore) : ShardedStore :=
  match prepareRequests requests [] store with
  | (.ok prepared, after) => (rollbackPrepared prepared after).2
  | (.error _, after) => after

theorem rolledBack_prepared {store after : ShardedStore} {requests : List MasterCommitOperation}
    {prepared : List PreparedMasterCommit} (preparation : prepareRequests requests [] store = (.ok prepared, after)) :
    rolledBack requests store = (rollbackPrepared prepared after).2 := by
  rw [rolledBack, preparation]

end Undoing

/-- A group with a transaction that fails in its second member, and a command on a key it has written. -/
theorem group_rollback_restores_writes :
    letI := Reference.platform (fun _ => .error "unsupported")
    letI := startedProcess
    ∃ prepared after restored,
      prepareRequests [.transaction [["SET", "a", "1"], ["LPUSH", "a", "2"]], .command ["APPEND", "a", "3"]] []
        (emptyServer 0).store = (.ok prepared, after) ∧
      rollbackPrepared prepared after = ((), restored) ∧
      (∀ key, Alike ((emptyServer 0).store.view 0 key) (restored.view 0 key)) ∧
      ((emptyServer 0).store.engine.aliveKeys 0).length = (restored.engine.aliveKeys 0).length ∧
      ((∀ key, printedImage ((emptyServer 0).store.view 0 key) = printedImage (restored.view 0 key)) →
        liveMemory (emptyServer 0).store 0 = liveMemory restored 0) :=
  letI := Reference.platform (fun _ => .error "unsupported")
  letI := startedProcess
  group_rollback_restores (fun _ => rfl) _

section Zeros

/-- A parser of the two zeros. -/
def parseZero (text : Bytes) : Except String Json :=
  if text = utf8Bytes "0.0" then .ok (.number (.float ⟨0⟩ (by decide)))
  else if text = utf8Bytes "-0.0" then .ok (.number (.float ⟨0x8000000000000000⟩ (by decide)))
  else .error "unsupported"

def setZero (number : String) : MasterCommitOperation := .command ["JSON.SET", "k", "$", number]

/-- A store whose one document is the number zero. -/
def zeroStored : ShardedStore :=
  letI := Reference.platform parseZero
  letI := startedProcess
  (prepareRequest (setZero "0.0") (emptyServer 0).store).2

/-- The two zeros are equal, so the second leaves no rollback when it replaces the first; it stays, and takes a byte
more. -/
theorem rollback_leaves_negative_zero :
    letI := Reference.platform parseZero
    letI := startedProcess
    ∃ prepared after restored, zeroStored.engine.clock.Fixed 0 ∧
      prepareRequests [setZero "-0.0"] [] zeroStored = (.ok prepared, after) ∧
      rollbackPrepared prepared after = ((), restored) ∧
      restored.view 0 (utf8Bytes "k") ≠ zeroStored.view 0 (utf8Bytes "k") ∧
      liveMemory restored 0 = liveMemory zeroStored 0 + 1 := by
  let _ := Reference.platform parseZero
  let _ := startedProcess
  have fixed : zeroStored.engine.clock.Fixed 0 := by
    obtain ⟨_, _, first, standing⟩ := prepareRequest_settles 0 (setZero "0.0") (emptyServer 0).store (fun _ => rfl)
    rw [zeroStored, first]
    exact standing
  have printed : printedImage (zeroStored.view 0 (utf8Bytes "k")) = 3 := by decide +kernel
  have longer : printedImage ((rolledBack [setZero "-0.0"] zeroStored).view 0 (utf8Bytes "k")) = 4 := by
    decide +kernel
  have memory : liveMemory (rolledBack [setZero "-0.0"] zeroStored) 0 = liveMemory zeroStored 0 + 1 := by
    decide +kernel
  obtain ⟨prepared, after, prepares, _⟩ := prepares_all [setZero "-0.0"] fixed
  have preparation := prepareRequests_eq prepares []
  rw [List.nil_append] at preparation
  rw [rolledBack_prepared preparation] at longer memory
  refine ⟨prepared, after, (rollbackPrepared prepared after).2, fixed, preparation, rfl, ?_, memory⟩
  intro same
  rw [same, printed] at longer
  cases longer

end Zeros

end OnyxDB.Coordinator
