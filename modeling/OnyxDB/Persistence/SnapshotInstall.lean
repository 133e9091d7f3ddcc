import OnyxDB.Persistence.CrashSafety

/-! Writing a snapshot file and putting it in place of the old one, where the renames and the directory
synchronizations may fail. -/

namespace OnyxDB.Persistence.SnapshotInstall
open OnyxDB.Library OnyxDB.Engine OnyxDB.Engine.Value OnyxDB.Store OnyxDB.Persistence.Codec
  OnyxDB.Persistence.Model OnyxDB.Persistence.Recovery OnyxDB.Persistence.Snapshot
  OnyxDB.Persistence.Writing OnyxDB.Persistence.Lifecycle

section Model

/-- The outcomes of the calls of an installer, one after another: a message is a failure, and the calls
beyond the script succeed. -/
abbrev Script := List (Option String)

abbrev Installing := ExceptT PersistenceError (StateM (Directory × Script))

/-- One call of the installer. A call that fails changes nothing. -/
def call (change : Directory → Directory) : Installing Unit := fun state =>
  match state.2 with
  | some message :: script => (.error (.new message), (state.1, script))
  | none :: script => (.ok (), (change state.1, script))
  | [] => (.ok (), (change state.1, []))

/-- `rename(snapshot, snapshot_backup)`. -/
def renameToBackup : Installing Unit := call displaceSnapshot

/-- `rename(snapshot_temp, snapshot)`. -/
def renameTemporary : Installing Unit :=
  call (fun directory => { directory with snapshot := directory.snapshotTemp, snapshotTemp := none })

/-- `rename(snapshot_backup, snapshot)`. -/
def renameFromBackup : Installing Unit :=
  call (fun directory => { directory with snapshot := directory.snapshotBackup, snapshotBackup := none })

def syncParent : Installing Unit := call id

/-- The old snapshot is moved aside, if there is one. -/
def moveAside : Installing Unit := fun state =>
  if state.1.snapshot.isSome then (renameToBackup >>= fun _ => syncParent) state else (.ok (), state)

/-- When the new snapshot could not be put in place, the old one is put back; the outcome is ignored. -/
def putBack (state : Directory × Script) : Directory × Script :=
  if state.1.snapshot.isNone && state.1.snapshotBackup.isSome then
    (syncParent (renameFromBackup state).2).2
  else state

/-- The new snapshot is put in place. -/
def putInPlace : Installing Unit := fun state =>
  match renameTemporary state with
  | (.ok (), state) => syncParent state
  | (.error error, state) => (.error error, putBack state)

variable [Platform]

/-- `write_snapshot_file_with_installer`. When an entry is refused, `flushed` is what has reached the
temporary file. -/
def writeSnapshotFileWithInstaller (entries : List (Bytes × DataEntry)) (watermark : Nat) (flushed : Bytes) :
    Installing Unit := do
  match snapshotFile entries watermark with
  | .error error => do
      modify (fun state => ({ state.1 with snapshotTemp := some flushed }, state.2))
      throw error
  | .ok file => do
      modify (fun state => ({ state.1 with snapshotTemp := some file }, state.2))
      moveAside
      putInPlace

/-- The file that `load_data_from_paths` reads. -/
def chosenSnapshot (directory : Directory) : Option Bytes := directory.snapshot.or directory.snapshotBackup

end Model

section Installation
variable {directory : Directory} {script : Script}

theorem call_cases (change : Directory → Directory) (directory : Directory) (script : Script) :
    (∃ later, call change (directory, script) = (.ok (), (change directory, later))) ∨
      ∃ message later, call change (directory, script) = (.error (.new message), (directory, later)) := by
  match script with
  | [] => exact Or.inl ⟨_, rfl⟩
  | none :: script => exact Or.inl ⟨_, rfl⟩
  | some message :: script => exact Or.inr ⟨message, script, rfl⟩

section Rules
variable {first : Installing Unit} {next : Unit → Installing Unit} {state after : Directory × Script}

theorem bind_done (returned : first state = (.ok (), after)) : (first >>= next) state = next () after := by
  change StateT.bind (ExceptT.run first) (ExceptT.bindCont next) state = next () after
  simp only [StateT.bind, ExceptT.run, returned]
  rfl

theorem bind_failed {error : PersistenceError} (failed : first state = (.error error, after)) :
    (first >>= next) state = (.error error, after) := by
  change StateT.bind (ExceptT.run first) (ExceptT.bindCont next) state = (.error error, after)
  simp only [StateT.bind, ExceptT.run, failed]
  rfl

end Rules

/-- A synchronization moves nothing, whether it fails or not. -/
theorem syncParent_directory (directory : Directory) (script : Script) :
    (syncParent (directory, script)).2.1 = directory := by
  unfold syncParent
  rcases call_cases id directory script with ⟨later, called⟩ | ⟨message, later, called⟩
  · rw [called]
    rfl
  · rw [called]

theorem moveAside_directory (directory : Directory) (script : Script) :
    (moveAside (directory, script)).2.1 = directory ∨
      (moveAside (directory, script)).2.1 = displaceSnapshot directory := by
  unfold moveAside renameToBackup
  split
  · rcases call_cases displaceSnapshot directory script with ⟨later, called⟩ | ⟨message, later, called⟩
    · right
      rw [bind_done called]
      exact syncParent_directory _ _
    · left
      rw [bind_failed called]
  · exact Or.inl rfl

/-- Putting the old snapshot back changes nothing about which file is chosen. -/
theorem putBack_chosen (directory : Directory) (script : Script) :
    chosenSnapshot (putBack (directory, script)).1 = chosenSnapshot directory := by
  unfold putBack
  split
  next missing =>
    rw [Bool.and_eq_true, Option.isNone_iff_eq_none] at missing
    unfold renameFromBackup
    rcases call_cases (fun directory => { directory with
        snapshot := directory.snapshotBackup, snapshotBackup := none }) directory script with
      ⟨later, called⟩ | ⟨message, later, called⟩
    · rw [called, syncParent_directory, chosenSnapshot, chosenSnapshot, missing.1, Option.or_none, Option.none_or]
    · rw [called, syncParent_directory]
  · rfl

theorem putInPlace_chosen {file : Bytes} (written : directory.snapshotTemp = some file) (script : Script) :
    chosenSnapshot (putInPlace (directory, script)).2.1 = some file ∨
      chosenSnapshot (putInPlace (directory, script)).2.1 = chosenSnapshot directory := by
  unfold putInPlace renameTemporary
  rcases call_cases (fun directory => { directory with
      snapshot := directory.snapshotTemp, snapshotTemp := none }) directory script with
    ⟨later, called⟩ | ⟨message, later, called⟩
  · left
    rw [called]
    simp only
    rw [syncParent_directory, chosenSnapshot, written, Option.some_or]
  · right
    rw [called]
    exact putBack_chosen directory later

/-- A file that has been put in place is the snapshot. -/
theorem putInPlace_done {file : Bytes} (written : directory.snapshotTemp = some file) {after : Directory}
    {later : Script} (done : putInPlace (directory, script) = (.ok (), (after, later))) :
    after.snapshot = some file := by
  unfold putInPlace renameTemporary at done
  rcases call_cases (fun directory => { directory with
      snapshot := directory.snapshotTemp, snapshotTemp := none }) directory script with
    ⟨middle, called⟩ | ⟨message, middle, called⟩
  · rw [called] at done
    have same := syncParent_directory { directory with
      snapshot := directory.snapshotTemp, snapshotTemp := none } middle
    simp only at done
    rw [done] at same
    change after = _ at same
    rw [same]
    exact written
  · rw [called] at done
    cases done

theorem moveAside_written {file : Bytes} (written : directory.snapshotTemp = some file) (script : Script) :
    chosenSnapshot (moveAside (directory, script)).2.1 = chosenSnapshot directory ∧
      (moveAside (directory, script)).2.1.snapshotTemp = some file := by
  rcases moveAside_directory directory script with same | moved
  · rw [same]
    exact ⟨rfl, written⟩
  · rw [moved]
    exact ⟨displaceSnapshot_based directory, (displaceSnapshot_files directory).2.2.2.2.2.trans written⟩

/-- Whatever fails, the file that is chosen afterwards is the one chosen before, or the new one; and when
nothing fails, the new one is the snapshot. -/
theorem install_chosen {file : Bytes} (written : directory.snapshotTemp = some file) (script : Script) :
    (chosenSnapshot ((moveAside >>= fun _ => putInPlace) (directory, script)).2.1 = some file ∨
      chosenSnapshot ((moveAside >>= fun _ => putInPlace) (directory, script)).2.1 =
        chosenSnapshot directory) ∧
    ∀ after later, (moveAside >>= fun _ => putInPlace) (directory, script) = (.ok (), (after, later)) →
      after.snapshot = some file := by
  obtain ⟨chosen, prepared⟩ := moveAside_written written script
  cases moved : moveAside (directory, script) with
  | mk result state =>
      obtain ⟨middle, rest⟩ := state
      rw [moved] at chosen prepared
      cases result with
      | error error =>
          rw [bind_failed moved]
          refine ⟨Or.inr chosen, ?_⟩
          intro after later done
          cases done
      | ok =>
          rw [bind_done moved]
          refine ⟨?_, fun after later done => putInPlace_done prepared done⟩
          rcases putInPlace_chosen prepared rest with new | old
          · exact Or.inl new
          · exact Or.inr (old.trans chosen)

end Installation

section Loading

theorem fresh_stored (reading created accessed : Nat) (entry : PersistentEntry) :
    (fresh reading (some ⟨entry.value, entry.expiresAt, created, accessed⟩)).map PersistentEntry.ofDataEntry =
      if entry.expired reading then none else some entry := by
  have same : DataEntry.expired ⟨entry.value, entry.expiresAt, created, accessed⟩ reading =
    entry.expired reading := rfl
  rw [fresh, Expiring.live_some, same]
  cases entry.expired reading <;> rfl

variable [Platform]

/-- What loading a list of entries into an empty store comes to: an entry is there, with its value and
its expiry, unless it had expired at a reading of the clock during the load; and nothing else is. -/
structure Installs (entries : List (Bytes × PersistentEntry)) (clock : Clock) (store : ShardedStore) : Prop where
  listed : ∀ entry ∈ entries, ∃ reading, clock.Shows store.engine.clock reading ∧
    (store.engine.lookup entry.1).map PersistentEntry.ofDataEntry =
      if entry.2.expired reading then none else some entry.2
  others : ∀ key, key ∉ entries.map Prod.fst → store.engine.lookup key = none

/-- One entry is installed or skipped, and the other slots stay. -/
theorem installSnapshotEntry_slot (store : ShardedStore) (key : Bytes) (entry : PersistentEntry)
    (empty : store.engine.lookup key = none) :
    (∃ reading, store.engine.clock.Shows (installSnapshotEntry store key entry).engine.clock reading ∧
      ((installSnapshotEntry store key entry).engine.lookup key).map PersistentEntry.ofDataEntry =
        if entry.expired reading then none else some entry) ∧
      ∀ other, other ≠ key → (installSnapshotEntry store key entry).engine.lookup other =
        store.engine.lookup other := by
  have sets (ready : ShardedStore) (leads : store.engine.clock.Leads ready.engine.clock)
      (same : ready.engine.lookup = store.engine.lookup) :
      (∃ reading, store.engine.clock.Shows (ready.setValue key entry.value entry.expiresAt).2.engine.clock
          reading ∧
        ((ready.setValue key entry.value entry.expiresAt).2.engine.lookup key).map PersistentEntry.ofDataEntry =
          if entry.expired reading then none else some entry) ∧
        ∀ other, other ≠ key → (ready.setValue key entry.value entry.expiresAt).2.engine.lookup other =
          store.engine.lookup other := by
    obtain ⟨reading, created, accessed, taken, sets⟩ :=
      ready.engine.set_sets key entry.value entry.expiresAt
    have slots : (ready.setValue key entry.value entry.expiresAt).2.engine.lookup =
        Function.update ready.engine.lookup key
          (fresh reading (some ⟨entry.value, entry.expiresAt, created, accessed⟩)) := sets.lookup
    refine ⟨⟨reading, leads.shows taken, ?_⟩, ?_⟩
    · rw [slots, Function.update_self]
      exact fresh_stored reading created accessed entry
    · intro other differs
      rw [slots, Function.update_of_ne differs, same]
  unfold installSnapshotEntry isExpired
  cases expires : entry.expiresAt with
  | none =>
      simp only
      rw [← expires]
      exact sets store (Clock.Leads.refl _) rfl
  | some expiry =>
      simp only
      by_cases past : expiry ≤ store.unixSeconds.1
      · simp only [ge_iff_le, past, decide_true]
        refine ⟨⟨store.engine.clock.now, store.engine.clock.shows_tick, ?_⟩, fun _ _ => rfl⟩
        have expired : entry.expired store.engine.clock.now = true := by
          rw [PersistentEntry.expired, expires, expiryPassed, decide_eq_true_eq]
          exact past
        rw [expired, if_pos rfl]
        show (store.engine.lookup key).map _ = none
        rw [empty]
        rfl
      · simp only [ge_iff_le, past, decide_false]
        rw [← expires]
        exact sets store.unixSeconds.2 store.engine.clock.leads_tick rfl

theorem installSnapshotEntries_slots (entries : List (Bytes × PersistentEntry))
    (distinct : (entries.map Prod.fst).Nodup) (store : ShardedStore)
    (empty : ∀ entry ∈ entries, store.engine.lookup entry.1 = none) :
    (∀ entry ∈ entries, ∃ reading,
      store.engine.clock.Shows (installSnapshotEntries store entries).engine.clock reading ∧
      ((installSnapshotEntries store entries).engine.lookup entry.1).map PersistentEntry.ofDataEntry =
        if entry.2.expired reading then none else some entry.2) ∧
      ∀ key, key ∉ entries.map Prod.fst → (installSnapshotEntries store entries).engine.lookup key =
        store.engine.lookup key := by
  induction entries generalizing store with
  | nil => exact ⟨by simp, fun _ _ => rfl⟩
  | cons entry entries following =>
      obtain ⟨fresh, distinct⟩ := List.nodup_cons.mp distinct
      obtain ⟨⟨reading, taken, here⟩, others⟩ := installSnapshotEntry_slot store entry.1 entry.2
        (empty entry List.mem_cons_self)
      have leads := installSnapshotEntries_leads entries (installSnapshotEntry store entry.1 entry.2)
      have differs : ∀ later ∈ entries, later.1 ≠ entry.1 := by
        intro later member same
        rw [← same] at fresh
        exact fresh (List.mem_map_of_mem member)
      obtain ⟨listed, kept⟩ := following distinct (installSnapshotEntry store entry.1 entry.2) (by
        intro later member
        rw [others later.1 (differs later member)]
        exact empty later (List.mem_cons_of_mem _ member))
      refine ⟨?_, ?_⟩
      · intro found member
        rcases List.mem_cons.mp member with rfl | later
        · refine ⟨reading, taken.extend leads, ?_⟩
          show ((installSnapshotEntries (installSnapshotEntry store found.1 found.2) entries).engine.lookup
            found.1).map _ = _
          rw [kept found.1 fresh]
          exact here
        · obtain ⟨time, shown, slot⟩ := listed found later
          exact ⟨time, taken.leads.shows shown, slot⟩
      · intro key absent
        rw [List.map_cons, List.mem_cons, not_or] at absent
        show (installSnapshotEntries (installSnapshotEntry store entry.1 entry.2) entries).engine.lookup key = _
        rw [kept key absent.2, others key absent.1]

theorem installSnapshotEntries_installs {entries : List (Bytes × PersistentEntry)}
    (distinct : (entries.map Prod.fst).Nodup) (clock : Clock) :
    Installs entries clock (installSnapshotEntries (.new clock) entries) := by
  obtain ⟨listed, others⟩ := installSnapshotEntries_slots entries distinct (.new clock) (fun _ _ => rfl)
  exact ⟨listed, others⟩

/-- What is assumed of an entry: its expiry is a `u64` and not zero, and `serde_json` reads its document
back. -/
structure Writable (entry : DataEntry) : Prop where
  expiry : ∀ expiry ∈ entry.expiresAt, 0 < expiry ∧ expiry < 2 ^ 64
  document : ∀ document, entry.value = .json document →
    Platform.jsonFromSlice (utf8Bytes (Platform.jsonToString document)) = .ok document

theorem Writable.roundTrips {entry : DataEntry} (writable : Writable entry) (key : Bytes) :
    EntryRoundTrips key (.ofDataEntry entry) := by
  intro record encoded
  have readBack : readBackEntry (.ofDataEntry entry) = .ok (.ofDataEntry entry) := by
    obtain ⟨value, expiresAt, created, accessed⟩ := entry
    cases value with
    | json document =>
        have parsed := writable.document document rfl
        simp only [PersistentEntry.ofDataEntry, readBackEntry, readBackValue, parsed]
        rfl
    | _ => rfl
  have storable : Storable (.ofDataEntry entry) := writable.expiry
  rw [decodeSnapshotEntry_written storable encoded, readBack]
  rfl

/-- The file of a successful write, and what is chosen after any write. -/
theorem writeSnapshotFile_outcome {entries : List (Bytes × DataEntry)} {watermark : Nat} {file : Bytes}
    (encoded : snapshotFile entries watermark = .ok file) (flushed : Bytes) (directory : Directory)
    (script : Script) :
    (chosenSnapshot (writeSnapshotFileWithInstaller entries watermark flushed (directory, script)).2.1 =
        some file ∨
      chosenSnapshot (writeSnapshotFileWithInstaller entries watermark flushed (directory, script)).2.1 =
        chosenSnapshot directory) ∧
    ∀ after later, writeSnapshotFileWithInstaller entries watermark flushed (directory, script) =
      (.ok (), (after, later)) → after.snapshot = some file := by
  have steps : writeSnapshotFileWithInstaller entries watermark flushed (directory, script) =
      (moveAside >>= fun _ => putInPlace) ({ directory with snapshotTemp := some file }, script) := by
    unfold writeSnapshotFileWithInstaller
    rw [encoded]
    rfl
  rw [steps]
  exact @install_chosen { directory with snapshotTemp := some file } file rfl script

/-- A snapshot is read back as it was written, and whatever fails while it is put in place, the old
snapshot or the new one is there as a whole. -/
theorem writeSnapshotFile_roundTrips (gzip : GzipRoundTrips) (entries : List (Bytes × DataEntry))
    (watermark : Nat) (bounded : watermark < 2 ^ 64) (distinct : (entries.map Prod.fst).Nodup)
    (writable : ∀ entry ∈ entries, Writable entry.2) (flushed : Bytes) (directory : Directory)
    (script : Script) :
    (∀ after later, writeSnapshotFileWithInstaller entries watermark flushed (directory, script) =
        (.ok (), (after, later)) →
      inspectSnapshot after.snapshot = .ok (.versioned watermark) ∧
        ∀ clock, ∃ store, loadSnapshotEntries (.new clock) after.snapshot (.versioned watermark) = .ok store ∧
          Installs (entries.map (fun entry => (entry.1, .ofDataEntry entry.2))) clock store) ∧
    ∀ previous file, chosenSnapshot directory = some previous → snapshotFile entries watermark = .ok file →
      chosenSnapshot (writeSnapshotFileWithInstaller entries watermark flushed (directory, script)).2.1 =
          some previous ∨
        chosenSnapshot (writeSnapshotFileWithInstaller entries watermark flushed (directory, script)).2.1 =
          some file := by
  refine ⟨?_, ?_⟩
  · intro after later done
    cases encoded : snapshotFile entries watermark with
    | error error =>
        unfold writeSnapshotFileWithInstaller at done
        rw [encoded] at done
        cases done
    | ok file =>
        have installed := (writeSnapshotFile_outcome encoded flushed directory script).2 after later done
        have roundTrips : ∀ entry ∈ entries, EntryRoundTrips entry.1 (.ofDataEntry entry.2) :=
          fun entry member => (writable entry member).roundTrips entry.1
        rw [installed]
        refine ⟨(snapshotFile_reads gzip encoded bounded roundTrips).1, ?_⟩
        intro clock
        refine ⟨_, loadSnapshotEntries_file (.new clock) gzip encoded bounded roundTrips, ?_⟩
        apply installSnapshotEntries_installs
        rw [List.map_map]
        exact distinct
  · intro previous file existed encoded
    rcases (writeSnapshotFile_outcome encoded flushed directory script).1 with new | old
    · exact Or.inr new
    · exact Or.inl (old.trans existed)

end Loading

/-- A snapshot of one key that expires takes the place of another one. -/
theorem expiring_snapshot_written :
    letI := Reference.platform (fun _ => .error "unsupported")
    ∃ after later, writeSnapshotFileWithInstaller [([107], ⟨.blob [118], some 7, 0, 0⟩)] 3 []
        ({ snapshot := some [1] }, []) = (.ok (), (after, later)) ∧
      inspectSnapshot after.snapshot = .ok (.versioned 3) ∧
      ∀ clock, ∃ store, loadSnapshotEntries (.new clock) after.snapshot (.versioned 3) = .ok store ∧
        Installs [([107], ⟨.blob [118], some 7⟩)] clock store := by
  let _ := Reference.platform (fun _ => .error "unsupported")
  have outcome := writeSnapshotFile_roundTrips Reference.gunzip_gzip
    [([107], ⟨.blob [118], some 7, 0, 0⟩)] 3 (by decide) (by simp)
    (by
      intro entry member
      rw [List.mem_singleton] at member
      rw [member]
      refine ⟨?_, fun document same => by cases same⟩
      intro expiry some_seven
      cases some_seven
      decide) [] { snapshot := some [1] } []
  exact ⟨_, _, rfl, outcome.1 _ _ rfl⟩

end OnyxDB.Persistence.SnapshotInstall
