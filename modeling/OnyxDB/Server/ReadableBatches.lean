import OnyxDB.Command.DocumentDepth
import OnyxDB.Coordinator.LoggedBatches
import OnyxDB.Persistence.AppendContract
import OnyxDB.Persistence.FurtherWrites
import OnyxDB.Server.WellFormedValues
import OnyxDB.Store.ByteFidelity

/-! Reading back what a run has logged. An acknowledged batch can be decoded exactly when its documents are within the
reach of the parser, and they are as long as no command nests a value below too many levels. -/

namespace OnyxDB.Server
open OnyxDB.Library OnyxDB.Engine OnyxDB.Engine.Value OnyxDB.Store OnyxDB.Protocol OnyxDB.Command OnyxDB.Coordinator
  OnyxDB.Persistence OnyxDB.Persistence.Model OnyxDB.Persistence.Commit OnyxDB.Persistence.Codec
  OnyxDB.Persistence.Record OnyxDB.Persistence.Recovery OnyxDB.Persistence.BinlogFile
  OnyxDB.Persistence.AppendContract

section Batches
variable [Platform] {batch : CommittedBatch}

/-- A batch as the types of the source have it, with `serde_json` as it is assumed to treat the documents. -/
structure Lawful (batch : CommittedBatch) : Prop where
  typed : ∀ key entry, CommittedEffect.put key entry ∈ batch.effects → ∀ expiry ∈ entry.expiresAt, expiry < 2 ^ 64
  documents : ∀ document ∈ CommittedBatch.documents batch, JsonLaw document

/-- What was alive when it was logged has an expiry that the codec can tell from none. -/
theorem Lawful.storable (lawful : Lawful batch) {property : Bytes → DataEntry → Prop} (logs : Logs property batch) :
    ∀ effect ∈ batch.effects, StorableEffect effect := by
  intro effect member
  cases effect with
  | delete key => trivial
  | put key entry =>
      intro expiry expires
      refine ⟨?_, lawful.typed key entry member expiry expires⟩
      obtain ⟨held, reading, _, live, rfl⟩ := logs key entry member
      have expiring : held.expiresAt = some expiry := expires
      rw [DataEntry.expired, expiring, expiryPassed, decide_eq_false_iff_not, Nat.not_le] at live
      exact Nat.zero_lt_of_lt live

/-- The decoder gives an encoded batch back exactly when it is shallow, and refuses it otherwise. -/
theorem decode_encoded (lawful : Lawful batch) {property : Bytes → DataEntry → Prop} (logs : Logs property batch)
    {payload : Bytes} (encoded : encodeCommittedBatch batch = .ok payload) :
    (Shallow batch → decodeCommittedBatch payload = .ok batch) ∧
      (¬ Shallow batch → ∃ failure, decodeCommittedBatch payload = .error failure) := by
  rw [decodeCommittedBatch_written (lawful.storable logs) encoded]
  exact readBackBatch_shallow lawful.documents

theorem shallow_of_decoded (lawful : Lawful batch) {property : Bytes → DataEntry → Prop} (logs : Logs property batch)
    {payload : Bytes} (encoded : encodeCommittedBatch batch = .ok payload) {decoded : CommittedBatch}
    (accepted : decodeCommittedBatch payload = .ok decoded) : Shallow batch := by
  by_contra deep
  obtain ⟨failure, refused⟩ := (decode_encoded lawful logs encoded).2 deep
  rw [refused] at accepted
  cases accepted

omit [Platform] in
theorem shallow_of_logs (logs : Logs (Within maxJsonDepth) batch) : Shallow batch := by
  intro document member
  obtain ⟨effect, listed, shown⟩ := List.mem_filterMap.mp member
  cases effect with
  | delete key => cases shown
  | put key entry =>
      obtain ⟨⟨value, _, _, _⟩, _, within, _, rfl⟩ := logs key entry listed
      cases value with
      | json stored =>
          cases shown
          exact within document rfl
      | _ => cases shown

end Batches

section Records

variable [Platform]

theorem encodeVersioned_ok {sequence : Nat} {payload record : Bytes}
    (encoded : encodeVersionedBinlogRecordInto sequence payload [] = .ok record) :
    Encodable sequence payload ∧ record = versionedRecord sequence payload := by
  unfold encodeVersionedBinlogRecordInto at encoded
  cases measured : versionedBinlogRecordLength sequence payload.length with
  | error failure =>
      rw [measured] at encoded
      cases encoded
  | ok recordLength =>
      obtain ⟨positive, bounded, rfl⟩ := versionedBinlogRecordLength_ok measured
      rw [measured] at encoded
      cases encoded
      exact ⟨⟨positive, bounded⟩, rfl⟩

/-- The record of a batch in the log: its sequence, and its encoding. -/
def Encodes (entry : Nat × CommittedBatch) (record : Nat × Bytes) : Prop :=
  record.1 = entry.1 ∧ encodeCommittedBatch entry.2 = .ok record.2

/-- Encoded batches under consecutive sequences are read from their log as they were. -/
theorem reads_encoded {sequence : Nat} {batches : List CommittedBatch} {records : List (Nat × Bytes)}
    (encodes : List.Forall₂ Encodes (numbered sequence batches) records)
    (encodable : ∀ record ∈ records, Encodable record.1 record.2)
    (decodes : ∀ batch ∈ batches, ∀ payload, encodeCommittedBatch batch = .ok payload →
      decodeCommittedBatch payload = .ok batch)
    (fits : batches ≠ [] → sequence + batches.length < 2 ^ 64) :
    Reads (records.flatMap (fun record => framedRecord record.1 record.2))
      ((numbered sequence batches).map (fun entry => ⟨entry.1, entry.2, .checksummed⟩)) [] := by
  induction batches generalizing sequence records with
  | nil =>
      cases encodes
      exact Reads.nil
  | cons batch batches rest =>
      cases encodes with
      | @cons _ record _ records first later =>
          obtain ⟨number, encoded⟩ := first
          have bound := fits (List.cons_ne_nil batch batches)
          rw [List.length_cons] at bound
          have next := rest later (fun record member => encodable record (List.mem_cons_of_mem _ member))
            (fun batch member => decodes batch (List.mem_cons_of_mem _ member)) (fun _ => by omega)
          have here := encodable record List.mem_cons_self
          rw [List.flatMap_cons, numbered, List.map_cons]
          rw [number] at here ⊢
          exact Reads.framed here (by simp only; omega) (decodes batch List.mem_cons_self _ encoded) next

/-- What is read from such a log was decoded. -/
theorem decodes_of_reads {sequence : Nat} {batches : List CommittedBatch} {records : List (Nat × Bytes)}
    (encodes : List.Forall₂ Encodes (numbered sequence batches) records)
    (encodable : ∀ record ∈ records, Encodable record.1 record.2)
    (fits : batches ≠ [] → sequence + batches.length < 2 ^ 64) {logs : List LogRecord} {tail : Bytes}
    (reads : Reads (records.flatMap (fun record => framedRecord record.1 record.2)) logs tail) :
    ∀ batch ∈ batches, ∃ payload decoded, encodeCommittedBatch batch = .ok payload ∧
      decodeCommittedBatch payload = .ok decoded := by
  induction batches generalizing sequence records logs with
  | nil => exact fun _ member => absurd member List.not_mem_nil
  | cons batch batches rest =>
      cases encodes with
      | @cons _ record _ records first later =>
          obtain ⟨number, encoded⟩ := first
          have bound := fits (List.cons_ne_nil batch batches)
          rw [List.length_cons] at bound
          have here := encodable record List.mem_cons_self
          rw [List.flatMap_cons, number] at reads
          obtain ⟨log, others, rfl, _, decoded⟩ := @FurtherWrites.reads_framed_inv _
            ⟨batch, record.2, encoded, here.bounded⟩ (sequence + 1) (by omega) (by omega) _ _ _ reads
          have alone := Reads.framed ⟨Nat.succ_ne_zero sequence, here.bounded⟩ (by omega) decoded Reads.nil
          rw [List.append_nil] at alone
          obtain ⟨_, _, remaining⟩ := reads_append_inv alone reads
          have next := rest later (fun record member => encodable record (List.mem_cons_of_mem _ member))
            (fun _ => by omega) remaining
          exact List.forall_mem_cons.mpr ⟨⟨record.2, log.batch, encoded, decoded⟩, next⟩

omit [Platform] in
theorem consecutive_numbered (sequence : Nat) (batches : List CommittedBatch) :
    Consecutive ((numbered sequence batches).map (fun entry => ⟨entry.1, entry.2, .checksummed⟩)) := by
  induction batches generalizing sequence with
  | nil => exact List.isChain_nil
  | cons batch batches rest =>
      cases batches with
      | nil => exact List.isChain_singleton _
      | cons second batches => exact List.isChain_cons_cons.mpr ⟨rfl, rest (sequence + 1)⟩

variable {runtime : CommitRuntime} {property : Bytes → DataEntry → Prop}

/-- A log is inspected without an error exactly when all its batches are shallow. -/
theorem inspection_iff (recounts : Recounts (Logs property) runtime)
    (lawful : ∀ entry ∈ runtime.appended, Lawful entry.2) {records : List (Nat × Bytes)} {log : Bytes}
    (encodes : List.Forall₂ Encodes runtime.appended records) (written : encodedTail records = .ok log) :
    (∃ inspection, inspectBinlog log = .ok inspection) ↔ ∀ entry ∈ runtime.appended, Shallow entry.2 := by
  obtain ⟨encodable, rfl⟩ := (encodedTail_eq_ok_iff records log).mp written
  obtain ⟨first, batches, appended, offset, fits, logs⟩ := recounts
  rw [appended] at lawful encodes ⊢
  rw [offset] at fits
  constructor
  · rintro ⟨inspection, accepted⟩ entry member
    obtain ⟨_, _, reads, _⟩ := inspectBinlog_ok.mp accepted
    have listed := (mem_numbered member).1
    obtain ⟨payload, decoded, encoded, decodes⟩ := decodes_of_reads encodes encodable fits reads entry.2 listed
    exact shallow_of_decoded (lawful entry member) (logs entry.2 listed) encoded decodes
  · intro shallow
    have decodes : ∀ batch ∈ batches, ∀ payload, encodeCommittedBatch batch = .ok payload →
        decodeCommittedBatch payload = .ok batch := by
      intro batch listed payload encoded
      obtain ⟨entry, member, rfl⟩ := numbered_mem first listed
      exact (decode_encoded (lawful entry member) (logs entry.2 listed) encoded).1 (shallow entry member)
    have reads := reads_encoded encodes encodable decodes fits
    exact ⟨_, inspectBinlog_ok.mpr ⟨_, _, reads, consecutive_numbered first batches, rfl⟩⟩

end Records

section Runs
variable [Platform] [Process] {server : Coordinator.Server} {limit : Nat}

theorem executeServerCommand_within {arguments : List String} (nests : NestsWithin limit arguments) :
    Preserves (Within limit) (executeServerCommand arguments) := by
  unfold executeServerCommand
  split
  · exact (infoResponse_preserves _).map _
  · exact executeCommand_within nests

/-- Whatever commands are run, a batch logs what was alive. -/
theorem reaches_recounts (reaches : Reaches (fun _ => True) server) :
    Recounts (Logs (OnValues fun _ => Filled)) server.runtime :=
  (reaches.retains (fun arguments _ => executeServerCommand_filled arguments) set_blob_filled).2

/-- In a run whose commands nest within a limit so does all that is stored, and all that is logged. -/
theorem reaches_within (reaches : Reaches (NestsWithin limit) server) :
    server.store.All (Within limit) ∧ Recounts (Logs (Within limit)) server.runtime :=
  reaches.retains (fun _ => executeServerCommand_within) (fun _ _ => plain_set.preserves)

/-- In every run an acknowledged batch can be decoded exactly when its documents are within the reach of the parser,
and the log of all batches can be inspected exactly when all documents are. In a run in which no command puts a value
below more levels than that, every batch and every record is read back as it was, and the log can be inspected; and
for every command that does there is a document that it takes out of reach. -/
theorem acknowledged_batches_read_back :
    (∀ server, Reaches (fun _ => True) server → (∀ entry ∈ server.runtime.appended, Lawful entry.2) →
      (∀ entry ∈ server.runtime.appended, ∀ payload, encodeCommittedBatch entry.2 = .ok payload →
        (decodeCommittedBatch payload = .ok entry.2 ↔ Shallow entry.2)) ∧
      ∀ records log, List.Forall₂ Encodes server.runtime.appended records → encodedTail records = .ok log →
        ((∃ inspection, inspectBinlog log = .ok inspection) ↔
          ∀ entry ∈ server.runtime.appended, Shallow entry.2)) ∧
    (∀ server, Reaches (NestsWithin maxJsonDepth) server → (∀ entry ∈ server.runtime.appended, Lawful entry.2) →
      (∀ entry ∈ server.runtime.appended, ∀ payload, encodeCommittedBatch entry.2 = .ok payload →
        decodeCommittedBatch payload = .ok entry.2 ∧
          ∀ record, encodeVersionedBinlogRecordInto entry.1 payload [] = .ok record →
            decodeBinlogRecord record = .ok ⟨entry.1, payload, .checksummed⟩) ∧
      ∀ records log, List.Forall₂ Encodes server.runtime.appended records → encodedTail records = .ok log →
        ∃ inspection, inspectBinlog log = .ok inspection) ∧
    ∀ arguments, ¬ NestsWithin maxJsonDepth arguments → Deepens maxJsonDepth arguments := by
  refine ⟨?_, ?_, fun _ => deepens_of_not_nests⟩
  · intro server reaches lawful
    have recounts := reaches_recounts reaches
    constructor
    · intro entry member payload encoded
      have logged := recounts.holds member
      refine ⟨shallow_of_decoded (lawful entry member) logged encoded, ?_⟩
      exact (decode_encoded (lawful entry member) logged encoded).1
    · intro records log encodes written
      exact inspection_iff recounts lawful encodes written
  · intro server reaches lawful
    have recounts := (reaches_within reaches).2
    have shallow : ∀ entry ∈ server.runtime.appended, Shallow entry.2 :=
      fun entry member => shallow_of_logs (recounts.holds member)
    constructor
    · intro entry member payload encoded
      have decoded := (decode_encoded (lawful entry member) (recounts.holds member) encoded).1 (shallow entry member)
      refine ⟨decoded, ?_⟩
      intro record framed
      obtain ⟨encodable, rfl⟩ := encodeVersioned_ok framed
      exact decodeBinlogRecord_versionedRecord encodable (recounts.bounded member)
        (decodeCommittedBatch_nonempty decoded)
    · intro records log encodes written
      exact (inspection_iff recounts lawful encodes written).mpr shallow

end Runs

section Nesting

/-- Arrays in arrays, with nothing in the innermost. -/
def nest : Nat → Json
  | 0 => .array []
  | levels + 1 => .array [nest levels]

def isNest : Nat → Json → Bool
  | 0, .array [] => true
  | levels + 1, .array [item] => isNest levels item
  | _, _ => false

theorem isNest_eq {levels : Nat} {document : Json} (same : isNest levels document = true) : document = nest levels := by
  fun_induction isNest levels document with
  | case1 => rfl
  | case2 levels item inner => rw [nest, inner same]
  | case3 => cases same

theorem nest_depth (levels : Nat) : (nest levels).depth = levels + 1 := by
  induction levels with
  | zero => rfl
  | succ levels inner => rw [nest, Json.depth, Json.depthItems, Json.depthItems, inner, Nat.max_zero]

def brackets (levels : Nat) : Bytes := List.replicate levels 91 ++ List.replicate levels 93

/-- A parser of nested arrays, and of nothing else. -/
def parseNest (text : Bytes) : Except String Json :=
  let levels := text.length / 2
  if text ≠ brackets levels then .error "expected value"
  else if levels = 0 then .error "EOF while parsing a value"
  else if maxJsonDepth < levels then .error "recursion limit exceeded"
  else .ok (nest (levels - 1))

theorem brackets_length (levels : Nat) : (brackets levels).length / 2 = levels := by
  rw [brackets, List.length_append, List.length_replicate, List.length_replicate]
  omega

theorem brackets_wrapped (levels : Nat) : [91] ++ brackets levels ++ [93] = brackets (levels + 1) := by
  have closing : List.replicate (levels + 1) (93 : UInt8) = List.replicate levels 93 ++ [93] :=
    List.replicate_succ'
  rw [brackets, brackets, closing, List.replicate_succ]
  simp only [List.append_assoc, List.cons_append, List.nil_append]

theorem nest_text (levels : Nat) : utf8Bytes (Reference.jsonToString (nest levels)) = brackets (levels + 1) := by
  have opening : utf8Bytes "[" = [91] := by decide
  have closing : utf8Bytes "]" = [93] := by decide
  induction levels with
  | zero => decide
  | succ levels inner =>
      rw [nest, Reference.jsonToString, Reference.jsonItemsToString, utf8Bytes_append, utf8Bytes_append, inner,
        opening, closing, brackets_wrapped]

theorem nest_lawful (levels : Nat) :
    letI := Reference.platform parseNest
    JsonLaw (nest levels) := by
  let _ := Reference.platform parseNest
  have text : Platform.jsonFromSlice (utf8Bytes (Platform.jsonToString (nest levels))) =
      parseNest (brackets (levels + 1)) := congrArg parseNest (nest_text levels)
  constructor
  · intro shallow
    rw [nest_depth] at shallow
    rw [text, parseNest, brackets_length, if_neg (not_not.mpr rfl), if_neg (Nat.succ_ne_zero levels),
      if_neg (Nat.not_lt.mpr shallow)]
    rfl
  · intro deep
    rw [nest_depth] at deep
    refine ⟨"recursion limit exceeded", ?_⟩
    rw [text, parseNest, brackets_length, if_neg (not_not.mpr rfl), if_neg (Nat.succ_ne_zero levels), if_pos deep]

def nestText (levels : Nat) : String := String.ofList (List.replicate levels '[' ++ List.replicate levels ']')

def setNest (path : String) (levels : Nat) : List String := ["JSON.SET", "k", path, nestText levels]

/-- A server after `JSON.SET k $ []`, and then after putting `value` levels of arrays into it. -/
def nestedServer (value : Nat) : Coordinator.Server :=
  letI := Reference.platform parseNest
  letI := startedProcess
  (processCommitGroup acceptEverything [.command (setNest "$[0]" value)]
    (processCommitGroup acceptEverything [.command (setNest "$" 1)] (emptyServer 0)).2).2

def nestBatch (levels : Nat) : CommittedBatch := ⟨[.put [107] ⟨.json (nest levels), none⟩]⟩

/-- Whether a log is that of such a server. -/
def logsNest (levels : Nat) : List (Nat × CommittedBatch) → Bool
  | [(1, ⟨[.put key ⟨.json first, none⟩]⟩), (2, ⟨[.put other ⟨.json second, none⟩]⟩)] =>
      decide (key = [107]) && isNest 0 first && decide (other = [107]) && isNest levels second
  | _ => false

theorem logsNest_eq {levels : Nat} {appended : List (Nat × CommittedBatch)} (logs : logsNest levels appended = true) :
    appended = [(1, nestBatch 0), (2, nestBatch levels)] := by
  unfold logsNest at logs
  split at logs
  next key first other second =>
    simp only [Bool.and_eq_true, decide_eq_true_eq] at logs
    obtain ⟨⟨⟨rfl, first⟩, rfl⟩, second⟩ := logs
    rw [isNest_eq first, isNest_eq second]
    rfl
  · cases logs

/-- Whether a batch is accepted by the encoder and fits a record. -/
def storedBatch [Platform] (batch : CommittedBatch) : Bool :=
  match encodeCommittedBatch batch with
  | .ok payload => decide (20 + payload.length ≤ maxBinlogRecordSize)
  | .error _ => false

theorem storedBatch_encodes [Platform] {batch : CommittedBatch} (stored : storedBatch batch = true) {sequence : Nat}
    (positive : sequence ≠ 0) :
    ∃ payload, encodeCommittedBatch batch = .ok payload ∧ Encodable sequence payload := by
  unfold storedBatch at stored
  split at stored
  next payload encoded => exact ⟨payload, encoded, positive, of_decide_eq_true stored⟩
  · cases stored

theorem nestBatch_lawful (levels : Nat) :
    letI := Reference.platform parseNest
    Lawful (nestBatch levels) := by
  let _ := Reference.platform parseNest
  constructor
  · intro key entry member expiry expires
    cases List.mem_singleton.mp member
    cases expires
  · intro document member
    rw [List.mem_singleton.mp member]
    exact nest_lawful levels

theorem nestedServer_reaches (allowed : List String → Prop) (value : Nat) (first : allowed (setNest "$" 1))
    (second : allowed (setNest "$[0]" value)) :
    letI := Reference.platform parseNest
    letI := startedProcess
    Reaches allowed (nestedServer value) := by
  let _ := Reference.platform parseNest
  let _ := startedProcess
  have begins : Reaches allowed (emptyServer 0) := .start (.constant 0) 0 .noEviction rfl
  refine (begins.group acceptEverything ?_).group acceptEverything ?_
  · intro request listed arguments member
    rw [List.mem_singleton.mp listed] at member
    rw [List.mem_singleton.mp member]
    exact first
  · intro request listed arguments member
    rw [List.mem_singleton.mp listed] at member
    rw [List.mem_singleton.mp member]
    exact second

/-- A value of 127 levels is put below one more: the batch is acknowledged, and neither it nor the log of the run can
be read again. -/
theorem nested_batch_unreadable :
    letI := Reference.platform parseNest
    letI := startedProcess
    Reaches (fun _ => True) (nestedServer 127) ∧ ∃ records log,
      (∀ entry ∈ (nestedServer 127).runtime.appended, Lawful entry.2) ∧
      List.Forall₂ Encodes (nestedServer 127).runtime.appended records ∧ encodedTail records = .ok log ∧
      (∃ record ∈ records, ∃ failure, decodeCommittedBatch record.2 = .error failure) ∧
      ∃ failure, inspectBinlog log = .error failure := by
  let _ := Reference.platform parseNest
  let _ := startedProcess
  have reaches := nestedServer_reaches (fun _ => True) 127 trivial trivial
  have appended := @logsNest_eq 127 (nestedServer 127).runtime.appended (by decide +kernel)
  have recounts := reaches_recounts reaches
  have lawful : ∀ entry ∈ (nestedServer 127).runtime.appended, Lawful entry.2 := by
    rw [appended]
    intro entry member
    rcases List.mem_pair.mp member with rfl | rfl
    · exact nestBatch_lawful 0
    · exact nestBatch_lawful 127
  obtain ⟨flat, first, firstFits⟩ := @storedBatch_encodes _ (nestBatch 0) (by decide +kernel) 1 (by decide)
  obtain ⟨deep, second, secondFits⟩ := @storedBatch_encodes _ (nestBatch 127) (by decide +kernel) 2 (by decide)
  have encodes : List.Forall₂ Encodes (nestedServer 127).runtime.appended [(1, flat), (2, deep)] := by
    rw [appended]
    exact .cons ⟨rfl, first⟩ (.cons ⟨rfl, second⟩ .nil)
  have encodable : ∀ record ∈ [(1, flat), (2, deep)], Encodable record.1 record.2 :=
    List.forall_mem_cons.mpr ⟨firstFits, List.forall_mem_singleton.mpr secondFits⟩
  have written := (encodedTail_eq_ok_iff [(1, flat), (2, deep)] _).mpr ⟨encodable, rfl⟩
  have unshallow : ¬ Shallow (nestBatch 127) := by
    intro shallow
    have depth := shallow (nest 127) List.mem_cons_self
    rw [nest_depth] at depth
    exact absurd depth (by decide)
  have member : (2, nestBatch 127) ∈ (nestedServer 127).runtime.appended := by
    rw [appended]
    exact List.mem_cons_of_mem _ List.mem_cons_self
  refine ⟨reaches, _, _, lawful, encodes, written, ?_, ?_⟩
  · refine ⟨(2, deep), List.mem_cons_of_mem _ List.mem_cons_self, ?_⟩
    exact (decode_encoded (lawful _ member) (recounts.holds member) second).2 unshallow
  · cases inspected : inspectBinlog _ with
    | error failure => exact ⟨failure, rfl⟩
    | ok inspection =>
        have shallow := (inspection_iff recounts lawful encodes written).mp ⟨inspection, inspected⟩
        exact absurd (shallow _ member) unshallow

theorem parseNest_depth {text : Bytes} {document : Json} (parsed : parseNest text = .ok document) :
    document.depth = text.length / 2 := by
  unfold parseNest at parsed
  simp only at parsed
  split at parsed
  · cases parsed
  · split at parsed
    · cases parsed
    next some_levels =>
      split at parsed
      · cases parsed
      · cases parsed
        rw [nest_depth]
        omega

theorem setNest_nests {path : String} {segments : List JsonPathSegment} (parses : parseJsonPath path = some segments)
    {levels limit : Nat} (within : segments.length + (utf8Bytes (nestText levels)).length / 2 ≤ limit) :
    letI := Reference.platform parseNest
    NestsWithin limit (setNest path levels) := by
  let _ := Reference.platform parseNest
  intro found document path text
  have same : some segments = some found := parses.symm.trans path
  rw [← Option.some.inj same, parseNest_depth text]
  refine ⟨fun _ _ => within, ?_⟩
  intro name
  have set : "JSON.SET" = "JSON.ARRAPPEND" := name
  exact absurd set (by decide)

/-- An empty array below an array is read back. -/
theorem acknowledged_batches_read_back_nested :
    letI := Reference.platform parseNest
    letI := startedProcess
    ∃ payload, encodeCommittedBatch (nestBatch 1) = .ok payload ∧
      (decodeCommittedBatch payload = .ok (nestBatch 1) ↔ Shallow (nestBatch 1)) ∧
      decodeCommittedBatch payload = .ok (nestBatch 1) := by
  let _ := Reference.platform parseNest
  let _ := startedProcess
  have appended := @logsNest_eq 1 (nestedServer 1).runtime.appended (by decide +kernel)
  have lawful : ∀ entry ∈ (nestedServer 1).runtime.appended, Lawful entry.2 := by
    rw [appended]
    intro entry member
    rcases List.mem_pair.mp member with rfl | rfl
    · exact nestBatch_lawful 0
    · exact nestBatch_lawful 1
  have member : (2, nestBatch 1) ∈ (nestedServer 1).runtime.appended := by
    rw [appended]
    exact List.mem_cons_of_mem _ List.mem_cons_self
  have root : parseJsonPath "$" = some [] := by decide +kernel
  have below : parseJsonPath "$[0]" = some [.index 0] := by decide +kernel
  have reaches : Reaches (NestsWithin maxJsonDepth) (nestedServer 1) :=
    nestedServer_reaches _ 1 (setNest_nests root (by decide +kernel)) (setNest_nests below (by decide +kernel))
  obtain ⟨payload, encoded, _⟩ := @storedBatch_encodes _ (nestBatch 1) (by decide +kernel) 2 (by decide)
  refine ⟨payload, encoded, ?_, ?_⟩
  · have any := nestedServer_reaches (fun _ => True) 1 trivial trivial
    exact (acknowledged_batches_read_back.1 (nestedServer 1) any lawful).1 (2, nestBatch 1) member payload encoded
  · exact ((acknowledged_batches_read_back.2.1 (nestedServer 1) reaches lawful).1 (2, nestBatch 1) member payload
      encoded).1

end Nesting

end OnyxDB.Server
