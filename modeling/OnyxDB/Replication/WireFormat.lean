import OnyxDB.Protocol.ResponseAgreement
import OnyxDB.Replication.Consistency

/-! The bytes of a replication connection. Frames are lines of words or chunked records; a replica that reads their
bytes, however they are cut on the way, receives the frames. -/

namespace OnyxDB.Replication.Stream
open OnyxDB.Library OnyxDB.Library.Arrival OnyxDB.Library.Decimal OnyxDB.Engine OnyxDB.Engine.Value OnyxDB.Store
  OnyxDB.Protocol OnyxDB.Persistence.Model OnyxDB.Persistence.Commit OnyxDB.Persistence.Codec OnyxDB.Coordinator
  OnyxDB.Replication.ChunkedRecord

section Lines

/-- Words with a blank between them. -/
def lineText : List String → List Char
  | [] => []
  | [word] => word.toList
  | word :: words => word.toList ++ ' ' :: lineText words

def lineBytes (words : List String) : Bytes := utf8Bytes (String.ofList (lineText words)) ++ crlf

/-- A word that a line can carry. -/
structure LineWord (word : String) : Prop where
  filled : word.toList ≠ []
  solid : ∀ char ∈ word.toList, isAsciiWhitespace char = false

variable {words : List String}

theorem splitOnP_lineText (carried : ∀ word ∈ words, LineWord word) (filled : words ≠ []) :
    (lineText words).splitOnP isAsciiWhitespace = words.map String.toList := by
  induction words with
  | nil => exact absurd rfl filled
  | cons word words rest =>
      have here := carried word List.mem_cons_self
      cases words with
      | nil => exact List.splitOnP_eq_singleton here.solid
      | cons next words =>
          have later := rest (fun word member => carried word (List.mem_cons_of_mem _ member)) (List.cons_ne_nil _ _)
          rw [lineText, List.splitOnP_append_cons _ _ (by decide), List.splitOnP_eq_singleton here.solid, later]
          · rfl
          · nofun

theorem splitAsciiWhitespace_lineText (carried : ∀ word ∈ words, LineWord word) (filled : words ≠ []) :
    splitAsciiWhitespace (String.ofList (lineText words)) = words := by
  have kept : (words.map String.toList).filter (fun part => !part.isEmpty) = words.map String.toList := by
    apply List.filter_eq_self.mpr
    intro part member
    obtain ⟨word, listed, rfl⟩ := List.mem_map.mp member
    rw [Bool.not_eq_true', List.isEmpty_eq_false_iff]
    exact (carried word listed).filled
  rw [splitAsciiWhitespace, String.toList_ofList, splitOnP_lineText carried filled, kept, List.map_map]
  exact (List.map_congr_left (fun word _ => String.ofList_toList)).trans (List.map_id _)

/-- A line has no other newline than its last byte. -/
theorem lineText_single (carried : ∀ word ∈ words, LineWord word) : '\n' ∉ lineText words := by
  induction words with
  | nil => exact List.not_mem_nil
  | cons word words rest =>
      have here : '\n' ∉ word.toList := by
        intro member
        have solid := (carried word List.mem_cons_self).solid '\n' member
        exact absurd solid (by decide)
      have later := rest (fun word member => carried word (List.mem_cons_of_mem _ member))
      cases words with
      | nil => exact here
      | cons next words =>
          rw [lineText]
          · intro member
            rcases List.mem_append.mp member with inside | behind
            · exact here inside
            · rcases List.mem_cons.mp behind with blank | inside
              · exact absurd blank (by decide)
              · exact later inside
          · nofun

theorem lineText_length (words : List String) :
    (utf8Bytes (String.ofList (lineText words))).length ≤
      (words.map (fun word => (utf8Bytes word).length + 1)).sum := by
  simp only [utf8Bytes, String.toList_ofList]
  induction words with
  | nil => exact Nat.le_refl _
  | cons word words rest =>
      cases words with
      | nil =>
          rw [lineText, List.map_singleton, List.sum_singleton]
          exact Nat.le_succ _
      | cons next words =>
          rw [lineText, List.flatMap_append, List.flatMap_cons, List.length_append, List.length_append, List.map_cons,
            List.sum_cons]
          · have blank : (String.utf8EncodeChar ' ').length = 1 := by decide
            omega
          · exact fun alone => absurd alone (List.cons_ne_nil _ _)

/-- A line within the limits is found as its words. -/
theorem lineBytes_decodes (carried : ∀ word ∈ words, LineWord word) (filled : words ≠ []) (few : words.length ≤ 4)
    {first : UInt8} {content : Bytes} (begun : utf8Bytes (String.ofList (lineText words)) = first :: content)
    (plain : first ≠ 42) (short : (lineBytes words).length ≤ 1024) (rest : Bytes) :
    decodeBufferedCommand (lineBytes words ++ rest) replicationReadLimits =
      .ok (some (words, (lineBytes words).length)) := by
  have single : newline ∉ utf8Bytes (String.ofList (lineText words)) := by
    apply newline_not_mem_utf8Bytes
    rw [String.toList_ofList]
    exact lineText_single carried
  rw [begun, List.mem_cons, not_or] at single
  have shape : lineBytes words = first :: content ++ crlf := by rw [lineBytes, begun]
  have line := bufferedLine_line (Ne.symm single.1) single.2 (shape ▸ short) rest
  have most : maximumFirstLineSize first replicationReadLimits = 1024 := by
    rw [maximumFirstLineSize, if_neg plain]
    decide
  have command : inlineCommand (lineBytes words) replicationReadLimits = .ok words := by
    have text : fromUtf8 (first :: content) = some (String.ofList (lineText words)) := by
      rw [← begun, fromUtf8_utf8Bytes]
    have some_words : words.isEmpty = false := List.isEmpty_eq_false_iff.mpr filled
    have limit : ¬ words.length > replicationReadLimits.maxArrayLen := Nat.not_lt.mpr few
    rw [shape, inlineCommand, lineContent_line]
    simp only [bind, Except.bind, text, orInvalid, splitAsciiWhitespace_lineText carried filled, some_words,
      Bool.false_eq_true, if_false, if_neg limit]
    rfl
  have opened : lineBytes words ++ rest = first :: (content ++ crlf ++ rest) := by
    rw [shape]
    rfl
  unfold decodeBufferedCommand
  rw [opened]
  simp only
  rw [← opened, most, shape, line, ← shape]
  simp only [bind, Except.bind, List.take_left, command, ne_eq, plain, not_false_eq_true, if_true]
  rfl

theorem readReplicationCommand_line (carried : ∀ word ∈ words, LineWord word) (filled : words ≠ [])
    (few : words.length ≤ 4) {first : UInt8} {content : Bytes}
    (begun : utf8Bytes (String.ofList (lineText words)) = first :: content) (plain : first ≠ 42)
    (short : (lineBytes words).length ≤ 1024) {rest : Bytes} {reader : Reader UInt8}
    (begins : reader.stream = lineBytes words ++ rest) :
    ∃ after, readReplicationCommand reader = .ready (.ok (some words)) after ∧ after.stream = rest := by
  have some_left : lineBytes words ≠ [] := by
    rw [lineBytes, begun]
    nofun
  have decoded := lineBytes_decodes carried filled few begun plain short []
  rw [List.append_nil] at decoded
  have follows := decodeBufferedCommand_follows some_left replicationReadLimits_bounded
  rw [decoded] at follows
  obtain ⟨after, returned, left, _⟩ := follows.2 rest reader (by rw [begins, List.drop_zero])
  refine ⟨after, returned, ?_⟩
  rw [left, List.drop_left]

end Lines

section Frames

/-- The digits of a number are a word. -/
theorem decimalText_word (value : Nat) : LineWord (decimalText value) := by
  rw [decimalText]
  constructor
  · rw [String.toList_ofList]
    exact Nat.toDigits_ne_nil
  · intro char member
    rw [String.toList_ofList] at member
    have digit := Nat.isDigit_of_mem_toDigits (by decide) (by decide) member
    rw [Bool.eq_false_iff]
    intro blank
    simp only [isAsciiWhitespace, Bool.or_eq_true, beq_iff_eq] at blank
    rcases blank with (((rfl | rfl) | rfl) | rfl) | rfl <;> exact absurd digit (by decide)

/-- The names that lines begin with. -/
def lineNames : List (List String) := [["+FULLRESYNC3"], ["+CONTINUE3"], ["+SYNCDONE3"], ["REPLCONF", "PING"]]

theorem solid_of_all {word : String} (solid : word.toList.all (fun char => !isAsciiWhitespace char) = true) :
    ∀ char ∈ word.toList, isAsciiWhitespace char = false := by
  intro char member
  have apart := List.all_eq_true.mp solid char member
  rwa [Bool.not_eq_true'] at apart

/-- What the names of lines have in common. -/
theorem lineNames_carried {name : List String} (named : name ∈ lineNames) :
    name ≠ [] ∧ ∀ word ∈ name, LineWord word ∧ (utf8Bytes word).length ≤ 20 := by
  have words : lineNames.flatten = ["+FULLRESYNC3", "+CONTINUE3", "+SYNCDONE3", "REPLCONF", "PING"] := rfl
  refine ⟨?_, ?_⟩
  · rintro rfl
    exact absurd named (by simp [lineNames])
  · intro word member
    have listed := List.mem_flatten_of_mem named member
    rw [words] at listed
    simp only [List.mem_cons, List.not_mem_nil, or_false] at listed
    rcases listed with rfl | rfl | rfl | rfl | rfl
    all_goals exact ⟨⟨by decide, solid_of_all (by decide)⟩, by decide⟩

/-- A line does not begin like an array. -/
theorem lineNames_begin {name : List String} (named : name ∈ lineNames) (number : Nat) (numbers : List Nat) :
    ∃ first content, utf8Bytes (String.ofList (lineText (name ++ (number :: numbers).map decimalText))) =
      first :: content ∧ first ≠ 42 := by
  rw [utf8Bytes, String.toList_ofList]
  simp only [lineNames, List.mem_cons, List.not_mem_nil, or_false] at named
  rcases named with rfl | rfl | rfl | rfl
  all_goals exact ⟨_, _, rfl, by decide⟩

/-- A name and numbers behind it: the lines of the protocol. -/
theorem readReplicationCommand_numbers {name : List String} (named : name ∈ lineNames) {number : Nat}
    {numbers : List Nat} (few : name.length + (numbers.length + 1) ≤ 4)
    (fit : ∀ other ∈ number :: numbers, other < 2 ^ 64) {rest : Bytes} {reader : Reader UInt8}
    (begins : reader.stream = lineBytes (name ++ (number :: numbers).map decimalText) ++ rest) :
    ∃ after, readReplicationCommand reader = .ready (.ok (some (name ++ (number :: numbers).map decimalText))) after ∧
      after.stream = rest := by
  obtain ⟨filled, carried⟩ := lineNames_carried named
  obtain ⟨first, content, begun, plain⟩ := lineNames_begin named number numbers
  have words : ∀ word ∈ name ++ (number :: numbers).map decimalText,
      LineWord word ∧ (utf8Bytes word).length ≤ 20 := by
    intro word member
    rcases List.mem_append.mp member with inside | numeral
    · exact carried word inside
    · obtain ⟨value, listed, rfl⟩ := List.mem_map.mp numeral
      exact ⟨decimalText_word value, decimalText_length (fit value listed)⟩
  have count : (name ++ (number :: numbers).map decimalText).length ≤ 4 := by
    rwa [List.length_append, List.length_map, List.length_cons]
  have short : (lineBytes (name ++ (number :: numbers).map decimalText)).length ≤ 1024 := by
    have line := lineText_length (name ++ (number :: numbers).map decimalText)
    have each : ∀ size ∈ (name ++ (number :: numbers).map decimalText).map
        (fun word => (utf8Bytes word).length + 1), size ≤ 21 := by
      intro size member
      obtain ⟨word, listed, rfl⟩ := List.mem_map.mp member
      exact Nat.succ_le_succ (words word listed).2
    have total := List.sum_le_card_nsmul _ 21 each
    rw [List.length_map, smul_eq_mul] at total
    rw [lineBytes, List.length_append]
    have ending : crlf.length = 2 := rfl
    omega
  have some_words : name ++ (number :: numbers).map decimalText ≠ [] :=
    fun nothing => filled (List.append_eq_nil_iff.mp nothing).1
  exact readReplicationCommand_line (fun word member => (words word member).1) some_words count begun plain short begins

variable [Platform]

/-- What a frame is on the connection. -/
def Frame.bytes : Frame → Except PersistenceError Bytes
  | .entry key stored => (encodeFullSyncEntry key stored).map writeChunkedReplicationRecord
  | .effect sequence batch => (encodeReplicationEffect sequence batch).map writeChunkedReplicationRecord
  | frame => frame.words.map lineBytes

end Frames

section Taking
variable [Platform]

/-- A replica after the next frame it has read, and what is still to be read. -/
abbrev Taken := (Except PersistenceError Reception × Replica) × Reader UInt8

/-- What follows on something read: nothing while it has not arrived, and the end of the connection if it cannot be
read. -/
def Replica.afterReading {β : Type} (replica : Replica) (wrap : PersistenceError → PersistenceError)
    (next : β → Reader UInt8 → Option Taken) : Poll UInt8 PersistenceError β → Option Taken
  | .pending => none
  | .ready (.error error) reader => some ((.error (wrap error), replica), reader)
  | .ready (.ok value) reader => next value reader

/-- The rest of an effect whose header has been read. -/
def Replica.takeEffect (storage : Storage) (append : AppendBatches) (words : List String) (reception : Reception)
    (replica : Replica) (reader : Reader UInt8) : Option Taken :=
  replica.afterReading id
    (fun effect after => some (replica.receive storage append (.effect effect.1 effect.2) words reception, after))
    (readReplicationEffect words reader)

/-- A line that is all of its frame. -/
def Replica.takeLine (storage : Storage) (append : AppendBatches) (words : List String) (reception : Reception)
    (replica : Replica) (reader : Reader UInt8) : Option Taken :=
  some (replica.receive storage append (.heartbeat 0) words reception, reader)

/-- What the replica task does until it has dealt with one frame. The times of an entry that it reads are its own and
are not looked at. -/
def Replica.take (storage : Storage) (append : AppendBatches) (reception : Reception) (replica : Replica)
    (reader : Reader UInt8) : Option Taken :=
  match reception with
  | .handshake _ _ =>
      replica.afterReading id (fun words => replica.takeLine storage append words reception)
        (readReplicationFrame "Master disconnected before the replication handshake"
          "Unable to read the replication handshake" reader)
  | .entries _ _ 0 _ _ =>
      replica.afterReading id (fun words => replica.takeLine storage append words reception)
        (readReplicationFrame "Master disconnected before completing full synchronization"
          "Unable to read full synchronization completion" reader)
  | .entries _ _ (_ + 1) _ _ =>
      replica.afterReading (fun error => Replica.invalidEntry error.message)
        (fun entry after =>
          some (replica.receive storage append (.entry entry.1 (entry.2.intoDataEntry 0)) [] reception, after))
        (readFullSyncEntry reader)
  | .missing _ =>
      replica.afterReading id
        (fun words =>
          if words.head? = some "+SYNCDONE3" then replica.takeLine storage append words reception
          else replica.takeEffect storage append words reception)
        (readReplicationFrame "Master disconnected during partial synchronization"
          "Unable to read partial synchronization data" reader)
  | .live _ =>
      replica.afterReading id
        (fun words =>
          match parseUpstreamHeartbeat words replica.localOffset with
          | .ok false => replica.takeEffect storage append words reception
          | _ => replica.takeLine storage append words reception)
        (readReplicationFrame "Master disconnected" "Error reading from master" reader)

variable {replica : Replica} {storage : Storage} {append : AppendBatches} {reception : Reception}
  {replid time : Nat} {past : Past} {awaited next : Awaited} {frame : Frame} {words : List String}
  {bytes rest : Bytes} {reader : Reader UInt8}

/-- A record of an effect: its header is read, and the effect behind it. -/
theorem reads_effect_bytes {sequence : Nat} {batch : CommittedBatch} (bounded : sequence < 2 ^ 64)
    (readable : (Frame.effect sequence batch).Readable) (worded : (Frame.effect sequence batch).words = .ok words)
    (written : (Frame.effect sequence batch).bytes = .ok bytes) (begins : reader.stream = bytes ++ rest) :
    ∃ headed after, readReplicationCommand reader = .ready (.ok (some words)) headed ∧
      readReplicationEffect words headed = .ready (.ok (sequence, batch)) after ∧ after.stream = rest := by
  simp only [Frame.words, Frame.bytes] at worded written
  cases encoded : encodeReplicationEffect sequence batch with
  | error error =>
      rw [encoded] at worded
      cases worded
  | ok record =>
      rw [encoded] at worded written
      cases worded
      cases written
      have back := readable record encoded
      obtain ⟨payload, positive, _, within, rfl⟩ := encodeReplicationEffect_ok encoded
      have decodes : decodeCommittedBatch payload = .ok batch := by
        simp only [decodeReplicationEffect, parseNumber_decimalText bounded, bind, Except.bind, if_neg positive] at back
        split at back
        · cases back
        next decoded =>
          cases back
          exact decoded
      have filled : payload ≠ [] := by
        rintro rfl
        cases decodes
      have header := effectHeader_framed bounded (Nat.lt_of_le_of_lt within recordLimit_bounded.1)
      rw [writeChunkedReplicationRecord_eq, List.append_assoc] at begins
      obtain ⟨headed, opened, left⟩ := readReplicationCommand_frame header begins
      obtain ⟨after, returned, final⟩ := readReplicationEffect_written positive bounded filled within decodes left
      exact ⟨headed, after, opened, returned, final⟩

theorem reads_entry_bytes {key : Bytes} {stored : DataEntry} (readable : (Frame.entry key stored).Readable)
    (written : (Frame.entry key stored).bytes = .ok bytes) (begins : reader.stream = bytes ++ rest) :
    ∃ after, readFullSyncEntry reader = .ready (.ok (key, .ofDataEntry stored)) after ∧ after.stream = rest := by
  simp only [Frame.bytes] at written
  cases encoded : encodeFullSyncEntry key stored with
  | error error =>
      rw [encoded] at written
      cases written
  | ok record =>
      rw [encoded] at written
      cases written
      have decodes := readable record encoded
      obtain ⟨payload, _, within, rfl⟩ := encodeFullSyncEntry_ok encoded
      have filled : payload ≠ [] := Persistence.Recovery.decodeSnapshotEntry_nonempty decodes
      have header := entryHeader_framed (Nat.lt_of_le_of_lt within recordLimit_bounded.2)
      rw [writeChunkedReplicationRecord_eq, List.append_assoc] at begins
      obtain ⟨headed, opened, left⟩ := readReplicationFrame_frame header begins
        "Master disconnected during full synchronization" "Unable to read full synchronization entry"
      obtain ⟨after, returned, final⟩ := readFullSyncPayload_written filled within decodes left
      refine ⟨after, ?_, final⟩
      rw [readFullSyncEntry, bind_ready opened, returned]

omit [Platform] in
theorem readReplicationFrame_read {after : Reader UInt8}
    (returned : readReplicationCommand reader = .ready (.ok (some words)) after) (disconnected context : String) :
    readReplicationFrame disconnected context reader = .ready (.ok words) after := by
  rw [readReplicationFrame, returned]

/-- The bytes of a line. -/
theorem reads_line_bytes {name : List String} (named : name ∈ lineNames) {number : Nat} {numbers : List Nat}
    (lined : frame.words = .ok (name ++ (number :: numbers).map decimalText))
    (same : frame.bytes = frame.words.map lineBytes)
    (few : name.length + (numbers.length + 1) ≤ 4) (fit : ∀ other ∈ number :: numbers, other < 2 ^ 64)
    (worded : frame.words = .ok words) (written : frame.bytes = .ok bytes) (begins : reader.stream = bytes ++ rest) :
    ∃ after, readReplicationCommand reader = .ready (.ok (some words)) after ∧ after.stream = rest := by
  obtain rfl : words = name ++ (number :: numbers).map decimalText := Except.ok.inj (worded.symm.trans lined)
  rw [same, lined] at written
  obtain rfl : lineBytes (name ++ (number :: numbers).map decimalText) = bytes := Except.ok.inj written
  exact readReplicationCommand_numbers named few fit begins

/-- The bytes of the frame that is awaited: the replica receives the frame and reads nothing of what follows. -/
theorem take_reads (drawn : replid < 2 ^ 64) (bounded : past.last < 2 ^ 64) (follows : Follows replid past time replica)
    (stands : Stands replid past time replica reception awaited) (reads : Reads replid past time awaited frame next)
    (readable : frame.Readable) (worded : frame.words = .ok words) (written : frame.bytes = .ok bytes)
    (begins : reader.stream = bytes ++ rest) :
    ∃ after, replica.take storage append reception reader =
      some (replica.receive storage append frame words reception, after) ∧ after.stream = rest := by
  have pair : ∀ {first second : Nat}, first < 2 ^ 64 → second < 2 ^ 64 → ∀ other ∈ [first, second], other < 2 ^ 64 :=
    fun first second => List.forall_mem_cons.mpr ⟨first, List.forall_mem_singleton.mpr second⟩
  have within : ∀ {sequence : Nat}, sequence ≤ past.last → sequence < 2 ^ 64 := fun order => lt_of_le_of_lt order bounded
  cases reads with
  | @full known offset sequence entries dump =>
      obtain ⟨rfl, _⟩ := stands
      obtain ⟨after, returned, left⟩ := @reads_line_bytes _ _ _ _ _ _ ["+FULLRESYNC3"] (by decide) replid
        [sequence, entries.length] rfl rfl (by simp)
        (List.forall_mem_cons.mpr ⟨drawn, pair (within dump.reached) readable⟩) worded written begins
      refine ⟨after, ?_, left⟩
      simp only [Replica.take, readReplicationFrame_read returned]
      rfl
  | @continues offset reached =>
      obtain ⟨rfl, _⟩ := stands
      obtain ⟨after, returned, left⟩ := @reads_line_bytes _ _ _ _ _ _ ["+CONTINUE3"] (by decide) replid
        [offset] rfl rfl (by simp) (pair drawn (within reached)) worded written begins
      refine ⟨after, ?_, left⟩
      simp only [Replica.take, readReplicationFrame_read returned]
      rfl
  | @entry sequence entry more =>
      obtain ⟨_, received, staging, _, rfl⟩ := stands
      obtain ⟨after, returned, left⟩ := reads_entry_bytes readable written begins
      refine ⟨after, ?_, left⟩
      simp only [Replica.take, List.length_cons, returned]
      rfl
  | @complete sequence =>
      obtain ⟨_, received, staging, staged, rfl⟩ := stands
      obtain ⟨after, returned, left⟩ := @reads_line_bytes _ _ _ _ _ _ ["+SYNCDONE3"] (by decide) replid
        [sequence] rfl rfl (by simp) (pair drawn (within staged.dump.reached)) worded written begins
      refine ⟨after, ?_, left⟩
      simp only [Replica.take, List.length_nil, readReplicationFrame_read returned]
      rfl
  | missed sends =>
      obtain ⟨rfl, _⟩ := stands
      have fits := within sends.reached
      have header := effect_words worded
      have different : words.head? ≠ some "+SYNCDONE3" := by
        rw [header]
        decide
      obtain ⟨headed, after, opened, returned, left⟩ := reads_effect_bytes fits readable worded written begins
      refine ⟨after, ?_, left⟩
      simp only [Replica.take, readReplicationFrame_read opened, Replica.afterReading, if_neg different,
        Replica.takeEffect, returned]
  | @caughtUp offset =>
      obtain ⟨rfl, known, rfl⟩ := stands
      obtain ⟨after, returned, left⟩ := @reads_line_bytes _ _ _ _ _ _ ["+SYNCDONE3"] (by decide) replid
        [replica.localOffset] rfl rfl (by simp) (pair drawn (within (follows.agrees known).reached)) worded written begins
      refine ⟨after, ?_, left⟩
      cases worded
      simp only [Replica.take, readReplicationFrame_read returned]
      rfl
  | followed sends =>
      obtain ⟨rfl, _⟩ := stands
      have fits := within sends.reached
      have header := effect_words worded
      have plain : parseUpstreamHeartbeat words replica.localOffset = .ok false := by
        unfold parseUpstreamHeartbeat
        rw [if_pos (by rw [header]; decide)]
      obtain ⟨headed, after, opened, returned, left⟩ := reads_effect_bytes fits readable worded written begins
      refine ⟨after, ?_, left⟩
      simp only [Replica.take, readReplicationFrame_read opened, Replica.afterReading, plain, Replica.takeEffect,
        returned]
  | @heartbeat offset =>
      obtain ⟨rfl, known, rfl⟩ := stands
      have fits := within (follows.agrees known).reached
      obtain ⟨after, returned, left⟩ := @reads_line_bytes _ _ _ _ _ _ ["REPLCONF", "PING"] (by decide)
        replica.localOffset [] rfl rfl (by simp) (List.forall_mem_singleton.mpr fits) worded written begins
      refine ⟨after, ?_, left⟩
      have beat := parse_heartbeat fits
      have said : words = ["REPLCONF", "PING", decimalText replica.localOffset] := (Except.ok.inj worded).symm
      rw [← said] at beat
      simp only [Replica.take, readReplicationFrame_read returned, Replica.afterReading, beat, Replica.takeLine]
      simp only [Replica.receive, beat]

end Taking

section Streams
variable [Platform]

/-- The bytes of frames that can be written. -/
def wireBytes (frames : List Frame) : Bytes := frames.flatMap (fun frame => frame.bytes.toOption.getD [])

/-- Frames, each with what storage answers to it, until the connection is given up. -/
def Replica.receiveAll : List (Frame × Storage × AppendBatches) → Reception → Replica →
    Except PersistenceError Reception × Replica
  | [], reception, replica => (.ok reception, replica)
  | (frame, storage, append) :: frames, reception, replica =>
      match frame.words with
      | .error error => (.error error, replica)
      | .ok words =>
          match replica.receive storage append frame words reception with
          | (.ok onward, after) => receiveAll frames onward after
          | (.error error, after) => (.error error, after)

/-- The same from the bytes that arrive. -/
def Replica.takeAll : List (Storage × AppendBatches) → Reception → Replica → Reader UInt8 → Option Taken
  | [], reception, replica, reader => some ((.ok reception, replica), reader)
  | (storage, append) :: answers, reception, replica, reader =>
      match replica.take storage append reception reader with
      | none => none
      | some ((.ok onward, after), reader) => takeAll answers onward after reader
      | some ((.error error, after), reader) => some ((.error error, after), reader)

variable {replid time : Nat} {past : Past}

theorem encodes_bytes {frame : Frame} (encodes : frame.Encodes) : ∃ bytes, frame.bytes = .ok bytes := by
  obtain ⟨words, worded⟩ := encodes
  cases frame with
  | entry key stored =>
      simp only [Frame.words, Frame.bytes] at worded ⊢
      cases encoded : encodeFullSyncEntry key stored with
      | error error =>
          rw [encoded] at worded
          cases worded
      | ok record => exact ⟨_, rfl⟩
  | effect sequence batch =>
      simp only [Frame.words, Frame.bytes] at worded ⊢
      cases encoded : encodeReplicationEffect sequence batch with
      | error error =>
          rw [encoded] at worded
          cases worded
      | ok record => exact ⟨_, rfl⟩
  | _ => exact ⟨_, rfl⟩

/-- By induction on the frames that are read: what the replica makes of each leaves it waiting for the next. -/
theorem takeAll_reads (drawn : replid ≠ 0 ∧ replid < 2 ^ 64) (bounded : past.last < 2 ^ 64) {replica : Replica}
    (follows : Follows replid past time replica) {reception : Reception} {awaited final : Awaited}
    (stands : Stands replid past time replica reception awaited) {frames : List Frame}
    (flows : Trace (Reads replid past time) awaited frames final) (encode : ∀ frame ∈ frames, frame.Encodes)
    (readable : ∀ frame ∈ frames, frame.Readable) {answers : List (Storage × AppendBatches)}
    (few : answers.length ≤ frames.length) {reader : Reader UInt8} {rest : Bytes}
    (begins : reader.stream = wireBytes frames ++ rest) :
    ∃ after, replica.takeAll answers reception reader = some (replica.receiveAll (frames.zip answers) reception, after) ∧
      ∀ onward, (replica.receiveAll (frames.zip answers) reception).1 = .ok onward →
        after.stream = wireBytes (frames.drop answers.length) ++ rest := by
  induction answers generalizing replica reception awaited frames reader with
  | nil =>
      refine ⟨reader, ?_, fun _ _ => begins⟩
      rw [List.zip_nil_right]
      rfl
  | cons answer answers later =>
      obtain ⟨storage, append⟩ := answer
      cases flows with
      | nil => exact absurd few (Nat.not_succ_le_zero _)
      | @cons _ middle _ frame frames reads rest' =>
          obtain ⟨words, worded⟩ := encode frame List.mem_cons_self
          obtain ⟨bytes, written⟩ := encodes_bytes ⟨words, worded⟩
          have stream : reader.stream = bytes ++ (wireBytes frames ++ rest) := by
            rw [begins, wireBytes, List.flatMap_cons, written, List.append_assoc]
            rfl
          obtain ⟨next, taken, left⟩ := @take_reads _ replica storage append _ _ _ _ _ _ _ _ _ _ _ drawn.2 bounded
            follows stands reads (readable frame List.mem_cons_self) worded written stream
          have handled : Handled replid past time middle (Willing replica storage append ∧ frame.WithinLimit)
              (replica.receive storage append frame words reception) :=
            receive_handled drawn bounded follows stands reads worded
          rw [List.zip_cons_cons, Replica.takeAll, Replica.receiveAll, taken, worded]
          cases received : replica.receive storage append frame words reception with
          | mk result after =>
              rw [received] at handled
              cases result with
              | error error =>
                  simp only [received]
                  exact ⟨next, rfl, fun _ impossible => nomatch impossible⟩
              | ok onward =>
                  simp only [received]
                  exact later handled.follows (handled.stands onward rfl) rest'
                    (fun frame member => encode frame (List.mem_cons_of_mem _ member))
                    (fun frame member => readable frame (List.mem_cons_of_mem _ member)) (Nat.le_of_succ_le_succ few) left

omit [Platform] in
theorem Feeds.flows {session : Option Session} {awaited : Awaited} {wire : List Frame}
    (feeds : Feeds replid past time session awaited wire) :
    ∃ final, Trace (Reads replid past time) awaited wire final := by
  cases feeds with
  | closed flows => exact ⟨_, flows⟩
  | opening => exact ⟨_, .nil _⟩
  | sending _ flows =>
      obtain ⟨middle, written, _⟩ := flows.split
      exact ⟨middle, written⟩

/-- A master never sends its replica anything that the replica takes for a fault of the protocol: in every cluster that
is reached, the bytes of the next frame on the connection, unless it announces more keys than a node may hold or cannot
be read back, are taken by a replica that accepts writes, was not asked to stop and has working storage. -/
theorem next_frame_taken [Process] {start : Nat} {cluster : Cluster} (reached : Reached start time cluster) {link : Link}
    {frame : Frame} {wire : List Frame} (linked : cluster.link = some link) (arrived : link.wire = frame :: wire)
    (within : frame.WithinLimit) (readable : frame.Readable) {storage : Storage} {append : AppendBatches}
    (willing : Willing cluster.replica storage append) {bytes rest : Bytes} (written : frame.bytes = .ok bytes)
    {reader : Reader UInt8} (begins : reader.stream = bytes ++ rest) :
    ∃ reception later after, cluster.replica.take storage append link.reception reader =
      some ((.ok reception, later), after) ∧ after.stream = rest := by
  obtain ⟨past, coupled⟩ := reached.coupled
  obtain ⟨awaited, stands, feeds⟩ := coupled.linked link linked
  rw [arrived] at feeds
  obtain ⟨next, reads, _⟩ := feeds.arrives
  obtain ⟨words, worded⟩ := coupled.worded link linked frame (by rw [arrived]; exact List.mem_cons_self)
  have handled : Handled cluster.replid past time next (Willing cluster.replica storage append ∧ frame.WithinLimit)
      (cluster.replica.receive storage append frame words link.reception) :=
    receive_handled coupled.drawn coupled.last_lt coupled.follows stands reads worded
  obtain ⟨reception, taken⟩ := handled.continues ⟨willing, within⟩
  obtain ⟨after, read, left⟩ := @take_reads _ cluster.replica storage append _ _ _ _ _ _ _ _ _ _ _ coupled.drawn.2
    coupled.last_lt coupled.follows stands reads readable worded written begins
  exact ⟨reception, _, after, read.trans (congrArg (fun result => some ((result, _), after)) taken), left⟩

/-- In every cluster that is reached, the bytes of the frames on the connection, however they are cut on the way and
whatever follows them, are received as these frames, as long as they can be read back: as many of them as are read, one
after the other, the replica comes to where the frames bring it, and as long as it goes on it has read their bytes and
none behind them. -/
theorem bytes_received_as_frames [Process] {start : Nat} {cluster : Cluster} (reached : Reached start time cluster)
    {link : Link} (linked : cluster.link = some link) (readable : ∀ frame ∈ link.wire, frame.Readable)
    {answers : List (Storage × AppendBatches)} (few : answers.length ≤ link.wire.length) {reader : Reader UInt8}
    {rest : Bytes} (begins : reader.stream = wireBytes link.wire ++ rest) :
    ∃ after, cluster.replica.takeAll answers link.reception reader =
        some (cluster.replica.receiveAll (link.wire.zip answers) link.reception, after) ∧
      ∀ onward, (cluster.replica.receiveAll (link.wire.zip answers) link.reception).1 = .ok onward →
        after.stream = wireBytes (link.wire.drop answers.length) ++ rest := by
  obtain ⟨past, coupled⟩ := reached.coupled
  obtain ⟨awaited, stands, feeds⟩ := coupled.linked link linked
  obtain ⟨final, flows⟩ := feeds.flows
  exact takeAll_reads coupled.drawn coupled.last_lt coupled.follows stands flows (coupled.worded link linked) readable
    few begins

end Streams

/-- The effect of a master that has set a key, and a byte behind it. -/
theorem next_frame_taken_set :
    letI := Reference.platform (fun _ => .error "unsupported")
    letI := startedProcess
    ∃ (cluster : Cluster) (link : Link) (bytes : Bytes), cluster.link = some link ∧ link.wire = [.effect 1 setBatch] ∧
      (Frame.effect 1 setBatch).bytes = .ok bytes ∧ ∃ reception later after,
        cluster.replica.take .done acceptEverything link.reception (arrived (bytes ++ [42])) =
          some ((.ok reception, later), after) ∧ after.stream = [42] := by
  let := Reference.platform (fun _ => .error "unsupported")
  let := startedProcess
  obtain ⟨master, replica, sent, _, _, accepting, wanted⟩ := effect_reached
  obtain ⟨bytes, written⟩ := encodes_bytes setBatch_encodes
  have willing : Willing replica .done acceptEverything := ⟨accepting, wanted, rfl, fun _ _ => rfl⟩
  exact ⟨_, _, bytes, rfl, rfl, written,
    next_frame_taken sent rfl rfl trivial setBatch_readable willing written (arrived_stream _)⟩

/-- The same effect, in one piece. -/
theorem bytes_received_as_frames_set :
    letI := Reference.platform (fun _ => .error "unsupported")
    letI := startedProcess
    ∃ (cluster : Cluster) (link : Link), cluster.link = some link ∧ link.wire = [.effect 1 setBatch] ∧
      ∃ after, cluster.replica.takeAll [(.done, acceptEverything)] link.reception
            (arrived (wireBytes link.wire ++ [42])) =
          some (cluster.replica.receiveAll (link.wire.zip [(.done, acceptEverything)]) link.reception, after) ∧
        ∀ onward, (cluster.replica.receiveAll (link.wire.zip [(.done, acceptEverything)]) link.reception).1 =
            .ok onward → after.stream = wireBytes (link.wire.drop 1) ++ [42] := by
  let := Reference.platform (fun _ => .error "unsupported")
  let := startedProcess
  obtain ⟨master, replica, sent, _⟩ := effect_reached
  have readable : ∀ frame ∈ [Frame.effect 1 setBatch], frame.Readable := by
    intro frame member
    rw [List.mem_singleton.mp member]
    exact setBatch_readable
  exact ⟨_, _, rfl, rfl, bytes_received_as_frames sent rfl readable (Nat.le_refl _) (arrived_stream _)⟩

end OnyxDB.Replication.Stream
