import OnyxDB.Library.Stepping
import OnyxDB.Store.JsonPath

/-! The scanner of JSON paths, one turn of a loop at a time, and the grammar it accepts. -/

namespace OnyxDB.Store
open OnyxDB.Library.Decimal OnyxDB.Library.Stepping

section Scanner

/-- `&text[offset..]` on bytes; there is no such slice behind the end or within a character. -/
def sliceFrom (offset : Nat) : List Char → Option (List Char)
  | [] => if offset = 0 then some [] else none
  | char :: rest =>
      if offset = 0 then some (char :: rest)
      else if char.utf8Size ≤ offset then sliceFrom (offset - char.utf8Size) rest
      else none

/-- What `parse_json_path` decides before its loop. -/
inductive PathOpening where
  | answered (result : Option (List JsonPathSegment))
  | scans (chars : List Char)
  | panics
  deriving DecidableEq, Repr

def openJsonPath (path : String) : PathOpening :=
  let path := trim path.toList
  if path ≠ ['$'] ∧ path.head? ≠ some '$' then .answered none
  else
    match sliceFrom 1 path with
    | none => .panics
    | some rest =>
        if rest.isEmpty then .answered (some [])
        else if rest.head? ≠ some '.' ∧ rest.head? ≠ some '[' then .answered none
        else .scans rest

/-- Where the scanner stands: at the head of the outer loop, in the loop over a field or over an index that
began at `start`, or at its answer. -/
inductive ScanState where
  | outer (i : Nat) (segments : List JsonPathSegment)
  | field (start i : Nat) (segments : List JsonPathSegment)
  | index (start i : Nat) (segments : List JsonPathSegment)
  | done (result : Option (List JsonPathSegment))
  deriving DecidableEq, Repr

/-- `chars[start..i]`. -/
def between (chars : List Char) (start i : Nat) : List Char := (chars.take i).drop start

/-- What follows the loop over a field. -/
def closeField (chars : List Char) (start i : Nat) (segments : List JsonPathSegment) : ScanState :=
  if start = i then .done none
  else .outer i (segments ++ [.field (String.ofList (between chars start i))])

/-- What follows the loop over an index that is closed at `i`. -/
def closeIndex (chars : List Char) (start i : Nat) (segments : List JsonPathSegment) : ScanState :=
  match parseUnsigned (2 ^ 64) (between chars start i) with
  | none => .done none
  | some position => .outer (i + 1) (segments ++ [.index position])

/-- One turn of the loop the scanner stands in. -/
def scanStep (chars : List Char) : ScanState → ScanState
  | .outer i segments =>
      match chars[i]? with
      | none => .done (some segments)
      | some char =>
          if char = '.' then .field (i + 1) (i + 1) segments
          else if char = '[' then .index (i + 1) (i + 1) segments
          else .done none
  | .field start i segments =>
      match chars[i]? with
      | none => closeField chars start i segments
      | some char =>
          if char ≠ '.' ∧ char ≠ '[' then .field start (i + 1) segments
          else closeField chars start i segments
  | .index start i segments =>
      match chars[i]? with
      | none => .done none
      | some char =>
          if char ≠ ']' then .index start (i + 1) segments else closeIndex chars start i segments
  | .done result => .done result

/-- `parse_json_path` returns `result` for `path`. -/
def Returns (path : String) (result : Option (List JsonPathSegment)) : Prop :=
  match openJsonPath path with
  | .answered early => early = result
  | .scans chars => ∃ steps, (scanStep chars)^[steps] (.outer 0 []) = .done result
  | .panics => False

end Scanner

section Answers

/-- The answer of a scanner that has read `name` of a field and has `rest` before it. -/
def fieldAnswer (name rest : List Char) (segments : List JsonPathSegment) : Option (List JsonPathSegment) :=
  if (name ++ rest.takeWhile inField).isEmpty then none
  else (parseSegments (rest.dropWhile inField)).map
    (fun later => segments ++ .field (String.ofList (name ++ rest.takeWhile inField)) :: later)

def indexAnswer (text rest : List Char) (segments : List JsonPathSegment) : Option (List JsonPathSegment) :=
  if (rest.dropWhile (· != ']')).isEmpty then none
  else (parseUnsigned (2 ^ 64) (text ++ rest.takeWhile (· != ']'))).bind (fun position =>
    (parseSegments (rest.dropWhile (· != ']')).tail).map (fun later => segments ++ .index position :: later))

/-- The answer that a state comes to. -/
def ScanState.answer (chars : List Char) : ScanState → Option (List JsonPathSegment)
  | .outer i segments => (parseSegments (chars.drop i)).map (segments ++ ·)
  | .field start i segments => fieldAnswer (between chars start i) (chars.drop i) segments
  | .index start i segments => indexAnswer (between chars start i) (chars.drop i) segments
  | .done result => result

def ScanState.Stopped : ScanState → Prop
  | .done _ => True
  | _ => False

/-- The indices are in order and within the text. -/
def ScanState.Placed (chars : List Char) : ScanState → Prop
  | .outer i _ => i ≤ chars.length
  | .field start i _ | .index start i _ => start ≤ i ∧ i ≤ chars.length
  | .done _ => True

/-- How many turns are left at most. -/
def ScanState.rank (chars : List Char) : ScanState → Nat
  | .outer i _ => 2 * (chars.length - i) + 1
  | .field _ i _ | .index _ i _ => 2 * (chars.length - i) + 2
  | .done _ => 0

end Answers

section Turns
variable {chars : List Char} {start i : Nat}

theorem drop_of_getElem? {char : Char} (read : chars[i]? = some char) :
    i < chars.length ∧ chars.drop i = char :: chars.drop (i + 1) := by
  obtain ⟨inside, here⟩ := List.getElem?_eq_some_iff.mp read
  refine ⟨inside, ?_⟩
  rw [List.drop_eq_getElem_cons inside, here]

theorem drop_of_none (ended : chars[i]? = none) : chars.drop i = [] :=
  List.drop_eq_nil_of_le (List.getElem?_eq_none_iff.mp ended)

theorem between_self : between chars i i = [] := by
  rw [between, List.drop_eq_nil_iff, List.length_take]
  exact Nat.min_le_left _ _

theorem between_succ {char : Char} (read : chars[i]? = some char) (ordered : start ≤ i) :
    between chars start (i + 1) = between chars start i ++ [char] := by
  have inside := (drop_of_getElem? read).1
  rw [between, between, List.take_add_one, read, Option.toList_some, List.drop_append_of_le_length]
  rw [List.length_take]
  omega

theorem between_empty (ordered : start ≤ i) (within : i ≤ chars.length) :
    (between chars start i).isEmpty = true ↔ start = i := by
  rw [List.isEmpty_iff, between, List.drop_eq_nil_iff, List.length_take]
  omega

theorem inField_iff {char : Char} : inField char = true ↔ char ≠ '.' ∧ char ≠ '[' := by
  simp [inField]

theorem parseSegments_other {char : Char} (dot : char ≠ '.') (bracket : char ≠ '[') (rest : List Char) :
    parseSegments (char :: rest) = none := by
  unfold parseSegments
  split
  next impossible => cases impossible
  next same => exact absurd (List.cons.inj same).1 dot
  next same => exact absurd (List.cons.inj same).1 bracket
  next => rfl

theorem parseSegments_dot (rest : List Char) (segments : List JsonPathSegment) :
    (parseSegments ('.' :: rest)).map (segments ++ ·) = fieldAnswer [] rest segments := by
  rw [parseSegments, fieldAnswer, List.nil_append]
  split
  · rfl
  · rw [Option.map_map]
    rfl

theorem parseSegments_bracket (rest : List Char) (segments : List JsonPathSegment) :
    (parseSegments ('[' :: rest)).map (segments ++ ·) = indexAnswer [] rest segments := by
  rw [parseSegments, indexAnswer, List.nil_append]
  split
  · rfl
  · cases parseUnsigned (2 ^ 64) (rest.takeWhile (· != ']')) with
    | none => rfl
    | some position =>
        rw [Option.bind_some, Option.map_map]
        rfl

theorem fieldAnswer_cons {char : Char} (inside : inField char = true) (name rest : List Char)
    (segments : List JsonPathSegment) :
    fieldAnswer name (char :: rest) segments = fieldAnswer (name ++ [char]) rest segments := by
  rw [fieldAnswer, fieldAnswer, List.takeWhile_cons_of_pos inside, List.dropWhile_cons_of_pos inside,
    List.append_assoc, List.singleton_append]

/-- At the end of a field its name decides. -/
theorem closeField_answer {rest : List Char} (ends : rest.takeWhile inField = []) (left : chars.drop i = rest)
    (ordered : start ≤ i) (within : i ≤ chars.length) (segments : List JsonPathSegment) :
    (closeField chars start i segments).answer chars = fieldAnswer (between chars start i) rest segments := by
  have stays : rest.dropWhile inField = rest := by
    have whole := List.takeWhile_append_dropWhile (p := inField) (l := rest)
    rw [ends, List.nil_append] at whole
    exact whole
  rw [closeField, fieldAnswer, ends, List.append_nil, stays]
  by_cases empty : start = i
  · rw [if_pos empty, if_pos ((between_empty ordered within).mpr empty)]
    rfl
  · rw [if_neg empty, if_neg (fun none => empty ((between_empty ordered within).mp none)), ScanState.answer, left]
    simp only [List.append_assoc, List.singleton_append]

theorem indexAnswer_cons {char : Char} (inside : char ≠ ']') (text rest : List Char)
    (segments : List JsonPathSegment) :
    indexAnswer text (char :: rest) segments = indexAnswer (text ++ [char]) rest segments := by
  have taken : (char :: rest).takeWhile (· != ']') = char :: rest.takeWhile (· != ']') :=
    List.takeWhile_cons_of_pos (bne_iff_ne.mpr inside)
  have left : (char :: rest).dropWhile (· != ']') = rest.dropWhile (· != ']') :=
    List.dropWhile_cons_of_pos (bne_iff_ne.mpr inside)
  rw [indexAnswer, indexAnswer, taken, left, List.append_assoc, List.singleton_append]

/-- At the end of an index its number decides. -/
theorem closeIndex_answer {rest : List Char} (left : chars.drop (i + 1) = rest)
    (segments : List JsonPathSegment) :
    (closeIndex chars start i segments).answer chars =
      indexAnswer (between chars start i) (']' :: rest) segments := by
  have none : (']' :: rest).takeWhile (· != ']') = [] := List.takeWhile_cons_of_neg (by decide)
  have all : (']' :: rest).dropWhile (· != ']') = ']' :: rest := List.dropWhile_cons_of_neg (by decide)
  rw [closeIndex, indexAnswer, none, all, List.append_nil, if_neg (by simp), List.tail_cons]
  cases parseUnsigned (2 ^ 64) (between chars start i) with
  | none => rfl
  | some position =>
      rw [Option.bind_some]
      simp only [ScanState.answer, left, List.append_assoc, List.singleton_append]

end Turns

section Progress
variable {chars : List Char} {start i : Nat}

/-- A turn stays within the text, comes nearer to its end and keeps the answer. -/
def Advances (chars : List Char) (state later : ScanState) : Prop :=
  later.Placed chars ∧ later.rank chars < state.rank chars ∧ later.answer chars = state.answer chars

theorem closeField_advances {rest : List Char} (ends : rest.takeWhile inField = []) (left : chars.drop i = rest)
    (ordered : start ≤ i) (within : i ≤ chars.length) (segments : List JsonPathSegment) :
    Advances chars (.field start i segments) (closeField chars start i segments) := by
  have answers := closeField_answer ends left ordered within segments
  rw [← left] at answers
  refine ⟨?_, ?_, answers⟩
  · rw [closeField]
    split
    · exact trivial
    · exact within
  · rw [closeField]
    split <;> simp only [ScanState.rank] <;> omega

theorem closeIndex_advances (read : chars[i]? = some ']') (segments : List JsonPathSegment) :
    Advances chars (.index start i segments) (closeIndex chars start i segments) := by
  obtain ⟨inside, left⟩ := drop_of_getElem? read
  have answers : (closeIndex chars start i segments).answer chars =
      indexAnswer (between chars start i) (']' :: chars.drop (i + 1)) segments := closeIndex_answer rfl segments
  rw [← left] at answers
  refine ⟨?_, ?_, answers⟩
  · rw [closeIndex]
    split
    · exact trivial
    · exact inside
  · rw [closeIndex]
    split <;> simp only [ScanState.rank] <;> omega

theorem outer_advances (segments : List JsonPathSegment) :
    Advances chars (.outer i segments) (scanStep chars (.outer i segments)) := by
  rw [scanStep]
  cases read : chars[i]? with
  | none =>
      refine ⟨trivial, Nat.succ_pos _, ?_⟩
      rw [ScanState.answer, ScanState.answer, drop_of_none read, parseSegments, Option.map_some, List.append_nil]
  | some char =>
      obtain ⟨inside, left⟩ := drop_of_getElem? read
      by_cases dot : char = '.'
      · simp only [if_pos dot]
        refine ⟨⟨le_rfl, inside⟩, ?_, ?_⟩
        · simp only [ScanState.rank]
          omega
        · rw [ScanState.answer, ScanState.answer, left, between_self, dot, parseSegments_dot]
      · by_cases bracket : char = '['
        · simp only [if_neg dot, if_pos bracket]
          refine ⟨⟨le_rfl, inside⟩, ?_, ?_⟩
          · simp only [ScanState.rank]
            omega
          · rw [ScanState.answer, ScanState.answer, left, between_self, bracket, parseSegments_bracket]
        · simp only [if_neg dot, if_neg bracket]
          refine ⟨trivial, Nat.succ_pos _, ?_⟩
          rw [ScanState.answer, ScanState.answer, left, parseSegments_other dot bracket, Option.map_none]

theorem field_advances (ordered : start ≤ i) (within : i ≤ chars.length) (segments : List JsonPathSegment) :
    Advances chars (.field start i segments) (scanStep chars (.field start i segments)) := by
  rw [scanStep]
  cases read : chars[i]? with
  | none => exact closeField_advances rfl (drop_of_none read) ordered within segments
  | some char =>
      obtain ⟨inside, left⟩ := drop_of_getElem? read
      by_cases member : inField char = true
      · simp only [if_pos (inField_iff.mp member)]
        refine ⟨⟨Nat.le_succ_of_le ordered, inside⟩, ?_, ?_⟩
        · simp only [ScanState.rank]
          omega
        · rw [ScanState.answer, ScanState.answer, left, between_succ read ordered, fieldAnswer_cons member]
      · simp only [if_neg (fun both => member (inField_iff.mpr both))]
        exact closeField_advances (List.takeWhile_cons_of_neg member) left ordered within segments

theorem index_advances (ordered : start ≤ i) (segments : List JsonPathSegment) :
    Advances chars (.index start i segments) (scanStep chars (.index start i segments)) := by
  rw [scanStep]
  cases read : chars[i]? with
  | none =>
      refine ⟨trivial, Nat.succ_pos _, ?_⟩
      rw [ScanState.answer, ScanState.answer, drop_of_none read, indexAnswer, List.dropWhile_nil,
        if_pos List.isEmpty_nil]
  | some char =>
      obtain ⟨inside, left⟩ := drop_of_getElem? read
      by_cases closes : char = ']'
      · simp only [closes, ne_eq, not_true_eq_false, if_false]
        rw [closes] at read
        exact closeIndex_advances read segments
      · simp only [ne_eq, closes, not_false_eq_true, if_true]
        refine ⟨⟨Nat.le_succ_of_le ordered, inside⟩, ?_, ?_⟩
        · simp only [ScanState.rank]
          omega
        · rw [ScanState.answer, ScanState.answer, left, between_succ read ordered, indexAnswer_cons closes]

/-- One turn of the scanner. -/
theorem scanStep_advances {state : ScanState} (placed : state.Placed chars) (runs : ¬ state.Stopped) :
    Advances chars state (scanStep chars state) := by
  cases state with
  | outer i segments => exact outer_advances segments
  | field start i segments => exact field_advances placed.1 placed.2 segments
  | index start i segments => exact index_advances placed.1 segments
  | done result => exact absurd trivial runs

/-- The scanner stops on every text, after at most two turns for each character and one more, with the answer of
the recursive reading. -/
theorem scan_stops (chars : List Char) :
    ∃ steps ≤ 2 * chars.length + 1, (scanStep chars)^[steps] (.outer 0 []) = .done (parseSegments chars) := by
  have begins : (ScanState.outer 0 []).Placed chars ∧
      (ScanState.outer 0 []).answer chars = parseSegments chars := by
    refine ⟨Nat.zero_le _, ?_⟩
    rw [ScanState.answer, List.drop_zero]
    exact congrFun Option.map_id (parseSegments chars)
  have keeps : ∀ state : ScanState,
      (state.Placed chars ∧ state.answer chars = parseSegments chars) → ¬ state.Stopped →
        ((scanStep chars state).Placed chars ∧ (scanStep chars state).answer chars = parseSegments chars) ∧
          (scanStep chars state).rank chars < state.rank chars := by
    intro state ⟨placed, answers⟩ runs
    obtain ⟨stays, nearer, same⟩ := scanStep_advances placed runs
    exact ⟨⟨stays, same.trans answers⟩, nearer⟩
  obtain ⟨steps, few, ends, -, answers⟩ := exists_stopped (ScanState.rank chars) keeps begins
  refine ⟨steps, few, ?_⟩
  cases reached : (scanStep chars)^[steps] (.outer 0 []) with
  | done result =>
      rw [reached] at answers
      exact congrArg ScanState.done answers
  | outer | field | index =>
      rw [reached] at ends
      exact ends.elim

theorem scan_unique {result : Option (List JsonPathSegment)} {steps : Nat}
    (reached : (scanStep chars)^[steps] (.outer 0 []) = .done result) : result = parseSegments chars := by
  obtain ⟨others, -, expected⟩ := scan_stops chars
  have stays : ∀ state, ScanState.Stopped state → scanStep chars state = state := by
    intro state ended
    cases state with
    | done result => rfl
    | outer | field | index => exact ended.elim
  have same := stopped_unique stays (by rw [reached]; exact trivial) (by rw [expected]; exact trivial)
  rw [reached, expected] at same
  exact ScanState.done.inj same

end Progress

section Opening

/-- Before the loop the function answers as the recursive reading does, or leaves it the text behind the `$`;
the slice at the first byte never cuts a character. -/
theorem openJsonPath_cases (path : String) :
    openJsonPath path = .answered (parseJsonPath path) ∨
      ∃ chars, openJsonPath path = .scans chars ∧ parseJsonPath path = parseSegments chars := by
  rw [openJsonPath, parseJsonPath]
  cases trim path.toList with
  | nil => exact .inl rfl
  | cons marker rest =>
      by_cases root : marker = '$'
      · rw [root]
        have behind : sliceFrom 1 ('$' :: rest) = some rest := by cases rest <;> rfl
        simp only [List.head?_cons, ne_eq, not_true_eq_false, and_false, if_false, behind]
        cases rest with
        | nil => exact .inl rfl
        | cons first rest =>
            by_cases opens : first = '.' ∨ first = '['
            · refine .inr ⟨first :: rest, ?_, ?_⟩
              · rcases opens with dot | bracket
                · simp [dot]
                · simp [bracket]
              · rcases opens with dot | bracket
                · simp [dot]
                · simp [bracket]
            · rw [not_or] at opens
              refine .inl ?_
              simp [opens]
      · refine .inl ?_
        simp [root]

/-- The function returns on every text, and its answer is that of the recursive reading. -/
theorem returns_iff (path : String) (result : Option (List JsonPathSegment)) :
    Returns path result ↔ result = parseJsonPath path := by
  rw [Returns]
  rcases openJsonPath_cases path with early | ⟨chars, scans, answer⟩
  · rw [early]
    exact eq_comm
  · rw [scans, answer]
    constructor
    · intro ⟨steps, reached⟩
      exact scan_unique reached
    · intro same
      obtain ⟨steps, -, reached⟩ := scan_stops chars
      exact ⟨steps, same ▸ reached⟩

end Opening

end OnyxDB.Store
