import Mathlib.Data.List.TakeWhile
import OnyxDB.Store.JsonPathScan

/-! The grammar of JSON paths: `$` and then fields `.name` and indices `[position]`, and the printer that the
scanner inverts. -/

namespace OnyxDB.Store
open OnyxDB.Library.Decimal

section Grammar

/-- The written forms of a segment. -/
inductive SegmentText : JsonPathSegment → List Char → Prop where
  | field {name : List Char} (nonempty : name ≠ []) (plain : ∀ char ∈ name, char ≠ '.' ∧ char ≠ '[') :
      SegmentText (.field (String.ofList name)) ('.' :: name)
  | index {digits : List Char} {position : Nat} (unclosed : ']' ∉ digits)
      (number : parseUnsigned (2 ^ 64) digits = some position) :
      SegmentText (.index position) ('[' :: digits ++ [']'])

/-- The written forms of what follows the `$`. -/
inductive PathText : List JsonPathSegment → List Char → Prop where
  | root : PathText [] []
  | next {segment : JsonPathSegment} {segments : List JsonPathSegment} {text rest : List Char}
      (first : SegmentText segment text) (later : PathText segments rest) :
      PathText (segment :: segments) (text ++ rest)

/-- A field name ends where the text of the other segments begins. -/
theorem PathText.outside_field {segments : List JsonPathSegment} {text : List Char}
    (written : PathText segments text) : text.takeWhile inField = [] ∧ text.dropWhile inField = text := by
  cases written with
  | root => exact ⟨rfl, rfl⟩
  | next first later =>
      cases first with
      | field nonempty plain =>
          exact ⟨List.takeWhile_cons_of_neg (by decide), List.dropWhile_cons_of_neg (by decide)⟩
      | index unclosed number =>
          exact ⟨List.takeWhile_cons_of_neg (by decide), List.dropWhile_cons_of_neg (by decide)⟩

theorem parseSegments_field {name rest : List Char} {segments : List JsonPathSegment} (nonempty : name ≠ [])
    (plain : ∀ char ∈ name, char ≠ '.' ∧ char ≠ '[') (written : PathText segments rest)
    (parsed : parseSegments rest = some segments) :
    parseSegments ('.' :: (name ++ rest)) = some (.field (String.ofList name) :: segments) := by
  have inside : ∀ char ∈ name, inField char = true := fun char member => inField_iff.mpr (plain char member)
  obtain ⟨ends, stays⟩ := written.outside_field
  have taken : (name ++ rest).takeWhile inField = name := by
    rw [List.takeWhile_append_of_pos inside, ends, List.append_nil]
  have left : (name ++ rest).dropWhile inField = rest := by
    rw [List.dropWhile_append_of_pos inside, stays]
  rw [parseSegments, taken, left, parsed, if_neg (by rw [List.isEmpty_iff]; exact nonempty), Option.map_some]

theorem parseSegments_index {digits rest : List Char} {position : Nat} {segments : List JsonPathSegment}
    (unclosed : ']' ∉ digits) (number : parseUnsigned (2 ^ 64) digits = some position)
    (parsed : parseSegments rest = some segments) :
    parseSegments ('[' :: (digits ++ ']' :: rest)) = some (.index position :: segments) := by
  have inside : ∀ char ∈ digits, (char != ']') = true :=
    fun char member => bne_iff_ne.mpr (fun same => unclosed (same ▸ member))
  have taken : (digits ++ ']' :: rest).takeWhile (· != ']') = digits := by
    rw [List.takeWhile_append_of_pos inside, List.takeWhile_cons_of_neg (by decide), List.append_nil]
  have left : (digits ++ ']' :: rest).dropWhile (· != ']') = ']' :: rest := by
    rw [List.dropWhile_append_of_pos inside, List.dropWhile_cons_of_neg (by decide)]
  rw [parseSegments, taken, left, if_neg (by simp)]
  simp only [number, List.tail_cons, parsed, Option.map_some]

/-- What is written is read. -/
theorem PathText.parses {segments : List JsonPathSegment} {text : List Char} (written : PathText segments text) :
    parseSegments text = some segments := by
  induction written with
  | root => rw [parseSegments]
  | next first later parsed =>
      cases first with
      | field nonempty plain => exact parseSegments_field nonempty plain later parsed
      | index unclosed number =>
          rw [List.append_assoc, List.cons_append]
          exact parseSegments_index unclosed number parsed

/-- A closed index: its text, the bracket and what follows. -/
theorem closed_index {rest : List Char} (closed : ¬ (rest.dropWhile (· != ']')).isEmpty = true) :
    rest.takeWhile (· != ']') ++ ']' :: (rest.dropWhile (· != ']')).tail = rest := by
  have some : rest.dropWhile (· != ']') ≠ [] := fun none => closed (List.isEmpty_iff.mpr none)
  have bracket : (rest.dropWhile (· != ']')).head some = ']' := by
    have stops := List.head_dropWhile_not (· != ']') some
    exact bne_eq_false_iff_eq.mp stops
  calc rest.takeWhile (· != ']') ++ ']' :: (rest.dropWhile (· != ']')).tail
      = rest.takeWhile (· != ']') ++ (rest.dropWhile (· != ']')).head some :: (rest.dropWhile (· != ']')).tail := by
        rw [bracket]
    _ = rest := by rw [List.cons_head_tail, List.takeWhile_append_dropWhile]

/-- What is read was written. -/
theorem pathText_of_parses (chars : List Char) :
    ∀ segments, parseSegments chars = some segments → PathText segments chars := by
  induction chars using parseSegments.induct with
  | case1 =>
      intro segments parsed
      rw [parseSegments] at parsed
      exact Option.some.inj parsed ▸ .root
  | case2 rest empty =>
      intro segments parsed
      rw [parseSegments, if_pos empty] at parsed
      cases parsed
  | case3 rest named further =>
      intro segments parsed
      rw [parseSegments, if_neg named] at parsed
      obtain ⟨later, read, rfl⟩ := Option.map_eq_some_iff.mp parsed
      have whole := PathText.next
        (.field (fun empty => named (List.isEmpty_iff.mpr empty))
          (fun char member => inField_iff.mp (List.mem_takeWhile_imp member))) (further later read)
      rw [List.cons_append, List.takeWhile_append_dropWhile] at whole
      exact whole
  | case4 rest unclosed =>
      intro segments parsed
      rw [parseSegments, if_pos unclosed] at parsed
      cases parsed
  | case5 rest closed number =>
      intro segments parsed
      rw [parseSegments, if_neg closed, number] at parsed
      cases parsed
  | case6 rest closed position number further =>
      intro segments parsed
      rw [parseSegments, if_neg closed, number] at parsed
      obtain ⟨later, read, rfl⟩ := Option.map_eq_some_iff.mp parsed
      have unclosed : ']' ∉ rest.takeWhile (· != ']') :=
        fun member => absurd (List.mem_takeWhile_imp member) (by decide)
      have whole := PathText.next (.index unclosed number) (further later read)
      rw [List.append_assoc, List.cons_append, List.singleton_append, closed_index closed] at whole
      exact whole
  | case7 chars nonempty dot bracket =>
      intro segments parsed
      cases chars with
      | nil => exact (nonempty rfl).elim
      | cons char rest =>
          rw [parseSegments_other (fun same => dot rest (same ▸ rfl)) (fun same => bracket rest (same ▸ rfl))] at parsed
          cases parsed

theorem parseSegments_iff (chars : List Char) (segments : List JsonPathSegment) :
    parseSegments chars = some segments ↔ PathText segments chars :=
  ⟨pathText_of_parses chars segments, PathText.parses⟩

theorem PathText.begins {segments : List JsonPathSegment} {first : Char} {rest : List Char}
    (written : PathText segments (first :: rest)) : first = '.' ∨ first = '[' := by
  have outside : ¬ inField first = true := by
    intro inside
    have ends := written.outside_field.1
    rw [List.takeWhile_cons_of_pos inside] at ends
    cases ends
  rw [inField_iff, not_and_or, not_not, not_not] at outside
  exact outside

/-- The function accepts the `$` with the written forms behind it, and nothing else. -/
theorem parseJsonPath_iff (path : String) (segments : List JsonPathSegment) :
    parseJsonPath path = some segments ↔
      ∃ text, trim path.toList = '$' :: text ∧ PathText segments text := by
  rw [parseJsonPath]
  constructor
  · intro parsed
    split at parsed
    next rest trimmed =>
      refine ⟨rest, trimmed, ?_⟩
      split at parsed
      · exact Option.some.inj parsed ▸ .root
      · split at parsed
        · cases parsed
        · exact (parseSegments_iff _ _).mp parsed
    next => cases parsed
  · rintro ⟨text, trimmed, written⟩
    rw [trimmed]
    cases text with
    | nil =>
        have read := written.parses
        rw [parseSegments] at read
        exact read
    | cons first rest =>
        have opens : ¬ (first != '.' && first != '[') = true :=
          fun other => (inField_iff.mp other).elim (fun dot bracket => written.begins.elim dot bracket)
        simp only [if_neg opens]
        exact written.parses

end Grammar

section Printing

def printSegment : JsonPathSegment → List Char
  | .field name => '.' :: name.toList
  | .index position => '[' :: Nat.toDigits 10 position ++ [']']

def printSegments (segments : List JsonPathSegment) : List Char := segments.flatMap printSegment

def printJsonPath (segments : List JsonPathSegment) : String := String.ofList ('$' :: printSegments segments)

/-- Segments that have a written form: their fields are not empty and without `.` and `[`, their positions are of
the machine, and a field that comes last does not end in whitespace. -/
structure Printable (segments : List JsonPathSegment) : Prop where
  fields : ∀ name, .field name ∈ segments → name.toList ≠ [] ∧ ∀ char ∈ name.toList, char ≠ '.' ∧ char ≠ '['
  positions : ∀ position, .index position ∈ segments → position < 2 ^ 64
  ending : ∀ name, segments.getLast? = some (.field name) → ∀ char ∈ name.toList.getLast?, isWhitespace char = false

theorem printSegment_text {segments : List JsonPathSegment} (printable : Printable segments)
    {segment : JsonPathSegment} (member : segment ∈ segments) : SegmentText segment (printSegment segment) := by
  cases segment with
  | field name =>
      obtain ⟨nonempty, plain⟩ := printable.fields name member
      have written := SegmentText.field nonempty plain
      rw [String.ofList_toList] at written
      exact written
  | index position =>
      refine .index ?_ (parseUnsigned_toDigits (printable.positions position member))
      intro bracket
      exact absurd (Nat.isDigit_of_mem_toDigits (by decide) (by decide) bracket) (by decide)

theorem pathText_print {segments : List JsonPathSegment}
    (written : ∀ segment ∈ segments, SegmentText segment (printSegment segment)) :
    PathText segments (printSegments segments) := by
  induction segments with
  | nil => exact .root
  | cons segment rest further =>
      rw [printSegments, List.flatMap_cons]
      exact .next (written segment List.mem_cons_self)
        (further (fun later member => written later (List.mem_cons_of_mem segment member)))

theorem trim_of_ends {first : Char} {rest : List Char} (head : isWhitespace first = false)
    (last : ∀ char ∈ (first :: rest).getLast?, isWhitespace char = false) : trim (first :: rest) = first :: rest := by
  have kept : (first :: rest).reverse.dropWhile isWhitespace = (first :: rest).reverse := by
    cases reversed : (first :: rest).reverse with
    | nil => rfl
    | cons char others =>
        refine List.dropWhile_cons_of_neg ?_
        rw [Bool.not_eq_true]
        apply last
        rw [← List.head?_reverse, reversed]
        rfl
  rw [trim, List.dropWhile_cons_of_neg (by rw [head]; exact Bool.false_ne_true), kept, List.reverse_reverse]

/-- What is printed ends in the `$`, in the last character of a field or in the bracket of an index. -/
theorem print_ending {segments : List JsonPathSegment} (printable : Printable segments) :
    ∀ char ∈ ('$' :: printSegments segments).getLast?, isWhitespace char = false := by
  intro char member
  rcases List.eq_nil_or_concat segments with rfl | ⟨before, last, rfl⟩
  · have dollar : char = '$' := (Option.mem_some_iff.mp member).symm
    rw [dollar]
    decide
  · rw [List.concat_eq_append] at printable member
    have split : '$' :: printSegments (before ++ [last]) = ('$' :: printSegments before) ++ printSegment last := by
      rw [printSegments, List.flatMap_append, List.flatMap_singleton, List.cons_append, printSegments]
    rw [split] at member
    cases last with
    | field name =>
        have nonempty := (printable.fields name (List.mem_append_right before List.mem_cons_self)).1
        rw [printSegment, List.getLast?_append_cons, List.getLast?_cons_of_ne_nil nonempty] at member
        exact printable.ending name List.getLast?_concat char member
    | index position =>
        rw [printSegment, ← List.append_assoc, List.getLast?_concat] at member
        have bracket : char = ']' := (Option.mem_some_iff.mp member).symm
        rw [bracket]
        decide

/-- What is printed is accepted, and the segments come back. -/
theorem parseJsonPath_print {segments : List JsonPathSegment} (printable : Printable segments) :
    parseJsonPath (printJsonPath segments) = some segments := by
  have written := pathText_print (fun segment member => printSegment_text printable member)
  refine (parseJsonPath_iff _ _).mpr ⟨printSegments segments, ?_, written⟩
  rw [printJsonPath, String.toList_ofList]
  exact trim_of_ends (by decide) (print_ending printable)

/-- The scanner of JSON paths returns on every text, once; what it accepts is the `$` with the written forms of
the segments it returns; and it inverts the printer. -/
theorem parse_json_path_grammar :
    (∀ path, ∃ result, ∀ other, Returns path other ↔ other = result) ∧
      (∀ path segments, Returns path (some segments) ↔
        ∃ text, trim path.toList = '$' :: text ∧ PathText segments text) ∧
      ∀ segments, Printable segments → Returns (printJsonPath segments) (some segments) := by
  refine ⟨?_, ?_, ?_⟩
  · intro path
    exact ⟨parseJsonPath path, returns_iff path⟩
  · intro path segments
    rw [returns_iff, eq_comm]
    exact parseJsonPath_iff path segments
  · intro segments printable
    rw [returns_iff]
    exact (parseJsonPath_print printable).symm

theorem parse_json_path_mixed :
    printJsonPath [.field "a", .index 12, .field "b c"] = "$.a[12].b c" ∧
      Returns (printJsonPath [.field "a", .index 12, .field "b c"]) (some [.field "a", .index 12, .field "b c"]) := by
  refine ⟨by decide, parse_json_path_grammar.2.2 _ ⟨?_, ?_, ?_⟩⟩
  · intro name member
    have named : name = "a" ∨ name = "b c" := by simpa using member
    rcases named with rfl | rfl <;> simp
  · intro position member
    have placed : position = 12 := by simpa using member
    omega
  · intro name last char member
    have named : "b c" = name := JsonPathSegment.field.inj (Option.some.inj last)
    rw [← named] at member
    have letter : 'c' = char := Option.some.inj member
    rw [← letter]
    decide

end Printing

end OnyxDB.Store
