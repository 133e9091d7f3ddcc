import OnyxDB.Engine.Double
import OnyxDB.Library.Decimal

/-! JSON paths: field access and array indices, without wildcards or filters. A mutable reference into a
document is a descent that writes the node back on its way out. -/

namespace OnyxDB.Store
open OnyxDB.Library.Decimal OnyxDB.Engine.Value

inductive JsonPathSegment where
  | field (name : String)
  | index (position : Nat)
  deriving DecidableEq, Repr

/-- `char::is_whitespace`, the property `White_Space`. -/
def isWhitespace (char : Char) : Bool :=
  let code := char.toNat
  decide ((9 ≤ code ∧ code ≤ 13) ∨ code ∈ [0x20, 0x85, 0xA0, 0x1680, 0x2028, 0x2029, 0x202F, 0x205F, 0x3000] ∨
    (0x2000 ≤ code ∧ code ≤ 0x200A))

/-- `str::trim`. -/
def trim (text : List Char) : List Char :=
  ((text.dropWhile isWhitespace).reverse.dropWhile isWhitespace).reverse

/-- The characters of a field name. -/
def inField (char : Char) : Bool := char != '.' && char != '['

/-- The loop over the characters behind `$`. -/
def parseSegments (chars : List Char) : Option (List JsonPathSegment) :=
  match chars with
  | [] => some []
  | '.' :: rest =>
      if (rest.takeWhile inField).isEmpty then none
      else (parseSegments (rest.dropWhile inField)).map
        (fun segments => .field (String.ofList (rest.takeWhile inField)) :: segments)
  | '[' :: rest =>
      if (rest.dropWhile (· != ']')).isEmpty then none
      else
        match parseUnsigned (2 ^ 64) (rest.takeWhile (· != ']')) with
        | none => none
        | some position =>
            (parseSegments (rest.dropWhile (· != ']')).tail).map (fun segments => .index position :: segments)
  | _ => none
termination_by chars.length
decreasing_by
  · simp only [List.length_cons]
    exact Nat.lt_succ_of_le (List.dropWhile_sublist _).length_le
  · simp only [List.length_cons, List.length_tail]
    exact Nat.lt_succ_of_le (le_trans (Nat.sub_le _ _) ((List.dropWhile_sublist _).length_le))

/-- Parses a path such as `$.a.b[2].c`; `$` alone addresses the document. -/
def parseJsonPath (path : String) : Option (List JsonPathSegment) :=
  match trim path.toList with
  | '$' :: rest =>
      match rest with
      | [] => some []
      | first :: _ => if first != '.' && first != '[' then none else parseSegments rest
  | _ => none

/-- The node one segment below a node. -/
def child (segment : JsonPathSegment) (node : Json) : Option Json :=
  match segment, node with
  | .field name, .object fields => fields.lookup name
  | .index position, .array items => items[position]?
  | _, _ => none

def getJsonPath (root : Json) (segments : List JsonPathSegment) : Option Json :=
  segments.foldlM (fun node segment => child segment node) root

/-- `BTreeMap::insert`. -/
def insertField (name : String) (value : Json) : List (String × Json) → List (String × Json)
  | [] => [(name, value)]
  | (other, item) :: rest =>
      if other = name then (other, value) :: rest
      else if name < other then (name, value) :: (other, item) :: rest
      else (other, item) :: insertField name value rest

/-- Writes a node back to where `child` found it. -/
def putChild (segment : JsonPathSegment) (node value : Json) : Json :=
  match segment, node with
  | .field name, .object fields => .object (insertField name value fields)
  | .index position, .array items => .array (items.set position value)
  | _, node => node

/-- Runs `mutate` on the node that `segments` address, or answers `missing`. -/
def atJsonPath {α : Type} (missing : α) (mutate : Json → α × Json) : List JsonPathSegment → Json → α × Json
  | [], node => mutate node
  | segment :: rest, node =>
      match child segment node with
      | none => (missing, node)
      | some inner =>
          let (result, inner) := atJsonPath missing mutate rest inner
          (result, putChild segment node inner)

/-- The assignment at the last segment. It may create the field, or append at the array's length. -/
def assignChild (last : JsonPathSegment) (newValue node : Json) : Bool × Json :=
  match last, node with
  | .field name, .object fields => (true, .object (insertField name newValue fields))
  | .index position, .array items =>
      if position < items.length then (true, .array (items.set position newValue))
      else if position = items.length then (true, .array (items ++ [newValue]))
      else (false, .array items)
  | _, node => (false, node)

def setJsonPath (root : Json) (segments : List JsonPathSegment) (newValue : Json) : Bool × Json :=
  match segments.getLast? with
  | none => (true, newValue)
  | some last => atJsonPath false (assignChild last newValue) segments.dropLast root

/-- The removal at the last segment. -/
def removeChild (last : JsonPathSegment) (node : Json) : Bool × Json :=
  match last, node with
  | .field name, .object fields =>
      ((fields.lookup name).isSome, .object (fields.filter (fun field => field.1 != name)))
  | .index position, .array items =>
      if position < items.length then (true, .array (items.eraseIdx position)) else (false, .array items)
  | _, node => (false, node)

def deleteJsonPath (root : Json) (segments : List JsonPathSegment) : Bool × Json :=
  match segments.getLast? with
  | none => (false, root)
  | some last => atJsonPath false (removeChild last) segments.dropLast root

def pathNotFound : String := "ERR path JSON not found"

/-- Adds to a number; whole results in range become integers again. -/
def increaseNumber (delta : F64) (node : Json) : Except String F64 × Json :=
  match node with
  | .number current =>
      let newValue := current.asF64.add delta
      if newValue.isSmallInteger then (.ok newValue, .number (.ofInt64 newValue.toInt64))
      else
        match JsonNumber.fromF64 newValue with
        | some number => (.ok newValue, .number number)
        | none => (.error "ERR invalid numeric result (NaN or infinity)", node)
  | _ => (.error "WRONGTYPE the value at the path is not a number", node)

def numincrbyJsonPath (root : Json) (segments : List JsonPathSegment) (delta : F64) : Except String F64 × Json :=
  atJsonPath (.error pathNotFound) (increaseNumber delta) segments root

def appendItem (newValue node : Json) : Except String Nat × Json :=
  match node with
  | .array items => (.ok (items.length + 1), .array (items ++ [newValue]))
  | _ => (.error "WRONGTYPE the value at the path is not an array", node)

def arrappendJsonPath (root : Json) (segments : List JsonPathSegment) (newValue : Json) :
    Except String Nat × Json :=
  atJsonPath (.error pathNotFound) (appendItem newValue) segments root

end OnyxDB.Store
