import OnyxDB.Store.JsonPathLaws

/-! How deep the edits of a document nest it: a value that is put at a path ends up below as many levels as the path
has segments, and nothing else goes deeper than it was. -/

namespace OnyxDB.Store
open OnyxDB.Library.Descent OnyxDB.Engine OnyxDB.Engine.Value

section Levels

theorem depthItems_le_iff {items : List Json} {limit : Nat} :
    Json.depthItems items ≤ limit ↔ ∀ item ∈ items, item.depth ≤ limit := by
  induction items with
  | nil => simp [Json.depthItems]
  | cons item items rest => rw [Json.depthItems, Nat.max_le, rest, List.forall_mem_cons]

theorem depthFields_le_iff {fields : List (String × Json)} {limit : Nat} :
    Json.depthFields fields ≤ limit ↔ ∀ field ∈ fields, field.2.depth ≤ limit := by
  induction fields with
  | nil => simp [Json.depthFields]
  | cons field fields rest =>
      obtain ⟨name, item⟩ := field
      rw [Json.depthFields, Nat.max_le, rest, List.forall_mem_cons]

theorem depth_array_le_iff {items : List Json} {limit : Nat} :
    (Json.array items).depth ≤ limit + 1 ↔ ∀ item ∈ items, item.depth ≤ limit := by
  rw [Json.depth, Nat.add_le_add_iff_right, depthItems_le_iff]

theorem depth_object_le_iff {fields : List (String × Json)} {limit : Nat} :
    (Json.object fields).depth ≤ limit + 1 ↔ ∀ field ∈ fields, field.2.depth ≤ limit := by
  rw [Json.depth, Nat.add_le_add_iff_right, depthFields_le_iff]

/-- A node is nested less deep than the one above it. -/
theorem child_depth {segment : JsonPathSegment} {node old : Json} (found : child segment node = some old) :
    old.depth + 1 ≤ node.depth := by
  rcases child_cases found with ⟨name, fields, rfl, rfl, held⟩ | ⟨position, items, rfl, rfl, held⟩
  · have below := (@depth_object_le_iff fields (Json.depthFields fields)).mp le_rfl
    exact Nat.add_le_add_right (below _ (mem_of_lookup held)) 1
  · have below := (@depth_array_le_iff items (Json.depthItems items)).mp le_rfl
    exact Nat.add_le_add_right (below _ (List.mem_of_getElem? held)) 1

theorem depth_insertField {name : String} {value : Json} {fields : List (String × Json)} {limit : Nat}
    (within : ∀ field ∈ fields, field.2.depth ≤ limit) (shallow : value.depth ≤ limit) :
    (Json.object (insertField name value fields)).depth ≤ limit + 1 := by
  rw [depth_object_le_iff]
  intro field member
  rcases mem_insertField member with rfl | old
  · exact shallow
  · exact within field old

theorem depth_set {items : List Json} {position : Nat} {value : Json} {limit : Nat}
    (within : ∀ item ∈ items, item.depth ≤ limit) (shallow : value.depth ≤ limit) :
    (Json.array (items.set position value)).depth ≤ limit + 1 := by
  rw [depth_array_le_iff]
  intro item member
  rcases List.mem_or_eq_of_mem_set member with old | rfl
  · exact within item old
  · exact shallow

theorem depth_append {items : List Json} {value : Json} {limit : Nat}
    (within : ∀ item ∈ items, item.depth ≤ limit) (shallow : value.depth ≤ limit) :
    (Json.array (items ++ [value])).depth ≤ limit + 1 := by
  rw [depth_array_le_iff]
  intro item member
  rcases List.mem_append.mp member with old | new
  · exact within item old
  · rw [List.mem_singleton.mp new]
    exact shallow

theorem putChild_depth {segment : JsonPathSegment} {node value : Json} {limit : Nat}
    (within : node.depth ≤ limit + 1) (shallow : value.depth ≤ limit) :
    (putChild segment node value).depth ≤ limit + 1 := by
  unfold putChild
  split
  · exact depth_insertField (depth_object_le_iff.mp within) shallow
  · exact depth_set (depth_array_le_iff.mp within) shallow
  · exact within

end Levels

section Edits

/-- An edit of the node at a path nests a document no deeper than it nests that node, below the path. -/
theorem atJsonPath_depth {α : Type} {missing : α} {mutate : Json → α × Json} {path : List JsonPathSegment}
    {root : Json} {limit : Nat} (within : root.depth ≤ limit)
    (mutates : ∀ node, node.depth + path.length ≤ limit → (mutate node).2.depth + path.length ≤ limit) :
    (atJsonPath missing mutate path root).2.depth ≤ limit := by
  induction path generalizing root limit with
  | nil => exact mutates root within
  | cons segment rest further =>
      rw [atJsonPath]
      cases found : child segment root with
      | none => exact within
      | some inner =>
          have below := child_depth found
          obtain ⟨limit, rfl⟩ : ∃ less, limit = less + 1 := ⟨limit - 1, by omega⟩
          apply putChild_depth within
          apply further (by omega)
          intro node fits
          have edited := mutates node (by rw [List.length_cons]; omega)
          rw [List.length_cons] at edited
          omega

/-- An assignment below a container, if there is room for one. -/
theorem assignChild_depth {last : JsonPathSegment} {newValue node : Json} {limit : Nat} (within : node.depth ≤ limit)
    (room : 0 < limit → newValue.depth < limit) : (assignChild last newValue node).2.depth ≤ limit := by
  unfold assignChild
  split
  next name fields =>
    obtain ⟨limit, rfl⟩ : ∃ less, limit = less + 1 := ⟨limit - 1, by rw [Json.depth] at within; omega⟩
    exact depth_insertField (depth_object_le_iff.mp within) (Nat.le_of_lt_succ (room (Nat.succ_pos _)))
  next position items =>
    obtain ⟨limit, rfl⟩ : ∃ less, limit = less + 1 := ⟨limit - 1, by rw [Json.depth] at within; omega⟩
    have shallow := Nat.le_of_lt_succ (room (Nat.succ_pos _))
    have below := depth_array_le_iff.mp within
    split
    · exact depth_set below shallow
    · split
      · exact depth_append below shallow
      · exact within
  next => exact within

theorem appendItem_depth {newValue node : Json} {limit : Nat} (within : node.depth ≤ limit)
    (room : 0 < limit → newValue.depth < limit) : (appendItem newValue node).2.depth ≤ limit := by
  unfold appendItem
  split
  next items =>
    obtain ⟨limit, rfl⟩ : ∃ less, limit = less + 1 := ⟨limit - 1, by rw [Json.depth] at within; omega⟩
    exact depth_append (depth_array_le_iff.mp within) (Nat.le_of_lt_succ (room (Nat.succ_pos _)))
  next => exact within

theorem removeChild_depth {last : JsonPathSegment} {node : Json} {limit : Nat} (within : node.depth ≤ limit) :
    (removeChild last node).2.depth ≤ limit := by
  unfold removeChild
  split
  next name fields =>
    obtain ⟨limit, rfl⟩ : ∃ less, limit = less + 1 := ⟨limit - 1, by rw [Json.depth] at within; omega⟩
    rw [depth_object_le_iff] at within ⊢
    exact fun field member => within field (List.mem_of_mem_filter member)
  next position items =>
    split
    · obtain ⟨limit, rfl⟩ : ∃ less, limit = less + 1 := ⟨limit - 1, by rw [Json.depth] at within; omega⟩
      rw [depth_array_le_iff] at within ⊢
      exact fun item member => within item (List.mem_of_mem_eraseIdx member)
    · exact within
  next => exact within

theorem increaseNumber_depth (delta : F64) (node : Json) : (increaseNumber delta node).2.depth ≤ node.depth := by
  unfold increaseNumber
  split
  · dsimp only
    split
    · exact le_rfl
    · split <;> exact le_rfl
  · exact le_rfl

variable {root newValue : Json} {path : List JsonPathSegment} {limit : Nat}

theorem setJsonPath_depth (within : root.depth ≤ limit)
    (room : path.length ≤ limit → path.length + newValue.depth ≤ limit) :
    (setJsonPath root path newValue).2.depth ≤ limit := by
  rcases List.eq_nil_or_concat path with rfl | ⟨parent, last, rfl⟩
  · have shallow := room (Nat.zero_le _)
    rw [List.length_nil, Nat.zero_add] at shallow
    exact shallow
  · rw [List.concat_eq_append] at room ⊢
    rw [List.length_append, List.length_singleton] at room
    rw [setJsonPath_concat, ← atJsonPath_eq]
    apply atJsonPath_depth within
    intro node fits
    have assigned := @assignChild_depth last newValue node (limit - parent.length) (by omega) (by omega)
    omega

theorem deleteJsonPath_depth (within : root.depth ≤ limit) : (deleteJsonPath root path).2.depth ≤ limit := by
  rcases List.eq_nil_or_concat path with rfl | ⟨parent, last, rfl⟩
  · exact within
  · rw [List.concat_eq_append, deleteJsonPath_concat, ← atJsonPath_eq]
    apply atJsonPath_depth within
    intro node fits
    exact Nat.le_trans (Nat.add_le_add_right (removeChild_depth le_rfl) _) fits

theorem numincrbyJsonPath_depth {delta : F64} (within : root.depth ≤ limit) :
    (numincrbyJsonPath root path delta).2.depth ≤ limit := by
  apply atJsonPath_depth within
  intro node fits
  exact Nat.le_trans (Nat.add_le_add_right (increaseNumber_depth delta node) _) fits

theorem arrappendJsonPath_depth (within : root.depth ≤ limit)
    (room : path.length < limit → path.length + newValue.depth < limit) :
    (arrappendJsonPath root path newValue).2.depth ≤ limit := by
  apply atJsonPath_depth within
  intro node fits
  have appended := @appendItem_depth newValue node (limit - path.length) (by omega) (by omega)
  omega

end Edits

section Scaffolds

/-- A document with a node at a path and little else. -/
def scaffold (node : Json) : List JsonPathSegment → Json
  | [] => node
  | .field name :: rest => .object [(name, scaffold node rest)]
  | .index position :: rest => .array (List.replicate position .null ++ [scaffold node rest])

theorem depthItems_padded (position : Nat) (item : Json) :
    Json.depthItems (List.replicate position .null ++ [item]) = item.depth := by
  induction position with
  | zero => rw [List.replicate_zero, List.nil_append, Json.depthItems, Json.depthItems, Nat.max_zero]
  | succ position rest =>
      have flat : Json.null.depth = 0 := rfl
      rw [List.replicate_succ, List.cons_append, Json.depthItems, rest, flat, Nat.zero_max]

theorem scaffold_depth (node : Json) (path : List JsonPathSegment) :
    (scaffold node path).depth = path.length + node.depth := by
  induction path with
  | nil => rw [scaffold, List.length_nil, Nat.zero_add]
  | cons segment path rest =>
      cases segment with
      | field name =>
          rw [scaffold, Json.depth, Json.depthFields, Json.depthFields, Nat.max_zero, rest, List.length_cons]
          omega
      | index position =>
          rw [scaffold, Json.depth, depthItems_padded, rest, List.length_cons]
          omega

/-- An edit at the path edits the node. -/
theorem atJsonPath_scaffold {α : Type} (missing : α) (mutate : Json → α × Json) (node : Json)
    (path : List JsonPathSegment) :
    atJsonPath missing mutate path (scaffold node path) = ((mutate node).1, scaffold (mutate node).2 path) := by
  induction path with
  | nil => rfl
  | cons segment path rest =>
      cases segment with
      | field name => simp [atJsonPath, scaffold, child, putChild, insertField, rest]
      | index position => simp [atJsonPath, scaffold, child, putChild, rest]

variable (newValue : Json) (path : List JsonPathSegment)

/-- For every path there is a document that an assignment nests as deep as it can. -/
theorem setJsonPath_deepest :
    ∃ root : Json, root.depth ≤ path.length ∧ (setJsonPath root path newValue).2.depth = path.length + newValue.depth := by
  rcases List.eq_nil_or_concat path with rfl | ⟨parent, last, rfl⟩
  · exact ⟨.null, le_rfl, (Nat.zero_add _).symm⟩
  · obtain ⟨node, flat, assigned⟩ : ∃ node : Json, node.depth ≤ 1 ∧
        (assignChild last newValue node).2.depth = newValue.depth + 1 := by
      cases last with
      | field name =>
          refine ⟨.object [], le_rfl, ?_⟩
          simp [assignChild, insertField, Json.depth, Json.depthFields]
      | index position =>
          refine ⟨.array (List.replicate position .null), ?_, ?_⟩
          · rw [depth_array_le_iff]
            intro item member
            rw [List.eq_of_mem_replicate member]
            exact le_rfl
          · simp [assignChild, Json.depth, depthItems_padded]
    refine ⟨scaffold node parent, ?_, ?_⟩
    · rw [scaffold_depth, List.concat_eq_append, List.length_append, List.length_singleton]
      omega
    · rw [List.concat_eq_append, setJsonPath_concat, ← atJsonPath_eq, atJsonPath_scaffold, scaffold_depth, assigned,
        List.length_append, List.length_singleton]
      omega

theorem arrappendJsonPath_deepest :
    ∃ root : Json, root.depth = path.length + 1 ∧
      (arrappendJsonPath root path newValue).2.depth = path.length + 1 + newValue.depth := by
  refine ⟨scaffold (.array []) path, scaffold_depth _ path, ?_⟩
  have appended : (appendItem newValue (.array [])).2.depth = newValue.depth + 1 := depthItems_padded 0 newValue ▸ rfl
  rw [arrappendJsonPath, atJsonPath_scaffold, scaffold_depth, appended]
  omega

end Scaffolds

end OnyxDB.Store
