import OnyxDB.Library.Descent
import OnyxDB.Store.JsonPath

/-! Laws of the edits of JSON documents. `child` and `putChild` are a lawful tree on documents whose objects are
finite maps, so every edit is an edit at one path of that tree. -/

namespace OnyxDB.Store
open OnyxDB.Library OnyxDB.Library.Descent OnyxDB.Engine.Value

section Fields

theorem lookup_insertField (name : String) (value : Json) (fields : List (String × Json)) :
    (insertField name value fields).lookup name = some value := by
  induction fields with
  | nil => exact List.lookup_cons_self
  | cons field rest further =>
      rw [insertField]
      split
      next same => rw [same, List.lookup_cons_self]
      next differs =>
        split
        · exact List.lookup_cons_self
        · rw [List.lookup_cons, beq_false_of_ne (Ne.symm differs)]
          exact further

theorem lookup_insertField_of_ne {name turn : String} (value : Json) (fields : List (String × Json))
    (parts : turn ≠ name) : (insertField name value fields).lookup turn = fields.lookup turn := by
  induction fields with
  | nil => rw [insertField, List.lookup_cons, beq_false_of_ne parts]
  | cons field rest further =>
      rw [insertField]
      split
      next same => rw [List.lookup_cons, List.lookup_cons, same, beq_false_of_ne parts]
      next =>
        split
        · rw [List.lookup_cons, beq_false_of_ne parts]
        · rw [List.lookup_cons, further, List.lookup_cons]

theorem mem_of_lookup {name : String} {value : Json} {fields : List (String × Json)}
    (found : fields.lookup name = some value) : (name, value) ∈ fields := by
  obtain ⟨before, after, shape, -⟩ := List.lookup_eq_some_iff.mp found
  rw [shape]
  exact List.mem_append_right before (List.mem_cons_self)

/-- In a finite map, inserting what is there changes nothing. -/
theorem insertField_same {name : String} {value : Json} {fields : List (String × Json)}
    (ordered : (fields.map Prod.fst).Pairwise (fun first second => first < second))
    (found : fields.lookup name = some value) : insertField name value fields = fields := by
  induction fields with
  | nil => exact absurd found.symm (Option.some_ne_none value)
  | cons field rest further =>
      rw [List.map_cons, List.pairwise_cons] at ordered
      rw [insertField]
      by_cases same : field.1 = name
      · rw [← same, List.lookup_cons_self, Option.some.injEq] at found
        rw [if_pos same, ← found]
      · rw [List.lookup_cons, beq_false_of_ne (Ne.symm same)] at found
        have later : field.1 < name := ordered.1 name (List.mem_map_of_mem (mem_of_lookup found))
        rw [if_neg same, if_neg (String.lt_asymm later), further ordered.2 found]

theorem mem_insertField {name : String} {value : Json} {fields : List (String × Json)} {field : String × Json}
    (member : field ∈ insertField name value fields) : field = (name, value) ∨ field ∈ fields := by
  induction fields with
  | nil => exact Or.inl (List.mem_singleton.mp member)
  | cons first rest further =>
      rw [insertField] at member
      split at member
      next same =>
        rcases List.mem_cons.mp member with rfl | later
        · exact Or.inl (by rw [same])
        · exact Or.inr (List.mem_cons_of_mem first later)
      next =>
        split at member
        · exact List.mem_cons.mp member
        · rcases List.mem_cons.mp member with rfl | later
          · exact Or.inr List.mem_cons_self
          · exact (further later).imp_right (List.mem_cons_of_mem first)

theorem insertField_ordered {name : String} {value : Json} {fields : List (String × Json)}
    (ordered : (fields.map Prod.fst).Pairwise (fun first second => first < second)) :
    ((insertField name value fields).map Prod.fst).Pairwise (fun first second => first < second) := by
  induction fields with
  | nil => exact List.pairwise_singleton _ _
  | cons field rest further =>
      have whole := ordered
      rw [List.map_cons, List.pairwise_cons] at ordered
      rw [insertField]
      split
      next => exact whole
      next differs =>
        split
        next before =>
          rw [List.map_cons, List.pairwise_cons]
          refine ⟨?_, whole⟩
          intro other member
          rcases List.mem_cons.mp member with rfl | later
          · exact before
          · exact String.lt_trans before (ordered.1 other later)
        next notBefore =>
          rw [List.map_cons, List.pairwise_cons]
          refine ⟨?_, further ordered.2⟩
          intro other member
          obtain ⟨entry, present, rfl⟩ := List.mem_map.mp member
          rcases mem_insertField present with rfl | old
          · by_contra notAfter
            exact differs (String.le_antisymm (String.not_lt.mp notBefore) (String.not_lt.mp notAfter))
          · exact ordered.1 entry.1 (List.mem_map_of_mem old)

theorem orderedFields_iff (fields : List (String × Json)) :
    Json.OrderedFields fields ↔ ∀ field ∈ fields, field.2.Ordered := by
  induction fields with
  | nil => simp [Json.OrderedFields]
  | cons field rest further => rw [Json.OrderedFields, further, List.forall_mem_cons]

theorem orderedItems_iff (items : List Json) : Json.OrderedItems items ↔ ∀ item ∈ items, item.Ordered := by
  induction items with
  | nil => simp [Json.OrderedItems]
  | cons item rest further => rw [Json.OrderedItems, further, List.forall_mem_cons]

theorem ordered_array_iff (items : List Json) : (Json.array items).Ordered ↔ ∀ item ∈ items, item.Ordered := by
  rw [Json.Ordered, orderedItems_iff]

theorem ordered_object_iff (fields : List (String × Json)) :
    (Json.object fields).Ordered ↔
      (fields.map Prod.fst).Pairwise (fun first second => first < second) ∧
        ∀ field ∈ fields, field.2.Ordered := by
  rw [Json.Ordered, orderedFields_iff]

end Fields

section Documents

/-- Documents, entered by the segments of a path. -/
def documentTree : Tree JsonPathSegment Json := ⟨child, putChild⟩

theorem getJsonPath_eq (root : Json) (path : List JsonPathSegment) :
    getJsonPath root path = documentTree.find root path := rfl

theorem atJsonPath_eq {α : Type} (missing : α) (mutate : Json → α × Json) (path : List JsonPathSegment)
    (root : Json) : atJsonPath missing mutate path root = documentTree.edit missing mutate path root := by
  induction path generalizing root with
  | nil => rfl
  | cons segment rest further =>
      rw [atJsonPath, Tree.edit]
      cases step : child segment root with
      | none =>
          have absent : documentTree.child segment root = none := step
          rw [absent]
      | some inner =>
          have found : documentTree.child segment root = some inner := step
          rw [found]
          simp only [further inner]
          rfl

/-- A segment that finds a node meets an object or an array that holds it. -/
theorem child_cases {segment : JsonPathSegment} {node old : Json} (found : child segment node = some old) :
    (∃ name fields, segment = .field name ∧ node = .object fields ∧ fields.lookup name = some old) ∨
      (∃ position items, segment = .index position ∧ node = .array items ∧ items[position]? = some old) := by
  unfold child at found
  split at found
  next name fields => exact Or.inl ⟨name, fields, rfl, rfl, found⟩
  next position items => exact Or.inr ⟨position, items, rfl, rfl, found⟩
  next => exact absurd found.symm (Option.some_ne_none old)

theorem documentTree_lawful : documentTree.Lawful Json.Ordered where
  here := by
    intro segment node old found value
    rcases child_cases found with ⟨name, fields, rfl, rfl, -⟩ | ⟨position, items, rfl, rfl, held⟩
    · exact lookup_insertField name value fields
    · obtain ⟨inside, -⟩ := List.getElem?_eq_some_iff.mp held
      exact List.getElem?_set_self inside
  elsewhere := by
    intro segment turn node old found value parts
    rcases child_cases found with ⟨name, fields, rfl, rfl, -⟩ | ⟨position, items, rfl, rfl, -⟩
    · cases turn with
      | field other =>
          have differs : other ≠ name := fun same => parts (by rw [same])
          exact lookup_insertField_of_ne value fields differs
      | index _ => rfl
    · cases turn with
      | field _ => rfl
      | index other =>
          have differs : position ≠ other := fun same => parts (by rw [same])
          exact List.getElem?_set_ne differs
  unchanged := by
    intro segment node old well found
    rcases child_cases found with ⟨name, fields, rfl, rfl, held⟩ | ⟨position, items, rfl, rfl, held⟩
    · exact congrArg Json.object (insertField_same ((ordered_object_iff fields).mp well).1 held)
    · obtain ⟨inside, same⟩ := List.getElem?_eq_some_iff.mp held
      exact congrArg Json.array (by rw [← same, List.set_getElem_self])
  below := by
    intro segment node old well found
    rcases child_cases found with ⟨name, fields, rfl, rfl, held⟩ | ⟨position, items, rfl, rfl, held⟩
    · exact ((ordered_object_iff fields).mp well).2 (name, old) (mem_of_lookup held)
    · exact (ordered_array_iff items).mp well old (List.mem_of_getElem? held)
  keeps := by
    intro segment node old value well found new
    rcases child_cases found with ⟨name, fields, rfl, rfl, -⟩ | ⟨position, items, rfl, rfl, -⟩
    · have whole := (ordered_object_iff fields).mp well
      refine (ordered_object_iff _).mpr ⟨insertField_ordered whole.1, ?_⟩
      intro field member
      rcases mem_insertField member with rfl | present
      · exact new
      · exact whole.2 field present
    · refine (ordered_array_iff _).mpr ?_
      intro item member
      rcases List.mem_or_eq_of_mem_set member with present | rfl
      · exact (ordered_array_iff items).mp well item present
      · exact new

end Documents

section LastSegment

/-- A successful assignment is read back, and no other segment sees it. -/
theorem assignChild_assigns {last : JsonPathSegment} {newValue node : Json}
    (done : (assignChild last newValue node).1 = true) :
    child last (assignChild last newValue node).2 = some newValue := by
  unfold assignChild at done ⊢
  split at done
  next name fields => exact lookup_insertField name newValue fields
  next position items =>
    split
    next inside => exact List.getElem?_set_self inside
    next outside =>
      split
      next atEnd => exact atEnd ▸ List.getElem?_concat_length
      next beyond =>
        rw [if_neg outside, if_neg beyond] at done
        exact absurd done Bool.false_ne_true
  next => exact absurd done Bool.false_ne_true

theorem assignChild_beside {last turn : JsonPathSegment} (newValue node : Json) (parts : turn ≠ last) :
    child turn (assignChild last newValue node).2 = child turn node := by
  unfold assignChild
  split
  next name fields =>
    cases turn with
    | field other => exact lookup_insertField_of_ne newValue fields (fun same => parts (by rw [same]))
    | index _ => rfl
  next position items =>
    cases turn with
    | field _ =>
        split
        · rfl
        · split <;> rfl
    | index other =>
        have differs : other ≠ position := fun same => parts (by rw [same])
        split
        · exact List.getElem?_set_ne (Ne.symm differs)
        · split
          next atEnd =>
            change (items ++ [newValue])[other]? = items[other]?
            rw [atEnd] at differs
            rcases lt_or_gt_of_ne differs with inside | behind
            · exact List.getElem?_append_left inside
            · have past : (items ++ [newValue]).length ≤ other := by
                rw [List.length_append, List.length_singleton]
                exact behind
              rw [List.getElem?_eq_none past, List.getElem?_eq_none behind.le]
          next => rfl
  next => rfl

theorem assignChild_fails {last : JsonPathSegment} {newValue node : Json}
    (failed : (assignChild last newValue node).1 = false) : (assignChild last newValue node).2 = node := by
  unfold assignChild at failed ⊢
  split at failed
  next => exact absurd failed.symm Bool.false_ne_true
  next position items =>
    split
    next inside =>
      rw [if_pos inside] at failed
      exact absurd failed.symm Bool.false_ne_true
    next outside =>
      split
      next atEnd =>
        rw [if_neg outside, if_pos atEnd] at failed
        exact absurd failed.symm Bool.false_ne_true
      next => rfl
  next => rfl

theorem lookup_filter_ne (name turn : String) (fields : List (String × Json)) :
    (fields.filter (fun field => field.1 != name)).lookup turn =
      if turn = name then none else fields.lookup turn := by
  induction fields with
  | nil =>
      split <;> rfl
  | cons field rest further =>
      by_cases same : field.1 = name
      · have dropped : (field.1 != name) = false := by rw [same, bne_self_eq_false]
        rw [List.filter_cons, dropped, if_neg Bool.false_ne_true, further, List.lookup_cons, same]
        by_cases here : turn = name
        · rw [if_pos here, if_pos here]
        · rw [if_neg here, if_neg here, beq_false_of_ne here]
      · have kept : (field.1 != name) = true := bne_iff_ne.mpr same
        rw [List.filter_cons, if_pos kept, List.lookup_cons, further, List.lookup_cons]
        by_cases here : turn = field.1
        · have other : turn ≠ name := fun equal => same (here ▸ equal)
          rw [if_neg other, if_neg other]
        · rw [beq_false_of_ne here]

/-- A field that was removed was there. -/
theorem removeChild_field {name : String} {node : Json} (done : (removeChild (.field name) node).1 = true) :
    ∃ fields, node = .object fields ∧
      (removeChild (.field name) node).2 = .object (fields.filter (fun field => field.1 != name)) := by
  cases node with
  | object fields => exact ⟨fields, rfl, rfl⟩
  | null => exact absurd done Bool.false_ne_true
  | bool _ => exact absurd done Bool.false_ne_true
  | number _ => exact absurd done Bool.false_ne_true
  | string _ => exact absurd done Bool.false_ne_true
  | array _ => exact absurd done Bool.false_ne_true

theorem removeChild_index {position : Nat} {node : Json} (done : (removeChild (.index position) node).1 = true) :
    ∃ items, node = .array items ∧ position < items.length ∧
      (removeChild (.index position) node).2 = .array (items.eraseIdx position) := by
  cases node with
  | array items =>
      rw [removeChild] at done ⊢
      by_cases inside : position < items.length
      · exact ⟨items, rfl, inside, by rw [if_pos inside]⟩
      · rw [if_neg inside] at done
        exact absurd done Bool.false_ne_true
  | null => exact absurd done Bool.false_ne_true
  | bool _ => exact absurd done Bool.false_ne_true
  | number _ => exact absurd done Bool.false_ne_true
  | string _ => exact absurd done Bool.false_ne_true
  | object _ => exact absurd done Bool.false_ne_true

/-- A removal that finds nothing leaves a document with finite maps as it was. -/
theorem removeChild_fails {last : JsonPathSegment} {node : Json} (failed : (removeChild last node).1 = false) :
    (removeChild last node).2 = node := by
  unfold removeChild at failed ⊢
  split at failed
  next name fields =>
    refine congrArg Json.object (List.filter_eq_self.mpr ?_)
    intro field member
    rw [bne_iff_ne]
    intro same
    rw [Option.isSome_eq_false_iff, Option.isNone_iff_eq_none, List.lookup_eq_none_iff] at failed
    exact absurd (beq_iff_eq.mpr same.symm) (by simpa using failed field member)
  next position items =>
    split
    next inside =>
      rw [if_pos inside] at failed
      exact absurd failed.symm Bool.false_ne_true
    next => rfl
  next => rfl

theorem increaseNumber_fails {delta : F64} {node : Json} {error : String}
    (failed : (increaseNumber delta node).1 = .error error) : (increaseNumber delta node).2 = node := by
  unfold increaseNumber at failed ⊢
  split at failed
  next current =>
    dsimp only at failed ⊢
    split
    next whole =>
      rw [if_pos whole] at failed
      exact absurd failed nofun
    next broken =>
      rw [if_neg broken] at failed
      split
      next number finite =>
        rw [finite] at failed
        exact absurd failed nofun
      next => rfl
  next => rfl

theorem appendItem_appends {newValue node : Json} {length : Nat} (done : (appendItem newValue node).1 = .ok length) :
    ∃ items, node = .array items ∧ length = items.length + 1 ∧
      (appendItem newValue node).2 = .array (items ++ [newValue]) := by
  unfold appendItem at done ⊢
  split at done
  next items => exact ⟨items, rfl, (Except.ok.inj done).symm, rfl⟩
  next => exact absurd done nofun

theorem appendItem_fails {newValue node : Json} {error : String}
    (failed : (appendItem newValue node).1 = .error error) : (appendItem newValue node).2 = node := by
  unfold appendItem at failed ⊢
  split at failed
  next => exact absurd failed nofun
  next => rfl

end LastSegment

section Laws

theorem setJsonPath_concat (root newValue : Json) (parent : List JsonPathSegment) (last : JsonPathSegment) :
    setJsonPath root (parent ++ [last]) newValue =
      documentTree.edit false (assignChild last newValue) parent root := by
  rw [setJsonPath, List.getLast?_concat, List.dropLast_concat]
  exact atJsonPath_eq false (assignChild last newValue) parent root

theorem deleteJsonPath_concat (root : Json) (parent : List JsonPathSegment) (last : JsonPathSegment) :
    deleteJsonPath root (parent ++ [last]) = documentTree.edit false (removeChild last) parent root := by
  rw [deleteJsonPath, List.getLast?_concat, List.dropLast_concat]
  exact atJsonPath_eq false (removeChild last) parent root

/-- Paths that part from `path` lead in both documents to the same node. -/
def SameBeside (path : List JsonPathSegment) (root after : Json) : Prop :=
  ∀ other, Apart path other → getJsonPath after other = getJsonPath root other

/-- The node at `path` is the new one. -/
def Assigned (path : List JsonPathSegment) (newValue root after : Json) : Prop :=
  getJsonPath after path = some newValue ∧ SameBeside path root after

/-- The subtree at a field is gone from its object. -/
def FieldRemoved (parent : List JsonPathSegment) (name : String) (root after : Json) : Prop :=
  (∃ fields, getJsonPath root parent = some (.object fields) ∧
    getJsonPath after parent = some (.object (fields.filter (fun field => field.1 != name)))) ∧
  (∀ rest, getJsonPath after (parent ++ .field name :: rest) = none) ∧
  SameBeside (parent ++ [.field name]) root after

/-- An element is gone from its array and the later ones have moved down by one. -/
def ElementRemoved (parent : List JsonPathSegment) (position : Nat) (root after : Json) : Prop :=
  (∃ items, getJsonPath root parent = some (.array items) ∧ position < items.length ∧
    getJsonPath after parent = some (.array (items.eraseIdx position))) ∧
  (∀ later rest, position ≤ later →
    getJsonPath after (parent ++ .index later :: rest) = getJsonPath root (parent ++ .index (later + 1) :: rest)) ∧
  ∀ other, Apart (parent ++ [.index position]) other →
    (∀ later rest, position < later → other ≠ parent ++ .index later :: rest) →
    getJsonPath after other = getJsonPath root other

/-- The array at `path` has one more element, the last, and `length` of them. -/
def Appended (path : List JsonPathSegment) (newValue : Json) (length : Nat) (root after : Json) : Prop :=
  (∃ items, getJsonPath root path = some (.array items) ∧ length = items.length + 1 ∧
    getJsonPath after path = some (.array (items ++ [newValue]))) ∧
  SameBeside path root after

/-- A successful edit has found its node. -/
theorem edit_done {path : List JsonPathSegment} {root : Json} {mutate : Json → Bool × Json}
    (done : (documentTree.edit false mutate path root).1 = true) :
    ∃ inner, documentTree.find root path = some inner ∧ (mutate inner).1 = true := by
  have answer : (documentTree.edit false mutate path root).1 ≠ false := by
    rw [done]
    exact Bool.noConfusion
  obtain ⟨inner, found⟩ := Tree.edit_answers answer
  exact ⟨inner, found, (Tree.edit_fst_found found) ▸ done⟩

/-- An edit fails without a change when its `mutate` does. -/
theorem edit_failed {α : Type} {missing : α} {mutate : Json → α × Json} (failure : α → Prop)
    (same : ∀ inner, failure (mutate inner).1 → (mutate inner).2 = inner) {path : List JsonPathSegment}
    {root : Json} (ordered : root.Ordered) (failed : failure (documentTree.edit missing mutate path root).1) :
    (documentTree.edit missing mutate path root).2 = root := by
  apply Tree.edit_unchanged documentTree_lawful ordered
  intro inner found
  rw [Tree.edit_fst_found found] at failed
  exact same inner failed

theorem setJsonPath_assigns {root newValue : Json} {path : List JsonPathSegment}
    (done : (setJsonPath root path newValue).1 = true) :
    Assigned path newValue root (setJsonPath root path newValue).2 := by
  rcases List.eq_nil_or_concat path with rfl | ⟨parent, last, shape⟩
  · exact ⟨rfl, fun other apart => absurd apart (not_apart_nil other)⟩
  · rw [List.concat_eq_append] at shape
    subst shape
    rw [setJsonPath_concat] at done ⊢
    obtain ⟨inner, found, assigned⟩ := edit_done done
    constructor
    · rw [getJsonPath_eq, Tree.find_edit documentTree_lawful found]
      have here : documentTree.child last (assignChild last newValue inner).2 = some newValue :=
        assignChild_assigns assigned
      rw [Tree.find_cons, here, Option.bind_some, Tree.find_nil]
    · intro other apart
      exact Tree.find_edit_beside documentTree_lawful found
        (fun turn parts => assignChild_beside newValue inner parts) apart

theorem setJsonPath_fails {root newValue : Json} (ordered : root.Ordered) {path : List JsonPathSegment}
    (failed : (setJsonPath root path newValue).1 = false) : (setJsonPath root path newValue).2 = root := by
  rcases List.eq_nil_or_concat path with rfl | ⟨parent, last, shape⟩
  · exact absurd failed.symm Bool.false_ne_true
  · rw [List.concat_eq_append] at shape
    subst shape
    rw [setJsonPath_concat] at failed ⊢
    exact edit_failed (· = false) (fun inner => assignChild_fails) ordered failed

theorem deleteJsonPath_field {root : Json} {parent : List JsonPathSegment} {name : String}
    (done : (deleteJsonPath root (parent ++ [.field name])).1 = true) :
    FieldRemoved parent name root (deleteJsonPath root (parent ++ [.field name])).2 := by
  rw [deleteJsonPath_concat] at done ⊢
  obtain ⟨inner, found, removed⟩ := edit_done done
  obtain ⟨fields, rfl, left⟩ := removeChild_field removed
  have child_eq : ∀ turn, documentTree.child turn (removeChild (.field name) (.object fields)).2 =
      if turn = .field name then none else documentTree.child turn (.object fields) := by
    intro turn
    rw [left]
    cases turn with
    | field other =>
        refine (lookup_filter_ne name other fields).trans ?_
        simp only [JsonPathSegment.field.injEq]
        rfl
    | index _ =>
        rw [if_neg JsonPathSegment.noConfusion]
        rfl
  have behind : ∀ rest, getJsonPath (documentTree.edit false (removeChild (.field name)) parent root).2
      (parent ++ rest) = documentTree.find (removeChild (.field name) (.object fields)).2 rest :=
    Tree.find_edit documentTree_lawful found
  refine ⟨⟨fields, found, ?_⟩, ?_, ?_⟩
  · have whole := behind []
    rw [List.append_nil, left] at whole
    exact whole
  · intro rest
    rw [behind, Tree.find_cons, child_eq, if_pos rfl, Option.bind_none]
  · intro other apart
    apply Tree.find_edit_beside documentTree_lawful found ?_ apart
    intro turn parts
    rw [child_eq, if_neg parts]

theorem deleteJsonPath_index {root : Json} {parent : List JsonPathSegment} {position : Nat}
    (done : (deleteJsonPath root (parent ++ [.index position])).1 = true) :
    ElementRemoved parent position root (deleteJsonPath root (parent ++ [.index position])).2 := by
  rw [deleteJsonPath_concat] at done ⊢
  obtain ⟨inner, found, removed⟩ := edit_done done
  obtain ⟨items, rfl, inside, left⟩ := removeChild_index removed
  have behind : ∀ rest, getJsonPath
      (documentTree.edit false (removeChild (.index position)) parent root).2 (parent ++ rest) =
        documentTree.find (.array (items.eraseIdx position)) rest := by
    intro rest
    rw [getJsonPath_eq, Tree.find_edit documentTree_lawful found, left]
  have before : ∀ rest, getJsonPath root (parent ++ rest) = documentTree.find (.array items) rest := by
    intro rest
    rw [getJsonPath_eq, Tree.find_append, found, Option.bind_some]
  refine ⟨⟨items, found, inside, ?_⟩, ?_, ?_⟩
  · have whole := behind []
    rw [List.append_nil] at whole
    exact whole
  · intro later rest beyond
    have moved : (items.eraseIdx position)[later]? = items[later + 1]? := List.getElem?_eraseIdx_of_ge beyond
    rw [behind, before, Tree.find_cons, Tree.find_cons]
    exact congrArg (fun found => Option.bind found _) moved
  · intro other apart unmoved
    rcases apart.concat with parted | ⟨turn, rest, rfl, parts⟩
    · exact Tree.find_edit_apart documentTree_lawful root parted
    · rw [behind, before, Tree.find_cons, Tree.find_cons]
      cases turn with
      | field _ => rfl
      | index earlier =>
          have below : earlier < position := by
            by_contra notBelow
            have differs : earlier ≠ position := fun same => parts (by rw [same])
            exact unmoved earlier rest (by omega) rfl
          have kept : (items.eraseIdx position)[earlier]? = items[earlier]? :=
            List.getElem?_eraseIdx_of_lt below
          exact congrArg (fun found => Option.bind found _) kept

theorem deleteJsonPath_fails {root : Json} (ordered : root.Ordered) {path : List JsonPathSegment}
    (failed : (deleteJsonPath root path).1 = false) : (deleteJsonPath root path).2 = root := by
  rcases List.eq_nil_or_concat path with rfl | ⟨parent, last, shape⟩
  · rfl
  · rw [List.concat_eq_append] at shape
    subst shape
    rw [deleteJsonPath_concat] at failed ⊢
    exact edit_failed (· = false) (fun inner => removeChild_fails) ordered failed

theorem numincrbyJsonPath_fails {root : Json} (ordered : root.Ordered) {path : List JsonPathSegment} {delta : F64}
    {error : String} (failed : (numincrbyJsonPath root path delta).1 = .error error) :
    (numincrbyJsonPath root path delta).2 = root := by
  rw [numincrbyJsonPath, atJsonPath_eq] at failed ⊢
  exact edit_failed (· = .error error) (fun inner => increaseNumber_fails) ordered failed

theorem arrappendJsonPath_appends {root newValue : Json} {path : List JsonPathSegment} {length : Nat}
    (done : (arrappendJsonPath root path newValue).1 = .ok length) :
    Appended path newValue length root (arrappendJsonPath root path newValue).2 := by
  rw [arrappendJsonPath, atJsonPath_eq] at done ⊢
  have answer : (documentTree.edit (.error pathNotFound) (appendItem newValue) path root).1 ≠
      .error pathNotFound := by
    rw [done]
    exact nofun
  obtain ⟨inner, found⟩ := Tree.edit_answers answer
  rw [Tree.edit_fst_found found] at done
  obtain ⟨items, rfl, count, grown⟩ := appendItem_appends done
  refine ⟨⟨items, found, count, ?_⟩, ?_⟩
  · have behind : ∀ rest, getJsonPath (documentTree.edit (.error pathNotFound) (appendItem newValue) path root).2
        (path ++ rest) = documentTree.find (appendItem newValue (.array items)).2 rest :=
      Tree.find_edit documentTree_lawful found
    have whole := behind []
    rw [List.append_nil, grown] at whole
    exact whole
  · intro other apart
    exact Tree.find_edit_apart documentTree_lawful root apart

theorem arrappendJsonPath_fails {root newValue : Json} (ordered : root.Ordered) {path : List JsonPathSegment}
    {error : String} (failed : (arrappendJsonPath root path newValue).1 = .error error) :
    (arrappendJsonPath root path newValue).2 = root := by
  rw [arrappendJsonPath, atJsonPath_eq] at failed ⊢
  exact edit_failed (· = .error error) (fun inner => appendItem_fails) ordered failed

/-- Set, delete, append and increment at one path of a document whose objects are finite maps. -/
theorem json_path_edits_lawful (root : Json) (ordered : root.Ordered) (path : List JsonPathSegment) :
    (∀ newValue, (setJsonPath root path newValue).1 = true →
      Assigned path newValue root (setJsonPath root path newValue).2) ∧
    ((deleteJsonPath root path).1 = true →
      (∃ parent name, path = parent ++ [.field name] ∧
        FieldRemoved parent name root (deleteJsonPath root path).2) ∨
      ∃ parent position, path = parent ++ [.index position] ∧
        ElementRemoved parent position root (deleteJsonPath root path).2) ∧
    (∀ newValue length, (arrappendJsonPath root path newValue).1 = .ok length →
      Appended path newValue length root (arrappendJsonPath root path newValue).2) ∧
    (∀ newValue, (setJsonPath root path newValue).1 = false → (setJsonPath root path newValue).2 = root) ∧
    ((deleteJsonPath root path).1 = false → (deleteJsonPath root path).2 = root) ∧
    (∀ delta error, (numincrbyJsonPath root path delta).1 = .error error →
      (numincrbyJsonPath root path delta).2 = root) ∧
    (∀ newValue error, (arrappendJsonPath root path newValue).1 = .error error →
      (arrappendJsonPath root path newValue).2 = root) := by
  refine ⟨fun newValue => setJsonPath_assigns, ?_, fun newValue length => arrappendJsonPath_appends,
    fun newValue => setJsonPath_fails ordered, deleteJsonPath_fails ordered,
    fun delta error => numincrbyJsonPath_fails ordered, fun newValue error => arrappendJsonPath_fails ordered⟩
  intro done
  rcases List.eq_nil_or_concat path with rfl | ⟨parent, last, shape⟩
  · exact absurd done Bool.false_ne_true
  · rw [List.concat_eq_append] at shape
    subst shape
    cases last with
    | field name => exact Or.inl ⟨parent, name, rfl, deleteJsonPath_field done⟩
    | index position => exact Or.inr ⟨parent, position, rfl, deleteJsonPath_index done⟩

/-- A document with an array of two strings under `tag`. -/
def tags : Json := .object [("tag", .array [.string "dev", .string "rust"])]

theorem tags_ordered : tags.Ordered :=
  ⟨List.pairwise_singleton _ _, ⟨trivial, trivial, trivial⟩, trivial⟩

/-- The first tag is replaced. -/
theorem json_path_edits_lawful_tags :
    Assigned [.field "tag", .index 0] (.string "go") tags
      (setJsonPath tags [.field "tag", .index 0] (.string "go")).2 :=
  (json_path_edits_lawful tags tags_ordered [.field "tag", .index 0]).1 (.string "go") rfl

end Laws

section Order

theorem assignChild_ordered {last : JsonPathSegment} {newValue node : Json} (ordered : node.Ordered)
    (new : newValue.Ordered) : (assignChild last newValue node).2.Ordered := by
  unfold assignChild
  split
  next name fields =>
    obtain ⟨names, inside⟩ := (ordered_object_iff fields).mp ordered
    refine (ordered_object_iff _).mpr ⟨insertField_ordered names, ?_⟩
    intro field member
    rcases mem_insertField member with rfl | present
    · exact new
    · exact inside field present
  next position items =>
    have inside := (ordered_array_iff items).mp ordered
    split
    · refine (ordered_array_iff _).mpr ?_
      intro item member
      rcases List.mem_or_eq_of_mem_set member with present | rfl
      · exact inside item present
      · exact new
    · split
      · refine (ordered_array_iff _).mpr ?_
        intro item member
        rcases List.mem_append.mp member with present | last
        · exact inside item present
        · exact List.mem_singleton.mp last ▸ new
      · exact ordered
  next => exact ordered

theorem removeChild_ordered {last : JsonPathSegment} {node : Json} (ordered : node.Ordered) :
    (removeChild last node).2.Ordered := by
  unfold removeChild
  split
  next name fields =>
    obtain ⟨names, inside⟩ := (ordered_object_iff fields).mp ordered
    refine (ordered_object_iff _).mpr ⟨?_, ?_⟩
    · exact names.sublist (List.Sublist.map Prod.fst List.filter_sublist)
    · exact fun field member => inside field (List.mem_of_mem_filter member)
  next position items =>
    split
    · have inside := (ordered_array_iff items).mp ordered
      exact (ordered_array_iff _).mpr (fun item member => inside item (List.mem_of_mem_eraseIdx member))
    · exact ordered
  next => exact ordered

theorem increaseNumber_ordered {delta : F64} {node : Json} (ordered : node.Ordered) :
    (increaseNumber delta node).2.Ordered := by
  unfold increaseNumber
  split
  next =>
    dsimp only
    split
    · trivial
    · split
      · trivial
      · exact ordered
  next => exact ordered

theorem appendItem_ordered {newValue node : Json} (ordered : node.Ordered) (new : newValue.Ordered) :
    (appendItem newValue node).2.Ordered := by
  unfold appendItem
  split
  next items =>
    have inside := (ordered_array_iff items).mp ordered
    refine (ordered_array_iff _).mpr ?_
    intro item member
    rcases List.mem_append.mp member with present | last
    · exact inside item present
    · exact List.mem_singleton.mp last ▸ new
  next => exact ordered

/-- Edits keep objects finite maps. -/
theorem edits_ordered {root newValue : Json} (ordered : root.Ordered) (new : newValue.Ordered)
    (path : List JsonPathSegment) (delta : F64) :
    (setJsonPath root path newValue).2.Ordered ∧ (deleteJsonPath root path).2.Ordered ∧
      (numincrbyJsonPath root path delta).2.Ordered ∧ (arrappendJsonPath root path newValue).2.Ordered := by
  rw [numincrbyJsonPath, atJsonPath_eq, arrappendJsonPath, atJsonPath_eq]
  refine ⟨?_, ?_, Tree.edit_valid documentTree_lawful ordered (fun _ well => increaseNumber_ordered well),
    Tree.edit_valid documentTree_lawful ordered (fun _ well => appendItem_ordered well new)⟩
  · rcases List.eq_nil_or_concat path with rfl | ⟨parent, last, shape⟩
    · exact new
    · rw [shape, List.concat_eq_append, setJsonPath_concat]
      exact Tree.edit_valid documentTree_lawful ordered (fun _ well => assignChild_ordered well new)
  · rcases List.eq_nil_or_concat path with rfl | ⟨parent, last, shape⟩
    · exact ordered
    · rw [shape, List.concat_eq_append, deleteJsonPath_concat]
      exact Tree.edit_valid documentTree_lawful ordered (fun _ well => removeChild_ordered well)

end Order

end OnyxDB.Store
