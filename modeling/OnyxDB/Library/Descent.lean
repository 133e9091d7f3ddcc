import Mathlib.Data.List.Infix
import Mathlib.Tactic.Common

/-! Trees that are entered segment by segment: the node at a path, and edits of one node that leave the rest of
the tree as it was. -/

namespace OnyxDB.Library.Descent

/-- How the node one segment below a node is found, and how a node is written back there. -/
structure Tree (Segment Node : Type) where
  child : Segment → Node → Option Node
  putChild : Segment → Node → Node → Node

/-- Paths that part ways: neither is a prefix of the other. -/
def Apart {Segment : Type} (path other : List Segment) : Prop := ¬ path <+: other ∧ ¬ other <+: path

section Paths

variable {Segment : Type}

theorem not_apart_nil (other : List Segment) : ¬ Apart [] other := fun apart => apart.1 (List.nil_prefix)

theorem not_nil_apart (path : List Segment) : ¬ Apart path [] := fun apart => apart.2 (List.nil_prefix)

theorem apart_cons_iff {segment turn : Segment} {path other : List Segment} :
    Apart (segment :: path) (turn :: other) ↔ turn ≠ segment ∨ Apart path other := by
  unfold Apart
  rw [List.cons_prefix_cons, List.cons_prefix_cons]
  by_cases same : turn = segment
  · simp only [same, true_and, ne_eq, not_true_eq_false, false_or]
  · simp only [same, Ne.symm same, false_and, not_false_eq_true, and_self, ne_eq, true_or]

/-- Who parts from a path has parted from its beginning, or parts at the last segment. -/
theorem Apart.concat {path other : List Segment} {last : Segment} (apart : Apart (path ++ [last]) other) :
    Apart path other ∨ ∃ turn rest, other = path ++ turn :: rest ∧ turn ≠ last := by
  induction path generalizing other with
  | nil =>
      cases other with
      | nil => exact absurd apart (not_nil_apart _)
      | cons turn rest =>
          rcases apart_cons_iff.mp apart with parts | later
          · exact Or.inr ⟨turn, rest, rfl, parts⟩
          · exact absurd later (not_apart_nil rest)
  | cons segment path further =>
      cases other with
      | nil => exact absurd apart (not_nil_apart _)
      | cons turn rest =>
          rcases apart_cons_iff.mp apart with parts | later
          · exact Or.inl (apart_cons_iff.mpr (Or.inl parts))
          · by_cases same : turn = segment
            · rcases further later with before | ⟨step, beyond, shape, parts⟩
              · exact Or.inl (apart_cons_iff.mpr (Or.inr before))
              · exact Or.inr ⟨step, beyond, by rw [shape, same, List.cons_append], parts⟩
            · exact Or.inl (apart_cons_iff.mpr (Or.inl same))

end Paths

namespace Tree

variable {Segment Node : Type}

/-- The node at a path. -/
def find (tree : Tree Segment Node) (node : Node) (path : List Segment) : Option Node :=
  path.foldlM (fun node segment => tree.child segment node) node

/-- Runs `mutate` on the node at a path and writes it back, or answers `missing`. -/
def edit {α : Type} (tree : Tree Segment Node) (missing : α) (mutate : Node → α × Node) :
    List Segment → Node → α × Node
  | [], node => mutate node
  | segment :: rest, node =>
      match tree.child segment node with
      | none => (missing, node)
      | some inner =>
          ((tree.edit missing mutate rest inner).1,
            tree.putChild segment node (tree.edit missing mutate rest inner).2)

/-- What a write keeps to. Writing back what was found may assume that the node is `valid`. -/
structure Lawful (tree : Tree Segment Node) (valid : Node → Prop) : Prop where
  here {segment : Segment} {node old : Node} (found : tree.child segment node = some old) (value : Node) :
    tree.child segment (tree.putChild segment node value) = some value
  elsewhere {segment turn : Segment} {node old : Node} (found : tree.child segment node = some old)
    (value : Node) (parts : turn ≠ segment) :
    tree.child turn (tree.putChild segment node value) = tree.child turn node
  unchanged {segment : Segment} {node old : Node} (well : valid node)
    (found : tree.child segment node = some old) : tree.putChild segment node old = node
  below {segment : Segment} {node old : Node} (well : valid node)
    (found : tree.child segment node = some old) : valid old
  keeps {segment : Segment} {node old value : Node} (well : valid node)
    (found : tree.child segment node = some old) (new : valid value) : valid (tree.putChild segment node value)

variable {tree : Tree Segment Node}

@[simp] theorem find_nil (node : Node) : tree.find node [] = some node := rfl

@[simp] theorem find_cons (node : Node) (segment : Segment) (rest : List Segment) :
    tree.find node (segment :: rest) = (tree.child segment node).bind (fun inner => tree.find inner rest) := rfl

theorem find_append (node : Node) (path rest : List Segment) :
    tree.find node (path ++ rest) = (tree.find node path).bind (fun inner => tree.find inner rest) := by
  induction path generalizing node with
  | nil => rfl
  | cons segment path further =>
      rw [List.cons_append, find_cons, find_cons, Option.bind_assoc]
      exact congrArg _ (funext further)

variable {α : Type} {missing : α} {mutate : Node → α × Node}

@[simp] theorem edit_nil (node : Node) : tree.edit missing mutate [] node = mutate node := rfl

theorem edit_cons_missing {segment : Segment} {rest : List Segment} {node : Node}
    (absent : tree.child segment node = none) :
    tree.edit missing mutate (segment :: rest) node = (missing, node) := by
  rw [edit, absent]

theorem edit_cons_found {segment : Segment} {rest : List Segment} {node inner : Node}
    (found : tree.child segment node = some inner) :
    tree.edit missing mutate (segment :: rest) node =
      ((tree.edit missing mutate rest inner).1,
        tree.putChild segment node (tree.edit missing mutate rest inner).2) := by
  rw [edit, found]

/-- What an edit answers. -/
theorem edit_fst (path : List Segment) (node : Node) :
    (tree.edit missing mutate path node).1 = ((tree.find node path).map (fun inner => (mutate inner).1)).getD missing := by
  induction path generalizing node with
  | nil => rfl
  | cons segment rest further =>
      cases found : tree.child segment node with
      | none => rw [edit_cons_missing found, find_cons, found, Option.bind_none, Option.map_none, Option.getD_none]
      | some inner => rw [edit_cons_found found, find_cons, found, Option.bind_some, further inner]

theorem edit_fst_found {path : List Segment} {node inner : Node} (found : tree.find node path = some inner) :
    (tree.edit missing mutate path node).1 = (mutate inner).1 := by
  rw [edit_fst, found, Option.map_some, Option.getD_some]

/-- An edit that does not answer `missing` has found its node. -/
theorem edit_answers {path : List Segment} {node : Node} (answer : (tree.edit missing mutate path node).1 ≠ missing) :
    ∃ inner, tree.find node path = some inner := by
  cases found : tree.find node path with
  | none =>
      rw [edit_fst, found, Option.map_none, Option.getD_none] at answer
      exact absurd rfl answer
  | some inner => exact ⟨inner, rfl⟩

section Laws

variable {valid : Node → Prop} (lawful : tree.Lawful valid)
include lawful

/-- At and below the edited node is what `mutate` made. -/
theorem find_edit {path : List Segment} {node inner : Node} (found : tree.find node path = some inner)
    (rest : List Segment) :
    tree.find (tree.edit missing mutate path node).2 (path ++ rest) = tree.find (mutate inner).2 rest := by
  induction path generalizing node with
  | nil =>
      cases found
      rfl
  | cons segment path further =>
      cases step : tree.child segment node with
      | none =>
          rw [find_cons, step] at found
          exact absurd found.symm (Option.some_ne_none inner)
      | some next =>
          rw [find_cons, step] at found
          rw [edit_cons_found step, List.cons_append, find_cons, lawful.here step, Option.bind_some]
          exact further found

/-- Paths that part from the edited one lead where they led. -/
theorem find_edit_apart {path other : List Segment} (node : Node) (apart : Apart path other) :
    tree.find (tree.edit missing mutate path node).2 other = tree.find node other := by
  induction path generalizing node other with
  | nil => exact absurd apart (not_apart_nil other)
  | cons segment path further =>
      cases other with
      | nil => exact absurd apart (not_nil_apart _)
      | cons turn rest =>
          cases step : tree.child segment node with
          | none => rw [edit_cons_missing step]
          | some next =>
              rw [edit_cons_found step, find_cons, find_cons]
              by_cases parts : turn = segment
              · have later : Apart path rest := by
                  rcases apart_cons_iff.mp apart with differs | later
                  · exact absurd parts differs
                  · exact later
                rw [parts, lawful.here step, step, Option.bind_some, Option.bind_some]
                exact further next later
              · rw [lawful.elsewhere step _ parts]

/-- An edit that changes its node only behind the segment `last` changes the tree only behind the whole path. -/
theorem find_edit_beside {path other : List Segment} {last : Segment} {node inner : Node}
    (found : tree.find node path = some inner)
    (beside : ∀ turn, turn ≠ last → tree.child turn (mutate inner).2 = tree.child turn inner)
    (apart : Apart (path ++ [last]) other) :
    tree.find (tree.edit missing mutate path node).2 other = tree.find node other := by
  rcases apart.concat with before | ⟨turn, rest, rfl, parts⟩
  · exact find_edit_apart lawful node before
  · rw [find_edit lawful found, find_append, found, Option.bind_some, find_cons, find_cons, beside turn parts]

/-- An edit that finds no node, or leaves its node as it was, changes nothing. -/
theorem edit_unchanged {path : List Segment} {node : Node} (well : valid node)
    (same : ∀ inner, tree.find node path = some inner → (mutate inner).2 = inner) :
    (tree.edit missing mutate path node).2 = node := by
  induction path generalizing node with
  | nil => exact same node rfl
  | cons segment path further =>
      cases step : tree.child segment node with
      | none => rw [edit_cons_missing step]
      | some next =>
          have inside := further (lawful.below well step) (fun inner found => same inner (by
            rw [find_cons, step]
            exact found))
          rw [edit_cons_found step, inside]
          exact lawful.unchanged well step

theorem edit_valid {path : List Segment} {node : Node} (well : valid node)
    (new : ∀ inner, valid inner → valid (mutate inner).2) : valid (tree.edit missing mutate path node).2 := by
  induction path generalizing node with
  | nil => exact new node well
  | cons segment path further =>
      cases step : tree.child segment node with
      | none =>
          rw [edit_cons_missing step]
          exact well
      | some next =>
          rw [edit_cons_found step]
          exact lawful.keeps well step (further (lawful.below well step))

end Laws

end Tree

end OnyxDB.Library.Descent
