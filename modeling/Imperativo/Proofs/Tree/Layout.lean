import Imperativo.Tree.Arena
import Mathlib.Tactic

/-!
# Trees laid out in an arena

Trees stand in a grove when their nodes were added to an arena one tree after another (`Grove`).  A
grove grows at its end, by another grove, and becomes the children of a node that is added behind
it.

* `Grove.append`, `Grove.node` — how groves grow.
* `Grove.finish` — a grove of one tree in an arena of its own is that tree, sealed.
-/

namespace Imperativo

namespace Tree

/-! ## Sizes -/

mutual

lemma length_layout (base : Nat) : ∀ tree : Tree, (tree.layout base).length = tree.size
  | .node heading children => by
      rw [layout, size, List.length_append, length_layoutAll base children]
      rfl

lemma length_layoutAll (base : Nat) :
    ∀ trees : List Tree, (Tree.layoutAll base trees).length = Tree.sizeAll trees
  | [] => rfl
  | tree :: trees => by
      rw [layoutAll, sizeAll, List.length_append, length_layout base tree, length_layoutAll _ trees]

end

lemma layoutAll_append (base : Nat) (trees trees' : List Tree) :
    Tree.layoutAll base (trees ++ trees') =
      Tree.layoutAll base trees ++ Tree.layoutAll (base + Tree.sizeAll trees) trees' := by
  induction trees generalizing base with
  | nil => rfl
  | cons tree trees ih =>
      rw [List.cons_append, layoutAll, layoutAll, ih, sizeAll, List.append_assoc, Nat.add_assoc]

lemma roots_append (base : Nat) (trees trees' : List Tree) :
    Tree.roots base (trees ++ trees') =
      Tree.roots base trees ++ Tree.roots (base + Tree.sizeAll trees) trees' := by
  induction trees generalizing base with
  | nil => rfl
  | cons tree trees ih =>
      rw [List.cons_append, roots, roots, ih, sizeAll, Nat.add_assoc, List.cons_append]

end Tree

/-! ## Groves -/

/-- The second arena has the nodes of the first one and, behind them, those of `trees`, one tree
after another; their roots are `ids`. -/
structure Grove (a : Arena) (trees : List Tree) (ids : List Nat) (b : Arena) : Prop where
  ids_eq : ids = Tree.roots a.size trees
  nodes_eq : b.nodes = a.nodes ++ Tree.layoutAll a.size trees

namespace Grove

variable {a b c : Arena} {trees trees' : List Tree} {ids ids' : List Nat}

lemma nil (a : Arena) : Grove a [] [] a := ⟨rfl, (List.append_nil _).symm⟩

lemma size_eq (h : Grove a trees ids b) : b.size = a.size + Tree.sizeAll trees := by
  rw [Arena.size, h.nodes_eq, List.length_append, Tree.length_layoutAll]
  rfl

lemma keeps (h : Grove a trees ids b) : a.nodes <+: b.nodes := ⟨_, h.nodes_eq.symm⟩

/-- A grove grows at its end. -/
lemma append (h : Grove a trees ids b) (h' : Grove b trees' ids' c) :
    Grove a (trees ++ trees') (ids ++ ids') c where
  ids_eq := by rw [Tree.roots_append, h.ids_eq, h'.ids_eq, h.size_eq]
  nodes_eq := by
    rw [Tree.layoutAll_append, h'.nodes_eq, h.nodes_eq, h.size_eq, List.append_assoc]

/-- A grove becomes the children of a node that is added behind it. -/
lemma node (h : Grove a trees ids b) (heading : Heading) :
    Grove a [.node heading trees] [(b.add ⟨heading, ids⟩).1] (b.add ⟨heading, ids⟩).2 where
  ids_eq := congrArg (fun n => [n]) h.size_eq
  nodes_eq := by
    rw [Tree.layoutAll, Tree.layout, Tree.layoutAll, ← h.ids_eq, List.append_nil,
      ← List.append_assoc, ← h.nodes_eq]
    rfl

/-- A tree in an arena of its own is sealed by taking its root. -/
lemma finish {tree : Tree} {id : Nat} (h : Grove Arena.empty [tree] [id] b) :
    b.finish id = tree.seal := by
  have hid : id = 0 + tree.size - 1 := (List.cons.inj h.ids_eq).1
  have hnodes : b.nodes = tree.layout 0 := by
    rw [h.nodes_eq, Tree.layoutAll, Tree.layoutAll, List.append_nil]
    rfl
  rw [Arena.finish, Tree.seal, hid, hnodes, Nat.zero_add]

end Grove

/-- Rolling back to a mark restores the arena it was taken from. -/
lemma Arena.truncate_mark {a b : Arena} (h : a.nodes <+: b.nodes) : b.truncate a.mark = a := by
  obtain ⟨nodes, hnodes⟩ := h
  rw [truncate, mark, size, ← hnodes, List.take_left]

end Imperativo
