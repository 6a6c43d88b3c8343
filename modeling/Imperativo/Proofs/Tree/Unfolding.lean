import Imperativo.Tree.Arena
import Mathlib.Tactic

/-!
# The tree that unfolds from a node

Where children are listed before their parents, every node has a tree below it, in which a node that
is used more than once stands more than once (`Ast.Unfolds`).  It is seen here as the list of its
nodes with their levels: a node, what is below it one level deeper, then its siblings.

* **`unfolds_iff`** — the walk with a stack visits that list and no other.

The order in which children are pushed has been settled before (`visits_eq`); what is left is that
the walk, which follows only smaller numbers, leaves no child out.
-/

namespace Imperativo

variable {ast : Ast} {depth : Nat} {ids : List Nat} {order order' : List (Nat × Nat)}

/-- Every child has a smaller number than its parent. -/
def ChildFirst (nodes : List Node) : Prop :=
  ∀ (id : Nat) (node : Node), nodes[id]? = some node → ∀ child ∈ node.children, child < id

instance (nodes : List Node) : Decidable (ChildFirst nodes) :=
  decidable_of_iff (∀ v ∈ nodes.zipIdx, ∀ child ∈ v.1.children, child < v.2)
    ⟨fun h id node hnode => h (node, id) (List.mk_mem_zipIdx_iff_getElem?.mpr hnode),
      fun h v hv => h v.2 v.1 (List.mem_zipIdx_iff_getElem?.mp hv)⟩

namespace Ast

/-- The trees that unfold from the nodes `ids`, with their roots at level `depth`, have the nodes
`order`, each with its level: of every tree first the root, then the trees of its children one level
deeper, in their order. -/
inductive Unfolds (ast : Ast) : Nat → List Nat → List (Nat × Nat) → Prop
  | nil {depth : Nat} : Unfolds ast depth [] []
  | cons {depth id : Nat} {ids : List Nat} {node : Node} {below behind : List (Nat × Nat)}
      (h : ast.node? id = some node) (hbelow : Unfolds ast (depth + 1) node.children below)
      (hbehind : Unfolds ast depth ids behind) :
      Unfolds ast depth (id :: ids) ((depth, id) :: below ++ behind)

namespace Unfolds

/-- Only one list unfolds from a node. -/
lemma unique (h : ast.Unfolds depth ids order) (h' : ast.Unfolds depth ids order') :
    order = order' := by
  induction h generalizing order' with
  | nil =>
      cases h'
      rfl
  | cons h _ _ ihbelow ihbehind =>
      cases h' with
      | cons h' hbelow' hbehind' =>
          obtain rfl := Option.some.inj (h.symm.trans h')
          rw [ihbelow hbelow', ihbehind hbehind']

/-- No node is above the roots. -/
lemma depth_le (h : ast.Unfolds depth ids order) : ∀ v ∈ order, depth ≤ v.1 := by
  induction h with
  | nil => exact nofun
  | cons _ _ _ ihbelow ihbehind =>
      intro v hv
      rcases List.mem_cons.mp hv with rfl | hv
      · exact Nat.le_refl _
      · rcases List.mem_append.mp hv with hv | hv
        · exact (Nat.le_succ _).trans (ihbelow v hv)
        · exact ihbehind v hv

/-- Trees that unfold one by one unfold side by side. -/
lemma flatMap {f : Nat → List (Nat × Nat)} (h : ∀ id ∈ ids, ast.Unfolds depth [id] (f id)) :
    ast.Unfolds depth ids (ids.flatMap f) := by
  induction ids with
  | nil => exact .nil
  | cons id ids ih =>
      rw [List.forall_mem_cons] at h
      rw [List.flatMap_cons]
      generalize f id = order at h
      cases h.1 with
      | cons hnode hbelow hnil =>
          cases hnil
          rw [List.append_nil]
          exact .cons hnode hbelow (ih h.2)

end Unfolds

/-- **From every node there unfolds what is walked from it.** -/
theorem unfolds_walk (h : ChildFirst ast.nodes) {id : Nat} (hid : id < ast.size) (depth : Nat) :
    ast.Unfolds depth [id] (walk ast.nodes depth id) := by
  induction id using Nat.strong_induction_on generalizing depth with
  | _ id ih =>
      obtain ⟨node, hnode⟩ : ∃ node, ast.nodes[id]? = some node :=
        ⟨_, List.getElem?_eq_getElem hid⟩
      have hbelow : ast.Unfolds (depth + 1) node.children
          (node.children.flatMap fun child => walk ast.nodes (depth + 1) child) :=
        .flatMap fun child hchild =>
          have hlt := h id node hnode child hchild
          ih child hlt (hlt.trans hid) (depth + 1)
      have hfollow : (node.children.flatMap fun child =>
          if child < id then walk ast.nodes (depth + 1) child else []) =
            node.children.flatMap fun child => walk ast.nodes (depth + 1) child :=
        List.flatMap_congr fun child hchild => if_pos (h id node hnode child hchild)
      have hunfold := Unfolds.cons hnode hbelow .nil
      rw [List.append_nil] at hunfold
      rw [walk_some hnode, hfollow]
      exact hunfold

/-- **The walk from the root visits the tree that unfolds from it, parents first.** -/
theorem unfolds_iff (h : ChildFirst ast.nodes) (hroot : ast.root < ast.size)
    (order : List (Nat × Nat)) : ast.Unfolds 0 [ast.root] order ↔ order = ast.preorder := by
  have hwalk := unfolds_walk h hroot 0
  rw [← preorder_eq] at hwalk
  exact ⟨fun horder => horder.unique hwalk, fun horder => horder ▸ hwalk⟩

end Ast

end Imperativo
