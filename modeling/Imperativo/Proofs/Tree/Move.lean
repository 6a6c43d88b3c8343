import Imperativo.Token.Basic
import Imperativo.Tree.Arena
import Mathlib.Tactic

/-!
# Moving tokens and trees

A function on places moves a token, and a tree node by node.  Nothing else of them changes, and the
numbers of the nodes do not depend on where these stand.

* **`Tree.seal_move`** — a tree that is moved has the nodes of the tree, moved.
-/

namespace Imperativo

variable (g : Position → Position)

/-- The token, moved by `g`. -/
def Token.move (t : Token) : Token := t.moveTo (g t.position)

@[simp] lemma Token.kind_move (t : Token) : (t.move g).kind = t.kind := rfl

/-- The token, with its place forgotten. -/
def Token.bare (t : Token) : Token := t.move fun _ => Position.start

/-- The heading, moved by `g`. -/
def Heading.move (h : Heading) : Heading := { h with position := g h.position }

/-- The node, moved by `g`. -/
def Node.move (node : Node) : Node := { node with heading := node.heading.move g }

/-- The numbered tree with every node moved by `g`. -/
def Ast.move (ast : Ast) : Ast := { ast with nodes := ast.nodes.map (Node.move g) }

/-- The numbered tree, with every place forgotten. -/
def Ast.bare (ast : Ast) : Ast := ast.move fun _ => Position.start

namespace Tree

mutual

/-- The tree with every node moved by `g`. -/
def move : Tree → Tree
  | .node heading children => .node (heading.move g) (moveEach children)

/-- The trees of a list with every node moved by `g`. -/
def moveEach : List Tree → List Tree
  | [] => []
  | tree :: trees => move tree :: moveEach trees

end

lemma moveEach_eq (trees : List Tree) : moveEach g trees = trees.map (move g) := by
  induction trees with
  | nil => rfl
  | cons tree trees ih => rw [moveEach, ih, List.map_cons]

lemma move_node (heading : Heading) (children : List Tree) :
    (Tree.node heading children).move g = .node (heading.move g) (children.map (move g)) := by
  rw [move, moveEach_eq]

/-! ## Sealed trees -/

mutual

lemma size_move : ∀ tree : Tree, (tree.move g).size = tree.size
  | .node heading children => by rw [move, size, size, sizeAll_moveEach children]

lemma sizeAll_moveEach : ∀ trees : List Tree, sizeAll (moveEach g trees) = sizeAll trees
  | [] => rfl
  | tree :: trees => by rw [moveEach, sizeAll, sizeAll, size_move tree, sizeAll_moveEach trees]

end

lemma roots_moveEach (base : Nat) (trees : List Tree) :
    roots base (moveEach g trees) = roots base trees := by
  induction trees generalizing base with
  | nil => rfl
  | cons tree trees ih => rw [moveEach, roots, roots, size_move, ih]

mutual

lemma layout_move (base : Nat) : ∀ tree : Tree,
    (tree.move g).layout base = (tree.layout base).map (Node.move g)
  | .node heading children => by
      rw [move, layout, layout, layoutAll_moveEach base children, roots_moveEach, List.map_append]
      rfl

lemma layoutAll_moveEach (base : Nat) : ∀ trees : List Tree,
    layoutAll base (moveEach g trees) = (layoutAll base trees).map (Node.move g)
  | [] => rfl
  | tree :: trees => by
      rw [moveEach, layoutAll, layoutAll, layout_move base tree, layoutAll_moveEach _ trees,
        size_move, List.map_append]

end

/-- **A tree that is moved has the nodes of the tree, moved.** -/
theorem seal_move (tree : Tree) : (tree.move g).seal = tree.seal.move g := by
  rw [Tree.seal, layout_move, size_move]
  rfl

end Tree

end Imperativo
