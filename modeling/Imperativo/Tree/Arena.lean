import Imperativo.Tree.Basic

/-!
# Trees as numbered nodes

An arena is a list of nodes; a node's number is its place in the list, and a node refers to its
children by number.  Nodes are added at the end only, and everything behind a mark can be dropped
again.  A child is added before its parent, so numbers go down along every path, and every walk
follows a child only when its number is smaller: on an arena built child first that leaves nothing
out.

* `Arena.add`, `Arena.mark`, `Arena.truncate` — grow and roll back.
* `walk`, `visits` — the walk below a node, and the same with a stack.
* `Ast` — an arena with a root.
* `Ast.preorder`, `Ast.sameShape` — walk one tree, compare two.
* `Tree.seal` — a tree as an arena, every subtree listed child first in one stretch that ends with
  its root.
-/

namespace Imperativo

/-- A node that refers to its children by number. -/
structure Node where
  heading : Heading
  children : List Nat
  deriving DecidableEq, Repr

/-! ## Arenas -/

/-- Nodes in the order in which they were added. -/
structure Arena where
  nodes : List Node
  deriving DecidableEq, Repr

namespace Arena

/-- The arena without nodes. -/
def empty : Arena := ⟨[]⟩

/-- The number of nodes. -/
def size (a : Arena) : Nat := a.nodes.length

/-- The number that the next node will get. -/
def mark (a : Arena) : Nat := a.size

/-- The node with number `id`. -/
def get? (a : Arena) (id : Nat) : Option Node := a.nodes[id]?

/-- Adds a node; its number is the mark from before. -/
def add (a : Arena) (node : Node) : Nat × Arena := (a.mark, ⟨a.nodes ++ [node]⟩)

/-- Drops every node from `mark` on. -/
def truncate (a : Arena) (mark : Nat) : Arena := ⟨a.nodes.take mark⟩

end Arena

/-! ## Walks -/

/-- The walk from node `id`, parents first and children in order, each node with its depth. -/
def walk (nodes : List Node) (depth id : Nat) : List (Nat × Nat) :=
  match nodes[id]? with
  | none => []
  | some node =>
    (depth, id) :: node.children.flatMap fun child =>
      if _h : child < id then walk nodes (depth + 1) child else []
termination_by id

theorem walk_none {nodes : List Node} {id : Nat} (h : nodes[id]? = none) (depth : Nat) :
    walk nodes depth id = [] := by
  rw [walk, h]

theorem walk_some {nodes : List Node} {id : Nat} {node : Node} (h : nodes[id]? = some node)
    (depth : Nat) : walk nodes depth id =
      (depth, id) :: node.children.flatMap fun child =>
        if child < id then walk nodes (depth + 1) child else [] := by
  rw [walk, h]
  rfl

/-- The stack with the children of node `id` on it, the first one on top: they are pushed from the
last one on. -/
def push (children : List Nat) (depth id : Nat) (stack : List (Nat × Nat)) : List (Nat × Nat) :=
  children.reverse.foldl
    (fun stack child => if child < id then (depth, child) :: stack else stack) stack

/-- The children come in order in front of what was on the stack before. -/
theorem flatMap_push (f : Nat × Nat → List (Nat × Nat)) (children : List Nat) (depth id : Nat)
    (stack : List (Nat × Nat)) : (push children depth id stack).flatMap f =
      (children.flatMap fun child => if child < id then f (depth, child) else []) ++
        stack.flatMap f := by
  rw [push, List.foldl_reverse]
  induction children with
  | nil => rfl
  | cons child children ih =>
    rw [List.foldr_cons, List.flatMap_cons]
    split
    · rw [List.flatMap_cons, ih, List.append_assoc]
    · exact ih

/-- The walk with a stack: the node on top, each with its depth, is visited, and its children take
its place. -/
def visits (nodes : List Node) : List (Nat × Nat) → List (Nat × Nat)
  | [] => []
  | (depth, id) :: stack =>
    match _h : nodes[id]? with
    | none => visits nodes stack
    | some node => (depth, id) :: visits nodes (push node.children (depth + 1) id stack)
termination_by stack => ((stack.flatMap fun v => walk nodes v.1 v.2).length, stack.length)
decreasing_by
  · rw [List.flatMap_cons, walk_none _h]
    exact Prod.Lex.right _ (Nat.lt_succ_self _)
  · rw [List.flatMap_cons, walk_some _h, flatMap_push]
    exact Prod.Lex.left _ _ (Nat.lt_succ_self _)

/-- What is visited from a stack is what is walked from each of its nodes, from the top on. -/
theorem visits_eq (nodes : List Node) (stack : List (Nat × Nat)) :
    visits nodes stack = stack.flatMap fun v => walk nodes v.1 v.2 := by
  fun_induction visits nodes stack with
  | case1 => rfl
  | case2 depth id stack h ih => rw [ih, List.flatMap_cons, walk_none h, List.nil_append]
  | case3 depth id stack node h ih =>
    rw [ih, flatMap_push, List.flatMap_cons, walk_some h, List.cons_append]

/-- Whether the trees below node `i` of one arena and node `j` of another have equal headings and
shapes. -/
def alike (xs ys : List Node) (i j : Nat) : Bool :=
  match xs[i]?, ys[j]? with
  | some x, some y =>
    x.heading == y.heading && x.children.length == y.children.length &&
      (x.children.zip y.children).all fun pair =>
        if _h : pair.1 < i then alike xs ys pair.1 pair.2 else false
  | _, _ => false
termination_by i

/-- A finished tree: the nodes and the number of the root. -/
structure Ast where
  nodes : List Node
  root : Nat
  deriving DecidableEq, Repr

/-- Takes one node of an arena as the root of a finished tree. -/
def Arena.finish (a : Arena) (root : Nat) : Ast := ⟨a.nodes, root⟩

namespace Ast

/-- The node with number `id`. -/
def node? (ast : Ast) (id : Nat) : Option Node := ast.nodes[id]?

/-- The number of nodes, used or not. -/
def size (ast : Ast) : Nat := ast.nodes.length

/-- What a node says; a number without a node says nothing. -/
def label (ast : Ast) (id : Nat) : Text :=
  match ast.node? id with
  | some node => node.heading.text
  | none => []

/-- The child of node `id` at a given place among its children. -/
def child? (ast : Ast) (id index : Nat) : Option Nat :=
  (ast.node? id).bind fun node => node.children[index]?

/-- What the children of node `id` say. -/
def childLabels (ast : Ast) (id : Nat) : List Text :=
  match ast.node? id with
  | some node => node.children.map ast.label
  | none => []

/-- The nodes from the root on, parents first and children in order, each with its depth. -/
def preorder (ast : Ast) : List (Nat × Nat) := visits ast.nodes [(0, ast.root)]

theorem preorder_eq (ast : Ast) : ast.preorder = walk ast.nodes 0 ast.root := by
  rw [preorder, visits_eq, List.flatMap_singleton]

/-- Whether two trees have the same headings in the same shape, however their nodes are numbered. -/
def sameShape (a b : Ast) : Bool := alike a.nodes b.nodes a.root b.root

end Ast

/-! ## Laying out a tree -/

mutual

/-- The number of nodes of a tree. -/
def Tree.size : Tree → Nat
  | .node _ children => Tree.sizeAll children + 1

/-- The number of nodes of several trees. -/
def Tree.sizeAll : List Tree → Nat
  | [] => 0
  | t :: ts => t.size + Tree.sizeAll ts

end

/-- The numbers of the roots of trees laid out one after another, the first node getting number
`base`. -/
def Tree.roots (base : Nat) : List Tree → List Nat
  | [] => []
  | t :: ts => (base + t.size - 1) :: Tree.roots (base + t.size) ts

mutual

/-- The nodes of a tree, children before parents, the first one getting number `base`. -/
def Tree.layout (base : Nat) : Tree → List Node
  | .node heading children => Tree.layoutAll base children ++ [⟨heading, Tree.roots base children⟩]

/-- The nodes of several trees, one tree after another. -/
def Tree.layoutAll (base : Nat) : List Tree → List Node
  | [] => []
  | t :: ts => t.layout base ++ Tree.layoutAll (base + t.size) ts

end

/-- A tree as numbered nodes; the root comes last. -/
def Tree.seal (t : Tree) : Ast := ⟨t.layout 0, t.size - 1⟩

end Imperativo
