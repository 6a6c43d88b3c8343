import Imperativo.Proofs.Tree.Renderings

/-!
# Walks that look up every node

The walks over numbered nodes follow a child only when its number is smaller, and pass over a number
without a node.  A program compares no numbers.  It looks up whatever it comes to, so it is lost
where a node is missing and goes on for ever where a node is below itself.  The walks are taken here
in that way, with a supply of steps, and have no result when a node is missing or the steps run out.

* `Strict.preorder`, `Strict.outline`, `Strict.graph`, `Strict.sameShape` — the walks without a guard.
* **`Strict.preorder_eq`**, **`Strict.outline_eq`**, **`Strict.graph_eq`**, **`Strict.sameShape_eq`**
  — where children have smaller numbers than their parents, all of them come to the same as the
  guarded ones.

How many steps are enough depends on the walk.  The one with a stack takes one for every visit, of
which there may be far more than nodes; the others need only one for every level, and the numbers go
down from level to level.
-/

namespace Imperativo

variable {α β : Type}

/-! ## Loops that never fail -/

lemma foldlM_eq_some {f : β → α → Option β} {g : β → α → β} {l : List α}
    (h : ∀ b, ∀ a ∈ l, f b a = some (g b a)) (b : β) : l.foldlM f b = some (l.foldl g b) := by
  induction l generalizing b with
  | nil => rfl
  | cons a l ih =>
      rw [List.foldlM_cons, h b a List.mem_cons_self, List.foldl_cons]
      exact ih (fun b a ha => h b a (List.mem_cons_of_mem _ ha)) (g b a)

lemma allM_eq_some {f : α → Option Bool} {g : α → Bool} {l : List α}
    (h : ∀ a ∈ l, f a = some (g a)) : l.allM f = some (l.all g) := by
  induction l with
  | nil => rfl
  | cons a l ih =>
      rw [List.allM, h a List.mem_cons_self, List.all_cons]
      cases g a with
      | false => rfl
      | true => exact ih fun a ha => h a (List.mem_cons_of_mem _ ha)

lemma mapM_eq_some {f : α → Option β} {g : α → β} {l : List α}
    (h : ∀ a ∈ l, f a = some (g a)) : l.mapM f = some (l.map g) := by
  induction l with
  | nil => rfl
  | cons a l ih =>
      rw [List.mapM_cons, h a List.mem_cons_self, ih fun a ha => h a (List.mem_cons_of_mem _ ha)]
      rfl

namespace Strict

/-! ## The walks -/

/-- The walk with a stack. -/
def visits (nodes : List Node) : Nat → List (Nat × Nat) → Option (List (Nat × Nat))
  | _, [] => some []
  | 0, _ :: _ => none
  | steps + 1, (depth, id) :: stack => do
    let node ← nodes[id]?
    let stack := node.children.reverse.foldl (fun stack child => (depth + 1, child) :: stack) stack
    let order ← visits nodes steps stack
    return (depth, id) :: order

/-- The nodes from the root on, each with its depth. -/
def preorder (steps : Nat) (ast : Ast) : Option (List (Nat × Nat)) :=
  visits ast.nodes steps [(0, ast.root)]

/-- The outline, each line from a node that is looked up once more. -/
def outline (steps : Nat) (ast : Ast) : Option Text := do
  let order ← preorder steps ast
  let lines ← order.mapM fun (depth, id) => do
    let node ← ast.node? id
    return outlineLineOf depth node.heading
  return lines.flatten

/-- The graph with what is below node `id`; every child is looked up for its label, and again for
its children. -/
def addChildren (ast : Ast) : Nat → Nat → Nat → Graph → Option Graph
  | 0, _, _, _ => none
  | steps + 1, id, vertex, g => do
    let node ← ast.node? id
    node.children.zipIdx.foldlM (fun g (child, place) => do
      let below ← ast.node? child
      addChildren ast steps child g.size (g.sprout below.heading.text vertex place)) g

/-- The graph of a tree. -/
def graph (steps : Nat) (ast : Ast) : Option Graph := do
  let node ← ast.node? ast.root
  addChildren ast steps ast.root 0 ⟨[node.heading.text], []⟩

/-- Whether the trees below two nodes have equal headings and shapes; at the first difference the
rest is not looked at. -/
def alike (xs ys : List Node) : Nat → Nat → Nat → Option Bool
  | 0, _, _ => none
  | steps + 1, i, j => do
    let x ← xs[i]?
    let y ← ys[j]?
    if x.heading = y.heading ∧ x.children.length = y.children.length then
      (x.children.zip y.children).allM fun (l, r) => alike xs ys steps l r
    else
      return false

/-- Whether two trees have the same headings in the same shape. -/
def sameShape (steps : Nat) (a b : Ast) : Option Bool := alike a.nodes b.nodes steps a.root b.root

/-! ## Nothing is missing and nothing comes again -/

lemma exists_node {nodes : List Node} {id : Nat} (h : id < nodes.length) :
    ∃ node, nodes[id]? = some node :=
  ⟨_, List.getElem?_eq_getElem h⟩

lemma foldl_push (children : List Nat) (depth : Nat) (stack : List (Nat × Nat)) :
    children.reverse.foldl (fun stack child => (depth, child) :: stack) stack =
      children.map (Prod.mk depth) ++ stack := by
  rw [List.foldl_reverse]
  induction children with
  | nil => rfl
  | cons child children ih => rw [List.foldr_cons, ih, List.map_cons, List.cons_append]

lemma push_eq {children : List Nat} {id : Nat} (h : ∀ child ∈ children, child < id) (depth : Nat)
    (stack : List (Nat × Nat)) :
    push children depth id stack = children.map (Prod.mk depth) ++ stack := by
  rw [← foldl_push, push]
  exact List.foldl_ext _ _ _ fun stack child hchild => if_pos (h child (List.mem_reverse.mp hchild))

lemma visits_eq {nodes : List Node} (h : ChildFirst nodes) {steps : Nat}
    {stack : List (Nat × Nat)} (hstack : ∀ v ∈ stack, v.2 < nodes.length)
    (hsteps : (Imperativo.visits nodes stack).length ≤ steps) :
    visits nodes steps stack = some (Imperativo.visits nodes stack) := by
  fun_induction Imperativo.visits nodes stack generalizing steps with
  | case1 => cases steps <;> rfl
  | case2 depth id stack hnone =>
      rw [List.getElem?_eq_none_iff] at hnone
      have hlt := hstack (depth, id) List.mem_cons_self
      exact absurd hnone (by omega)
  | case3 depth id stack node hnode ih =>
      rw [List.forall_mem_cons] at hstack
      have hchildren := h id node hnode
      cases steps with
      | zero => exact absurd hsteps (by rw [List.length_cons]; omega)
      | succ steps =>
          have hpushed : ∀ v ∈ push node.children (depth + 1) id stack, v.2 < nodes.length := by
            rw [push_eq hchildren]
            refine List.forall_mem_append.mpr ⟨?_, hstack.2⟩
            exact List.forall_mem_map.mpr fun child hchild => (hchildren child hchild).trans hstack.1
          have hrest := ih hpushed (Nat.le_of_succ_le_succ hsteps)
          rw [push_eq hchildren, ← foldl_push] at hrest
          rw [visits, hnode, push_eq hchildren, ← foldl_push]
          change Option.bind (visits nodes steps _) _ = _
          rw [hrest]
          rfl

lemma addChildren_eq {ast : Ast} (h : ChildFirst ast.nodes) {steps id : Nat} (hid : id < ast.size)
    (hsteps : id < steps) (vertex : Nat) (g : Graph) :
    addChildren ast steps id vertex g = some (Graph.addChildren ast id vertex g) := by
  induction steps generalizing id vertex g with
  | zero => exact absurd hsteps (Nat.not_lt_zero id)
  | succ steps ih =>
      obtain ⟨node, hnode⟩ : ∃ node, ast.node? id = some node := exists_node hid
      rw [addChildren, hnode, Graph.addChildren_eq hnode, Graph.addEach]
      change List.foldlM _ g _ = _
      refine foldlM_eq_some ?_ g
      rintro g ⟨child, place⟩ hchild
      have hlt := h id node hnode child (List.mem_of_getElem? (List.mem_zipIdx_iff_getElem?.mp hchild))
      obtain ⟨below, hbelow⟩ : ∃ below, ast.node? child = some below := exists_node (hlt.trans hid)
      have hlabel : ast.label child = below.heading.text := by rw [Ast.label, hbelow]
      simp only [hbelow, if_pos hlt, hlabel]
      exact ih (hlt.trans hid) (by omega) _ _

lemma alike_eq {xs ys : List Node} (hx : ChildFirst xs) (hy : ChildFirst ys) {steps i j : Nat}
    (hi : i < xs.length) (hj : j < ys.length) (hsteps : i < steps) :
    alike xs ys steps i j = some (Imperativo.alike xs ys i j) := by
  induction steps generalizing i j with
  | zero => exact absurd hsteps (Nat.not_lt_zero i)
  | succ steps ih =>
      obtain ⟨x, hxi⟩ := exists_node hi
      obtain ⟨y, hyj⟩ := exists_node hj
      have hbelow : ∀ pair ∈ x.children.zip y.children, alike xs ys steps pair.1 pair.2 =
          some (if pair.1 < i then Imperativo.alike xs ys pair.1 pair.2 else false) := by
        rintro ⟨l, r⟩ hpair
        obtain ⟨hl, hr⟩ := List.of_mem_zip hpair
        have hli := hx i x hxi l hl
        have hrj := hy j y hyj r hr
        rw [if_pos hli]
        exact ih (hli.trans hi) (hrj.trans hj) (by omega)
      have hall := allM_eq_some hbelow
      rw [alike, hxi, hyj, Imperativo.alike, hxi, hyj]
      simp only [Option.bind_eq_bind, Option.bind_some, hall]
      split
      · rename_i hsame
        simp [hsame]
      · rename_i hdiffer
        have hfalse : (x.heading == y.heading && x.children.length == y.children.length) = false := by
          rw [Bool.eq_false_iff]
          simpa using hdiffer
        rw [hfalse, Bool.false_and]
        rfl

variable {ast : Ast} {steps : Nat}

/-- **The walk from the root** comes to its end. -/
theorem preorder_eq (h : ChildFirst ast.nodes) (hroot : ast.root < ast.size)
    (hsteps : ast.preorder.length ≤ steps) : preorder steps ast = some ast.preorder :=
  visits_eq h (List.forall_mem_singleton.mpr hroot) hsteps

/-- **The outline** finds all its nodes. -/
theorem outline_eq (h : ChildFirst ast.nodes) (hroot : ast.root < ast.size)
    (hsteps : ast.preorder.length ≤ steps) : outline steps ast = some ast.outline := by
  have hnodes := ((Ast.unfolds_iff h hroot ast.preorder).mpr rfl).exists_node
  have hlines : (ast.preorder.mapM fun v => do
      let node ← ast.node? v.2
      return outlineLineOf v.1 node.heading) =
        some (ast.preorder.map fun v => ast.outlineLine v.1 v.2) := by
    refine mapM_eq_some fun v hv => ?_
    obtain ⟨node, hnode⟩ := hnodes v hv
    rw [hnode, Ast.outlineLine, Ast.label, hnode]
    rfl
  rw [outline, preorder_eq h hroot hsteps, Ast.outline, List.flatMap_def]
  change Option.bind (ast.preorder.mapM _) _ = _
  rw [hlines]
  rfl

/-- **The graph** finds all its nodes. -/
theorem graph_eq (h : ChildFirst ast.nodes) (hroot : ast.root < ast.size)
    (hsteps : ast.root < steps) : graph steps ast = some (Graph.ofAst ast) := by
  obtain ⟨node, hnode⟩ : ∃ node, ast.node? ast.root = some node := exists_node hroot
  rw [graph, Graph.ofAst, hnode]
  exact addChildren_eq h hroot hsteps 0 _

/-- **The comparison** finds all the nodes of both trees. -/
theorem sameShape_eq {other : Ast} (h : ChildFirst ast.nodes) (h' : ChildFirst other.nodes)
    (hroot : ast.root < ast.size) (hroot' : other.root < other.size) (hsteps : ast.root < steps) :
    sameShape steps ast other = some (ast.sameShape other) :=
  alike_eq h h' hroot hroot' hsteps

end Strict

end Imperativo
