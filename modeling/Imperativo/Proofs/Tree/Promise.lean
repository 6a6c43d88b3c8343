import Imperativo.Proofs.Tree.PostOrder

/-!
# What nodes promise

Whoever walks a tree relies on the table of node kinds.  By its kind a node promises which kinds of
children it has, in which order, and whether it is labelled and with what (`Promised`); a tree keeps
its promises when all of its nodes do (`Tree.Keeps`).  In the numbered form a child is a mere
number, which would stay in range even if another node had taken its place, so that the right kind
of node stands at each of these numbers is a statement of its own (`Ast.KeepsAt`).

* **`keepsAt_seal`** — a sealed tree keeps at every number what the tree keeps.
-/

namespace Imperativo

namespace NodeKind

/-- The kinds of statements. -/
def isStatement : NodeKind → Bool
  | .declaration | .initialization | .assignment | .print | .read | .loop | .conditional
  | .alternative => true
  | _ => false

/-- The kinds of expressions. -/
def isExpression : NodeKind → Bool
  | .number | .variable | .binary _ => true
  | _ => false

/-- The kinds of conditions. -/
def isCondition : NodeKind → Bool
  | .comparison | .combination => true
  | _ => false

end NodeKind

/-! ## Promises -/

/-- The label and the kinds of the children that a kind of nodes promises, for a program that has
its `terminar` if `ended` holds, and its name if `named` does. -/
inductive Promised (ended named : Prop) : NodeKind → Option Text → List NodeKind → Prop
  | program {label : Option Text} (hname : label.isSome = true ↔ named) (hended : ended) :
      Promised ended named .program label [.block, .terminate]
  | openEnded {label : Option Text} (hname : label.isSome = true ↔ named) (hended : ¬ ended) :
      Promised ended named .program label [.block]
  | block {kinds : List NodeKind} (h : ∀ kind ∈ kinds, kind.isStatement = true) :
      Promised ended named .block none kinds
  | declaration {kinds : List NodeKind} (hne : kinds ≠ []) (h : ∀ kind ∈ kinds, kind = .variable) :
      Promised ended named .declaration none (.scalar :: kinds)
  | initialization {kind : NodeKind} (h : kind.isExpression = true) :
      Promised ended named .initialization none [.scalar, .variable, kind]
  | assignment (target : Text) {kind : NodeKind} (h : kind.isExpression = true) :
      Promised ended named .assignment (some target) [kind]
  | print {kinds : List NodeKind} (hne : kinds ≠ []) (h : ∀ kind ∈ kinds, kind = .content) :
      Promised ended named .print none kinds
  | read : Promised ended named .read none [.variable]
  | loop {kind : NodeKind} (h : kind.isCondition = true) :
      Promised ended named .loop none [kind, .block]
  | conditional {kind : NodeKind} (h : kind.isCondition = true) :
      Promised ended named .conditional none [kind, .block]
  | alternative {kind : NodeKind} (h : kind.isCondition = true) :
      Promised ended named .alternative none [kind, .block, .block]
  | comparison (op : Relation) {l r : NodeKind} (hl : l.isExpression = true)
      (hr : r.isExpression = true) :
      Promised ended named .comparison (some op.spelling.toList) [l, r]
  | combination (op : Connective) {l r : NodeKind} (hl : l.isCondition = true)
      (hr : r.isCondition = true) :
      Promised ended named .combination (some op.spelling.toList) [l, r]
  | binary (op : Arithmetic) {l r : NodeKind} (hl : l.isExpression = true)
      (hr : r.isExpression = true) : Promised ended named (.binary op) none [l, r]
  | number (label : Text) : Promised ended named .number (some label) []
  | variable (label : Text) : Promised ended named .variable (some label) []
  | content (label : Text) : Promised ended named .content (some label) []
  | scalar (type : Scalar) : Promised ended named .scalar (some type.spelling.toList) []
  | terminate : Promised ended named .terminate none []

/-- The kind of the root. -/
def Tree.kind (tree : Tree) : NodeKind := tree.heading.kind

/-- Every node of the tree is what its kind promises. -/
inductive Tree.Keeps (ended named : Prop) : Tree → Prop
  | node {heading : Heading} {children : List Tree}
      (h : Promised ended named heading.kind heading.label (children.map Tree.kind))
      (hchildren : ∀ child ∈ children, child.Keeps ended named) :
      Keeps ended named (.node heading children)

/-- The kind of the node with number `id`. -/
def Ast.kind? (ast : Ast) (id : Nat) : Option NodeKind :=
  (ast.node? id).map fun node => node.heading.kind

/-- There is a node with number `id`, its children are there as well, and it is what its kind
promises. -/
def Ast.KeepsAt (ended named : Prop) (ast : Ast) (id : Nat) : Prop :=
  ∃ node kinds, ast.node? id = some node ∧ node.children.map ast.kind? = kinds.map some ∧
    Promised ended named node.heading.kind node.heading.label kinds

/-! ## Sealed trees -/

section Stretches

variable {ended named : Prop} {ast : Ast}

lemma Tree.kind?_of_layout {base : Nat} {tree : Tree}
    (h : tree.layout base <+: ast.nodes.drop base) :
    ast.kind? (base + tree.size - 1) = some tree.kind := by
  obtain ⟨heading, children⟩ := tree
  have hroot : base + (Tree.node heading children).size - 1 = base + Tree.sizeAll children := rfl
  rw [Ast.kind?, hroot, Tree.node?_of_layout h]
  rfl

lemma Tree.kinds_of_layoutAll {base : Nat} {trees : List Tree}
    (h : Tree.layoutAll base trees <+: ast.nodes.drop base) :
    (Tree.roots base trees).map ast.kind? = (trees.map Tree.kind).map some := by
  induction trees generalizing base with
  | nil => rfl
  | cons tree trees ih =>
      rw [Tree.roots, List.map_cons, Tree.kind?_of_layout ((List.prefix_append _ _).trans h),
        ih (Tree.layoutAll_behind h)]
      rfl

mutual

/-- A tree keeps its promises where it was laid out. -/
lemma Tree.keepsAt_layout {base : Nat} : ∀ {tree : Tree},
    tree.layout base <+: ast.nodes.drop base → tree.Keeps ended named →
      ∀ {id}, base ≤ id → id < base + tree.size → ast.KeepsAt ended named id
  | .node heading children, h, hkeeps, id, hle, hlt => by
      have hchildren : Tree.layoutAll base children <+: ast.nodes.drop base :=
        (List.prefix_append _ _).trans h
      obtain ⟨hpromised, hbelow⟩ := hkeeps
      rw [Tree.size, ← Nat.add_assoc] at hlt
      rcases Nat.lt_succ_iff_lt_or_eq.mp hlt with hlt | rfl
      · exact Tree.keepsAt_layoutAll hchildren hbelow hle hlt
      · exact ⟨_, _, Tree.node?_of_layout h, Tree.kinds_of_layoutAll hchildren, hpromised⟩

/-- Trees keep their promises where they were laid out, one behind another. -/
lemma Tree.keepsAt_layoutAll {base : Nat} : ∀ {trees : List Tree},
    Tree.layoutAll base trees <+: ast.nodes.drop base →
      (∀ tree ∈ trees, tree.Keeps ended named) →
        ∀ {id}, base ≤ id → id < base + Tree.sizeAll trees → ast.KeepsAt ended named id
  | [], _, _, id, hle, hlt => absurd hlt (Nat.not_lt.mpr hle)
  | tree :: trees, h, hkeeps, id, hle, hlt => by
      obtain ⟨htree, htrees⟩ := List.forall_mem_cons.mp hkeeps
      rw [Tree.sizeAll, ← Nat.add_assoc] at hlt
      rcases Nat.lt_or_ge id (base + tree.size) with hin | hbehind
      · exact Tree.keepsAt_layout ((List.prefix_append _ _).trans h) htree hle hin
      · exact Tree.keepsAt_layoutAll (Tree.layoutAll_behind h) htrees hbehind hlt

end

end Stretches

/-- **A sealed tree keeps at every number what the tree keeps.** -/
theorem keepsAt_seal {ended named : Prop} {tree : Tree} (h : tree.Keeps ended named) {id : Nat}
    (hid : id < tree.seal.size) : tree.seal.KeepsAt ended named id := by
  have hsize : tree.seal.size = tree.size := Tree.length_layout 0 tree
  refine Tree.keepsAt_layout (List.prefix_refl _) h (Nat.zero_le id) ?_
  rwa [Nat.zero_add, ← hsize]

/-- The root of a sealed tree is that of the tree. -/
lemma root_seal (tree : Tree) : tree.seal.kind? tree.seal.root = some tree.kind := by
  have h : tree.seal.kind? (0 + tree.size - 1) = some tree.kind :=
    Tree.kind?_of_layout (List.prefix_refl _)
  rwa [Nat.zero_add] at h

end Imperativo
