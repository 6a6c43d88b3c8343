import Imperativo.Proofs.Building.Program
import Imperativo.Proofs.Tree.Unfolding

/-!
# Equal shape and equality

Two finished trees have the same shape when their nodes say the same from the roots down, however
they are numbered.  They are equal when the same nodes stand under the same numbers, whether they are
used or not.  What decides about the shape is the tree that a root spans (`Spans`): numbers are gone
from it, shared nodes stand in it once for every use, and unused ones are not in it at all.

* **`Ast.sameShape_iff`** — trees have the same shape exactly if their roots span one tree.
* **`sameShape_sound`** — so having the same shape is an equivalence.  A parse numbers the nodes by
  the tree alone, so of parsed trees it is equality; of other trees it may not be, and where a node
  is shared or unused it never is.
-/

namespace Imperativo

variable {nodes xs ys : List Node} {ids ids' : List Nat} {trees trees' : List Tree} {s t : Tree}

/-! ## The tree that a node spans -/

/-- The nodes `ids` span the trees, one each: a node spans its heading over what its children
span. -/
inductive Spans (nodes : List Node) : List Nat → List Tree → Prop
  | nil : Spans nodes [] []
  | cons {id : Nat} {ids : List Nat} {node : Node} {below behind : List Tree}
      (h : nodes[id]? = some node) (hbelow : Spans nodes node.children below)
      (hbehind : Spans nodes ids behind) :
      Spans nodes (id :: ids) (.node node.heading below :: behind)

namespace Spans

lemma unique (h : Spans nodes ids trees) (h' : Spans nodes ids trees') : trees = trees' := by
  induction h generalizing trees' with
  | nil =>
      cases h'
      rfl
  | cons h _ _ ihbelow ihbehind =>
      cases h' with
      | cons h' hbelow' hbehind' =>
          obtain rfl := Option.some.inj (h.symm.trans h')
          rw [ihbelow hbelow', ihbehind hbehind']

/-- Nodes span trees together if each of them spans one. -/
lemma exists_of_forall (h : ∀ id ∈ ids, ∃ tree, Spans nodes [id] [tree]) :
    ∃ trees, Spans nodes ids trees := by
  induction ids with
  | nil => exact ⟨[], .nil⟩
  | cons id ids ih =>
      rw [List.forall_mem_cons] at h
      obtain ⟨tree, htree⟩ := h.1
      obtain ⟨behind, hbehind⟩ := ih h.2
      cases htree with
      | cons hnode hbelow _ => exact ⟨_, .cons hnode hbelow hbehind⟩

end Spans

/-- Every node spans a tree, where children have smaller numbers than their parents. -/
lemma exists_spans (h : ChildFirst nodes) {id : Nat} (hid : id < nodes.length) :
    ∃ tree, Spans nodes [id] [tree] := by
  induction id using Nat.strong_induction_on with
  | _ id ih =>
      have hnode : nodes[id]? = some nodes[id] := List.getElem?_eq_getElem hid
      obtain ⟨below, hbelow⟩ := Spans.exists_of_forall fun child hchild =>
        have hlt := h id _ hnode child hchild
        ih child hlt (hlt.trans hid)
      exact ⟨_, .cons hnode hbelow .nil⟩

/-! ## Comparing nodes is comparing what they span -/

/-- One step of the comparison. -/
lemma alike_step {i j : Nat} {x y : Node} (hx : xs[i]? = some x) (hy : ys[j]? = some y)
    (hfirst : ∀ child ∈ x.children, child < i) : alike xs ys i j = true ↔
      x.heading = y.heading ∧
        List.Forall₂ (fun l r => alike xs ys l r = true) x.children y.children := by
  have hall : ((x.children.zip y.children).all fun pair =>
      if pair.1 < i then alike xs ys pair.1 pair.2 else false) = true ↔
        ∀ {l r}, (l, r) ∈ x.children.zip y.children → alike xs ys l r = true := by
    rw [List.all_eq_true]
    constructor
    · intro h l r hpair
      have hlt := hfirst l (List.of_mem_zip hpair).1
      simpa [hlt] using h (l, r) hpair
    · rintro h ⟨l, r⟩ hpair
      have hlt := hfirst l (List.of_mem_zip hpair).1
      simpa [hlt] using h hpair
  rw [alike, hx, hy]
  simp only [dite_eq_ite, Bool.and_eq_true, beq_iff_eq, hall, List.forall₂_iff_zip, and_assoc]

lemma forall₂_alike_iff (hfirst : ChildFirst xs) (h : Spans xs ids trees)
    (h' : Spans ys ids' trees') :
    List.Forall₂ (fun i j => alike xs ys i j = true) ids ids' ↔ trees = trees' := by
  induction h generalizing ids' trees' with
  | nil => cases h' <;> simp
  | @cons i ids x below behind hx _ _ ihbelow ihbehind =>
      cases h' with
      | nil => simp
      | cons hy hbelow' hbehind' =>
          rw [List.forall₂_cons, alike_step hx hy (hfirst i x hx), ihbelow hbelow',
            ihbehind hbehind', List.cons.injEq, Tree.node.injEq]

/-! ## Trees on their own ground -/

namespace Ast

/-- Children have smaller numbers than their parents, and the root is the number of a node. -/
structure Grounded (ast : Ast) : Prop where
  childFirst : ChildFirst ast.nodes
  root_lt : ast.root < ast.size

variable {a b c : Ast}

/-- **Two trees have the same shape exactly if their roots span one tree.** -/
theorem sameShape_iff (ha : a.Grounded) (hs : Spans a.nodes [a.root] [s])
    (ht : Spans b.nodes [b.root] [t]) : a.sameShape b = true ↔ s = t := by
  have h := forall₂_alike_iff ha.childFirst hs ht
  rwa [List.forall₂_cons, List.forall₂_nil_left_iff, eq_self, and_true, List.cons.injEq, eq_self,
    and_true] at h

lemma Grounded.exists_spans (h : a.Grounded) : ∃ tree, Spans a.nodes [a.root] [tree] :=
  Imperativo.exists_spans h.childFirst h.root_lt

/-- Having the same shape is an equivalence. -/
lemma sameShape_equivalence :
    Equivalence fun a b : { ast : Ast // ast.Grounded } => a.1.sameShape b.1 = true where
  refl a := by
    obtain ⟨s, hs⟩ := a.2.exists_spans
    exact (sameShape_iff a.2 hs hs).mpr rfl
  symm {a b} h := by
    obtain ⟨s, hs⟩ := a.2.exists_spans
    obtain ⟨t, ht⟩ := b.2.exists_spans
    exact (sameShape_iff b.2 ht hs).mpr ((sameShape_iff a.2 hs ht).mp h).symm
  trans {a b c} h h' := by
    obtain ⟨s, hs⟩ := a.2.exists_spans
    obtain ⟨t, ht⟩ := b.2.exists_spans
    obtain ⟨u, hu⟩ := c.2.exists_spans
    have hst := (sameShape_iff a.2 hs ht).mp h
    exact (sameShape_iff a.2 hs hu).mpr (hst.trans ((sameShape_iff b.2 ht hu).mp h'))

end Ast

/-- Where nodes are listed child first, children have smaller numbers than their parents. -/
lemma PostOrdered.grounded {ast : Ast} (h : PostOrdered ast) : ast.Grounded where
  childFirst id node hnode := by
    obtain ⟨first, -, hblock, -⟩ := h.blocks id (List.getElem?_eq_some_iff.mp hnode).1
    cases hblock with
    | cons hnode' hbelow _ =>
        obtain rfl := Option.some.inj (hnode'.symm.trans hnode)
        exact hbelow.lt_of_mem
  root_lt := by
    have hlast := h.root_last
    omega

/-! ## Sealed trees -/

mutual

/-- A tree is spanned by its root where it was laid out. -/
lemma Tree.spans_layout {ast : Ast} {base : Nat} :
    ∀ {tree : Tree}, tree.layout base <+: ast.nodes.drop base →
      Spans ast.nodes [base + tree.size - 1] [tree]
  | .node _ _, h =>
      .cons (Tree.node?_of_layout h) (Tree.spans_layoutAll ((List.prefix_append _ _).trans h)) .nil

/-- Trees are spanned by their roots where they were laid out. -/
lemma Tree.spans_layoutAll {ast : Ast} {base : Nat} :
    ∀ {trees : List Tree}, Tree.layoutAll base trees <+: ast.nodes.drop base →
      Spans ast.nodes (Tree.roots base trees) trees
  | [], _ => .nil
  | _ :: _, h => by
      have htree := Tree.spans_layout ((List.prefix_append _ _).trans h)
      have hbehind := Tree.spans_layoutAll (Tree.layoutAll_behind h)
      cases htree with
      | cons hnode hbelow _ => exact .cons hnode hbelow hbehind

end

lemma Tree.spans_seal (tree : Tree) : Spans tree.seal.nodes [tree.seal.root] [tree] := by
  have h : Spans tree.seal.nodes [0 + tree.size - 1] [tree] :=
    Tree.spans_layout (List.prefix_refl _)
  rw [Nat.zero_add] at h
  exact h

lemma Tree.sameShape_seal (s t : Tree) : s.seal.sameShape t.seal = true ↔ s.seal = t.seal := by
  rw [Ast.sameShape_iff (postOrdered_seal s).grounded s.spans_seal t.spans_seal]
  constructor
  · rintro rfl
    rfl
  · intro h
    have hspans := s.spans_seal
    rw [h] at hspans
    exact (List.cons.inj (hspans.unique t.spans_seal)).1

/-! ## Shape and equality -/

/-- **Equal shape.**  Parsed trees have the same shape exactly if they are equal.  On trees whose
children have smaller numbers than their parents, having the same shape is an equivalence.  A tree
with a node that is not reached from the root, or along more than one path, has the same shape as
another one that it is not equal to. -/
theorem sameShape_sound :
    (∀ ts entry ts' entry' a b, ((Parser.ofTokens ts).parse entry).ast? = some a →
      ((Parser.ofTokens ts').parse entry').ast? = some b → (a.sameShape b = true ↔ a = b)) ∧
    (Equivalence fun a b : { ast : Ast // ast.Grounded } => a.1.sameShape b.1 = true) ∧
    ∀ a : Ast, a.Grounded → (∃ id < a.size, ¬ ∃! path, a.follow a.root path = some id) →
      ∃ b : Ast, b.Grounded ∧ a.sameShape b = true ∧ a ≠ b := by
  refine ⟨?_, Ast.sameShape_equivalence, ?_⟩
  · intro ts entry ts' entry' a b ha hb
    obtain ⟨-, s, -, rfl⟩ := parse_postOrdered ts entry a ha
    obtain ⟨-, t, -, rfl⟩ := parse_postOrdered ts' entry' b hb
    exact s.sameShape_seal t
  · rintro a ha ⟨id, hid, hpath⟩
    obtain ⟨tree, htree⟩ := ha.exists_spans
    refine ⟨tree.seal, (postOrdered_seal tree).grounded, ?_, ?_⟩
    · exact (Ast.sameShape_iff ha htree tree.spans_seal).mpr rfl
    · -- of a sealed tree every node is reached along one path
      rintro rfl
      exact hpath ((postOrdered_seal tree).one_path id hid)

/-- A sum and a difference that were parsed differ in shape; a sum whose operands are one node has
the shape of a tree that it is not equal to. -/
theorem sameShape_sound_shared :
    let parsed (op : Arithmetic) : Option Ast :=
      ((Parser.ofTokens ([.identifier, .arithmetic op, .identifier].map Kind.token)).parse
        .expression).ast?
    let heading (kind : NodeKind) (label : Option Text) : Heading := ⟨kind, label, Position.start⟩
    let operand : Node := ⟨heading .variable (some []), []⟩
    let tree (op : Arithmetic) : Ast := ⟨[operand, operand, ⟨heading (.binary op) none, [0, 1]⟩], 2⟩
    let shared : Ast := ⟨[operand, ⟨heading (.binary .add) none, [0, 0]⟩], 1⟩
    parsed .add = some (tree .add) ∧ parsed .sub = some (tree .sub) ∧
      (tree .add).sameShape (tree .sub) = false ∧ shared.Grounded ∧
      ∃ b : Ast, b.Grounded ∧ shared.sameShape b = true ∧ shared ≠ b := by
  intro parsed heading operand tree shared
  obtain ⟨hparsed, -, hother⟩ := sameShape_sound
  have hadd : parsed .add = some (tree .add) := by decide +kernel
  have hsub : parsed .sub = some (tree .sub) := by decide +kernel
  have hne : tree .add ≠ tree .sub := by decide
  have hshape := hparsed _ _ _ _ _ _ hadd hsub
  have hshared : shared.Grounded := ⟨by decide, by decide⟩
  refine ⟨hadd, hsub, ?_, hshared, hother shared hshared ⟨0, by decide, ?_⟩⟩
  · rw [Bool.eq_false_iff, ne_eq, hshape]
    exact hne
  · intro hpath
    have hleft : shared.follow shared.root [0] = some 0 := rfl
    have hright : shared.follow shared.root [1] = some 0 := rfl
    cases hpath.unique hleft hright

end Imperativo
