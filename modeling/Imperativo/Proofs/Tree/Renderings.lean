import Imperativo.Proofs.Tree.Unfolding
import Imperativo.Tree.Graph
import Imperativo.Tree.Outline

/-!
# The walk, the graph and the outline of a tree agree

The graph of a tree is drawn vertex by vertex, each with the edge that leads to it, while the walk
goes by a stack; and a node that is used more than once has a vertex for each use, so numbers of
nodes do not tell vertices.  What the two have in common is the order in which they come to the
nodes.  A graph draws such an order (`Graph.Draws`) when its vertices have the labels of the nodes
and each edge leads from the last node that is one level higher.  One more vertex keeps that as long
as no later node is at the level of its parent (`Graph.Draws.sprout`), and so does all that is drawn
below a vertex (`Graph.grows_addEach`).

* **`renderings_agree`** — walk, graph and outline have the same nodes in the same order.
-/

namespace Imperativo

variable {ast : Ast}

/-! ## Levels -/

/-- The level of the node that is visited as number `i`. -/
def levelAt (order : List (Nat × Nat)) (i : Nat) : Option Nat := order[i]?.map Prod.fst

section Levels

variable {order more : List (Nat × Nat)} {i k p d : Nat}

lemma levelAt_append (h : i < order.length) : levelAt (order ++ more) i = levelAt order i := by
  rw [levelAt, levelAt, List.getElem?_append_left h]

lemma lt_of_levelAt (h : levelAt order i = some d) : i < order.length := by
  obtain ⟨v, hv, -⟩ := Option.map_eq_some_iff.mp h
  exact (List.getElem?_eq_some_iff.mp hv).1

/-- Node `p` is at level `d`, and no node behind it is. -/
structure LastAt (order : List (Nat × Nat)) (d p : Nat) : Prop where
  level : levelAt order p = some d
  last : ∀ j, p < j → levelAt order j ≠ some d

/-- A node that is the last one of its level remains so when only others are visited. -/
lemma LastAt.append (h : LastAt order d p) (hmore : ∀ v ∈ more, v.1 ≠ d) :
    LastAt (order ++ more) d p where
  level := by
    rw [levelAt_append (lt_of_levelAt h.level)]
    exact h.level
  last j hj := by
    rcases lt_or_ge j order.length with hlt | hle
    · rw [levelAt_append hlt]
      exact h.last j hj
    · rw [levelAt, List.getElem?_append_right hle]
      intro hlevel
      obtain ⟨v, hv, hd⟩ := Option.map_eq_some_iff.mp hlevel
      exact hmore v (List.mem_of_getElem? hv) hd

/-- The node that is visited last is the last one of its level. -/
lemma lastAt_concat (order : List (Nat × Nat)) (d id : Nat) :
    LastAt (order ++ [(d, id)]) d order.length where
  level := by rw [levelAt, List.getElem?_concat_length]; rfl
  last j hj := by
    rw [levelAt, List.getElem?_eq_none (by rw [List.length_append, List.length_singleton]; omega)]
    exact nofun

/-- Up to node `k`, node `p` is the last one that is one level above the node behind node `k`. -/
structure LastAbove (order : List (Nat × Nat)) (p k : Nat) : Prop where
  le : p ≤ k
  above : ∃ d, levelAt order (k + 1) = some (d + 1) ∧ levelAt order p = some d ∧
    ∀ j, p < j → j ≤ k → levelAt order j ≠ some d

lemma LastAbove.append (h : LastAbove order p k) : LastAbove (order ++ more) p k := by
  obtain ⟨hle, d, hbehind, hlevel, hlast⟩ := h
  have hlt := lt_of_levelAt hbehind
  refine ⟨hle, d, ?_, ?_, fun j hj hjk => ?_⟩
  · rwa [levelAt_append hlt]
  · rwa [levelAt_append (by omega)]
  · rw [levelAt_append (by omega)]
    exact hlast j hj hjk

lemma LastAt.lastAbove (h : LastAt order d p) (id : Nat) (hk : order.length = k + 1) :
    LastAbove (order ++ [(d + 1, id)]) p k where
  le := by
    have := lt_of_levelAt h.level
    omega
  above := by
    refine ⟨d, ?_, ?_, fun j hj hjk => ?_⟩
    · rw [← hk]
      exact (lastAt_concat order (d + 1) id).level
    · rw [levelAt_append (lt_of_levelAt h.level)]
      exact h.level
    · rw [levelAt_append (by omega)]
      exact h.last j hj

end Levels

/-! ## Graphs of a walk -/

namespace Graph

/-- The number of edges that leave vertex `p`. -/
def leaving (edges : List Edge) (p : Nat) : Nat := edges.countP fun e => e.source == p

/-- The graph has a vertex for each node in `order`, labelled with what the node says, and an edge
to each vertex but the first.  The edge comes from the last vertex before it that is one level
higher, and carries the number of edges that left this vertex before. -/
structure Draws (ast : Ast) (order : List (Nat × Nat)) (g : Graph) : Prop where
  labels : List.Forall₂
    (fun v label => ∃ node, ast.node? v.2 = some node ∧ label = node.heading.text) order g.labels
  edges : g.edges.length + 1 = order.length
  edge : ∀ k e, g.edges[k]? = some e → e.target = k + 1 ∧ LastAbove order e.source k ∧
    e.place = leaving (g.edges.take k) e.source

variable {order below : List (Nat × Nat)} {g : Graph} {d vertex id : Nat} {node : Node}

lemma Draws.size_eq (h : g.Draws ast order) : g.size = order.length := h.labels.length_eq.symm

/-- No edge leaves a vertex that is not there yet. -/
lemma Draws.leaving_eq_zero (h : g.Draws ast order) : leaving g.edges order.length = 0 := by
  refine List.countP_eq_zero.mpr fun e he => ?_
  obtain ⟨k, hk⟩ := List.getElem?_of_mem he
  have hlt := (List.getElem?_eq_some_iff.mp hk).1
  have hle := (h.edge k e hk).2.1.le
  have hlength := h.edges
  simp only [beq_iff_eq]
  omega

lemma draws_single (h : ast.node? id = some node) :
    Draws ast [(0, id)] ⟨[node.heading.text], []⟩ where
  labels := .cons ⟨node, h, rfl⟩ .nil
  edges := rfl
  edge := nofun

lemma leaving_sprout (g : Graph) (label : Text) (place p : Nat) :
    leaving (g.sprout label vertex place).edges p =
      leaving g.edges p + if vertex = p then 1 else 0 := by
  rw [leaving, sprout, List.countP_append, List.countP_singleton]
  simp only [beq_iff_eq]
  rfl

/-- **One more vertex** below the last one of its level draws one more node. -/
lemma Draws.sprout (h : g.Draws ast order) (hlast : LastAt order d vertex)
    (hnode : ast.node? id = some node) :
    (g.sprout node.heading.text vertex (leaving g.edges vertex)).Draws ast
      (order ++ [(d + 1, id)]) where
  labels := List.rel_append h.labels (.cons ⟨node, hnode, rfl⟩ .nil)
  edges := by
    rw [Graph.sprout, List.length_append, List.length_append, ← h.edges]
    rfl
  edge k e he := by
    have hlength := h.edges
    rcases lt_trichotomy k g.edges.length with hlt | rfl | hgt
    · rw [Graph.sprout, List.getElem?_append_left hlt] at he
      obtain ⟨htarget, habove, hplace⟩ := h.edge k e he
      rw [Graph.sprout, List.take_append_of_le_length hlt.le]
      exact ⟨htarget, habove.append, hplace⟩
    · rw [Graph.sprout, List.getElem?_concat_length] at he
      cases he
      rw [Graph.sprout, List.take_left]
      exact ⟨h.size_eq.trans hlength.symm, hlast.lastAbove id hlength.symm, rfl⟩
    · rw [Graph.sprout, List.getElem?_eq_none
        (by rw [List.length_append, List.length_singleton]; omega)] at he
      cases he

/-! ## Graphs that grow -/

/-- The graph `g'` draws what `g` does and behind that the nodes `below`.  Of the vertices of `g`
only `vertex` has more edges than before, `count` of them. -/
structure Grows (ast : Ast) (order below : List (Nat × Nat)) (vertex count : Nat) (g g' : Graph) :
    Prop where
  draws : g'.Draws ast (order ++ below)
  leaving : ∀ p < order.length,
    leaving g'.edges p = leaving g.edges p + if vertex = p then count else 0

variable {more : List (Nat × Nat)} {v : Nat × Nat} {count count' : Nat} {g' g'' : Graph}

lemma Draws.grows (h : g.Draws ast order) (vertex : Nat) : Grows ast order [] vertex 0 g g where
  draws := by rwa [List.append_nil]
  leaving p _ := by rw [ite_self]; rfl

lemma Draws.grows_sprout (h : g.Draws ast order) (hlast : LastAt order d vertex)
    (hnode : ast.node? id = some node) : Grows ast order [(d + 1, id)] vertex 1 g
      (g.sprout node.heading.text vertex (Graph.leaving g.edges vertex)) where
  draws := h.sprout hlast hnode
  leaving p _ := leaving_sprout g _ _ p

/-- More nodes below the same vertex. -/
lemma Grows.trans (h : Grows ast order below vertex count g g')
    (h' : Grows ast (order ++ below) more vertex count' g' g'') :
    Grows ast order (below ++ more) vertex (count + count') g g'' where
  draws := by
    rw [← List.append_assoc]
    exact h'.draws
  leaving p hp := by
    rw [h'.leaving p (by rw [List.length_append]; omega), h.leaving p hp]
    split <;> omega

/-- Nodes below the vertex that has been added; its edges are not counted. -/
lemma Grows.graft (h : Grows ast order [v] vertex count g g')
    (h' : Grows ast (order ++ [v]) below order.length count' g' g'') :
    Grows ast order (v :: below) vertex count g g'' where
  draws := by
    rw [List.append_cons]
    exact h'.draws
  leaving p hp := by
    rw [h'.leaving p (by rw [List.length_append]; omega), if_neg hp.ne', h.leaving p hp]
    rfl

/-! ## What is drawn below a vertex -/

/-- The graph with vertices for the nodes `ids` below `vertex`, the first of them in the given
place, and for what is below these. -/
def addEach (ast : Ast) (bound vertex : Nat) (ids : List Nat) (place : Nat) (g : Graph) : Graph :=
  (ids.zipIdx place).foldl (fun g (child, place) =>
    if child < bound then addChildren ast child g.size (g.sprout (ast.label child) vertex place)
    else g) g

lemma addChildren_eq (h : ast.node? id = some node) (vertex : Nat) (g : Graph) :
    addChildren ast id vertex g = addEach ast id vertex node.children 0 g := by
  rw [addChildren, h]
  rfl

lemma addEach_cons {bound : Nat} (h : ast.node? id = some node) (hlt : id < bound)
    (ids : List Nat) (place : Nat) (g : Graph) : addEach ast bound vertex (id :: ids) place g =
      addEach ast bound vertex ids (place + 1) (addEach ast id g.size node.children 0
        (g.sprout node.heading.text vertex place)) := by
  have hlabel : ast.label id = node.heading.text := by rw [Ast.label, h]
  rw [addEach, List.zipIdx_cons, List.foldl_cons]
  simp only [if_pos hlt]
  rw [addChildren_eq h, hlabel]
  rfl

/-- **What is drawn below a vertex is what unfolds from the nodes below it**, with an edge from the
vertex to each of those nodes. -/
theorem grows_addEach (hfirst : ChildFirst ast.nodes) {depth bound : Nat} {ids : List Nat}
    (hunfolds : ast.Unfolds depth ids below) (hdepth : depth = d + 1)
    (hbound : ∀ id ∈ ids, id < bound) (h : g.Draws ast order) (hlast : LastAt order d vertex) :
    Grows ast order below vertex ids.length g
      (addEach ast bound vertex ids (leaving g.edges vertex) g) := by
  induction hunfolds generalizing g order d vertex bound with
  | nil => exact h.grows vertex
  | @cons depth id ids node below behind hnode hbelow _ ihbelow ihbehind =>
      subst hdepth
      rw [List.forall_mem_cons] at hbound
      have hlt := lt_of_levelAt hlast.level
      have hsprout := h.grows_sprout hlast hnode
      -- the new vertex is the last one of its level and has no edges yet
      have hnew := lastAt_concat order (d + 1) id
      have hnone : leaving (g.sprout node.heading.text vertex (leaving g.edges vertex)).edges
          order.length = 0 := by
        rw [leaving_sprout, h.leaving_eq_zero, if_neg hlt.ne]
      rw [addEach_cons hnode hbound.1, h.size_eq]
      generalize g.sprout node.heading.text vertex (leaving g.edges vertex) = g₁
        at hsprout hnone ⊢
      have hbelow' := ihbelow rfl (hfirst id node hnode) hsprout.draws hnew
      rw [hnone] at hbelow'
      generalize addEach ast id order.length node.children 0 g₁ = g₂ at hbelow' ⊢
      have htree := hsprout.graft hbelow'
      -- below the new vertex nothing is at its level, so `vertex` is still the last one of its own
      have hlast' : LastAt (order ++ (d + 1, id) :: below) d vertex :=
        hlast.append (List.forall_mem_cons.mpr ⟨Nat.succ_ne_self d, fun v hv => by
          have := hbelow.depth_le v hv
          omega⟩)
      have hplace := htree.leaving vertex hlt
      rw [if_pos rfl] at hplace
      have hbehind' := ihbehind rfl hbound.2 htree.draws hlast'
      rw [hplace] at hbehind'
      rw [List.length_cons, Nat.add_comm ids.length]
      exact htree.trans hbehind'

end Graph

/-! ## Agreement -/

/-- The line of an outline for a node: two blanks for each level, and what the node says. -/
def outlineLineOf (level : Nat) (heading : Heading) : Text :=
  List.replicate (2 * level) ' ' ++ heading.text ++ ['\n']

lemma Ast.Unfolds.exists_node {depth : Nat} {ids : List Nat} {order : List (Nat × Nat)}
    (h : ast.Unfolds depth ids order) : ∀ v ∈ order, ∃ node, ast.node? v.2 = some node := by
  induction h with
  | nil => exact nofun
  | cons h _ _ ihbelow ihbehind =>
      exact List.forall_mem_cons.mpr ⟨⟨_, h⟩, List.forall_mem_append.mpr ⟨ihbelow, ihbehind⟩⟩

/-- **The graph of a tree draws the walk from its root.** -/
theorem Graph.draws_ofAst (hfirst : ChildFirst ast.nodes) (hroot : ast.root < ast.size) :
    (Graph.ofAst ast).Draws ast ast.preorder := by
  have hunfolds := (Ast.unfolds_iff hfirst hroot ast.preorder).mpr rfl
  generalize ast.preorder = order at hunfolds
  cases hunfolds with
  | @cons _ _ _ node below _ hnode hbelow hbehind =>
      cases hbehind
      have hgrows := grows_addEach hfirst hbelow rfl (hfirst _ node hnode)
        (draws_single hnode) (lastAt_concat [] 0 ast.root)
      rw [Graph.ofAst, hnode, List.append_nil]
      change (addChildren ast ast.root 0 _).Draws ast _
      rw [addChildren_eq hnode]
      exact hgrows.draws

/-- **The renderings of a tree agree.**  Of a tree whose children were added before their parents,
with any node as its root, the walk visits what unfolds from the root; the graph draws the nodes
that are visited, in their order; and the outline has a line for each of them, in their order. -/
theorem renderings_agree (a : Arena) (root : Nat) (hfirst : ChildFirst a.nodes)
    (hroot : root < a.size) :
    (∀ order, (a.finish root).Unfolds 0 [root] order ↔ order = (a.finish root).preorder) ∧
    (Graph.ofAst (a.finish root)).Draws (a.finish root) (a.finish root).preorder ∧
    ∃ lines, (a.finish root).outline = lines.flatten ∧
      List.Forall₂ (fun v line => ∃ node, (a.finish root).node? v.2 = some node ∧
        line = outlineLineOf v.1 node.heading) (a.finish root).preorder lines := by
  have hunfolds (order : List (Nat × Nat)) : (a.finish root).Unfolds 0 [root] order ↔
      order = (a.finish root).preorder := Ast.unfolds_iff hfirst hroot order
  refine ⟨hunfolds, Graph.draws_ofAst hfirst hroot, _, List.flatMap_def .., ?_⟩
  rw [List.forall₂_map_right_iff, List.forall₂_same]
  rintro ⟨level, id⟩ hv
  obtain ⟨node, hnode⟩ := ((hunfolds _).mpr rfl).exists_node (level, id) hv
  refine ⟨node, hnode, ?_⟩
  change (a.finish root).outlineLine level id = outlineLineOf level node.heading
  rw [Ast.outlineLine, Ast.label, hnode]
  rfl

/-- The product of `x + x` and `x`, where all three are one node, and behind it a node that is not
part of the tree. -/
theorem renderings_agree_shared :
    let heading kind label : Heading := ⟨kind, label, ⟨1, 1⟩⟩
    let a : Arena := ⟨[⟨heading .variable (some ['x']), []⟩, ⟨heading (.binary .add) none, [0, 0]⟩,
      ⟨heading (.binary .mul) none, [1, 0]⟩, ⟨heading .terminate none, []⟩]⟩
    ChildFirst a.nodes ∧ 2 < a.size ∧
      (a.finish 2).preorder = [(0, 2), (1, 1), (2, 0), (2, 0), (1, 0)] ∧
      (Graph.ofAst (a.finish 2)).Draws (a.finish 2) (a.finish 2).preorder := by
  intro heading a
  have hfirst : ChildFirst a.nodes := by decide
  have hroot : 2 < a.size := by decide
  obtain ⟨hunfolds, hdraws, -⟩ := renderings_agree a 2 hfirst hroot
  have hvariable (depth : Nat) : (a.finish 2).Unfolds depth [0] [(depth, 0)] :=
    @Ast.Unfolds.cons _ depth 0 [] _ [] [] rfl .nil .nil
  have hsum : (a.finish 2).Unfolds 2 [0, 0] [(2, 0), (2, 0)] :=
    @Ast.Unfolds.cons _ 2 0 [0] _ [] [(2, 0)] rfl .nil (hvariable 2)
  have hfactors : (a.finish 2).Unfolds 1 [1, 0] [(1, 1), (2, 0), (2, 0), (1, 0)] :=
    @Ast.Unfolds.cons _ 1 1 [0] _ [(2, 0), (2, 0)] [(1, 0)] rfl hsum (hvariable 1)
  have hproduct : (a.finish 2).Unfolds 0 [2] [(0, 2), (1, 1), (2, 0), (2, 0), (1, 0)] :=
    @Ast.Unfolds.cons _ 0 2 [] _ [(1, 1), (2, 0), (2, 0), (1, 0)] [] rfl hfactors .nil
  exact ⟨hfirst, hroot, ((hunfolds _).mp hproduct).symm, hdraws⟩

end Imperativo
