import Imperativo.Proofs.Text.Reading
import Imperativo.Proofs.Tree.Move
import Imperativo.Proofs.Tree.PostOrder
import Imperativo.Proofs.Tree.Renderings

/-!
# Outlines are read back

An outline says of each node its level, its kind and its label.  Three things could make it
ambiguous.  A label with a newline in it would be more than one line; so labels must have none.  The
blanks in front of a line could run together with what the node says; they do not, as that begins
with the name of a kind.  And the end of that name could be mistaken; it is not, as names have no
colon, whatever the labels behind them have (`readRow_outlineRow`).

That levels tell which nodes are children of which does not depend on the lines: read from the back,
the trees that are complete so far are known with their levels, and a node takes those that are
deeper than itself, up to the first that is not (`gather`).

* **`readOutline_seal`** — from the outline of a tree whose labels have no newlines the tree is read
  back, but for its places.
-/

namespace Imperativo

variable {ast : Ast} {base : Nat}

/-! ## Levels -/

mutual

/-- The headings of a tree with their levels, parents first, the root being at a given level. -/
def Tree.levels (level : Nat) : Tree → List (Nat × Heading)
  | .node heading children => (level, heading) :: Tree.levelsAll (level + 1) children

/-- The headings of several trees with their levels, one tree after another. -/
def Tree.levelsAll (level : Nat) : List Tree → List (Nat × Heading)
  | [] => []
  | tree :: trees => tree.levels level ++ Tree.levelsAll level trees

end

/-- The heading of the node with number `id`. -/
def Ast.heading? (ast : Ast) (id : Nat) : Option Heading := (ast.node? id).map Node.heading

mutual

/-- A tree is walked where it was laid out. -/
lemma Tree.walk_layout {base level : Nat} :
    ∀ {tree : Tree}, tree.layout base <+: ast.nodes.drop base →
      (walk ast.nodes level (base + tree.size - 1)).map (fun v => (v.1, ast.heading? v.2)) =
        (tree.levels level).map fun v => (v.1, some v.2)
  | .node heading children, h => by
      have hnode := Tree.node?_of_layout h
      have hchildren : Tree.layoutAll base children <+: ast.nodes.drop base :=
        (List.prefix_append _ _).trans h
      have hroot : base + (Tree.node heading children).size - 1 =
          base + Tree.sizeAll children := rfl
      rw [hroot, Listed.walk_eq hnode (Tree.listed_layoutAll hchildren), Tree.levels,
        List.map_cons, Tree.walk_layoutAll hchildren, List.map_cons, Ast.heading?, hnode]
      rfl

/-- Trees are walked where they were laid out, one behind another. -/
lemma Tree.walk_layoutAll {base level : Nat} :
    ∀ {trees : List Tree}, Tree.layoutAll base trees <+: ast.nodes.drop base →
      ((Tree.roots base trees).flatMap fun id => walk ast.nodes level id).map
          (fun v => (v.1, ast.heading? v.2)) =
        (Tree.levelsAll level trees).map fun v => (v.1, some v.2)
  | [], _ => rfl
  | tree :: trees, h => by
      have htree : tree.layout base <+: ast.nodes.drop base := (List.prefix_append _ _).trans h
      rw [Tree.roots, List.flatMap_cons, List.map_append, Tree.walk_layout htree,
        Tree.walk_layoutAll (Tree.layoutAll_behind h), Tree.levelsAll, List.map_append]

end

/-- The walk through a sealed tree meets the headings of the tree. -/
lemma Tree.preorder_seal (tree : Tree) :
    tree.seal.preorder.map (fun v => (v.1, tree.seal.heading? v.2)) =
      (tree.levels 0).map fun v => (v.1, some v.2) := by
  have hroot : tree.seal.root = 0 + tree.size - 1 := by rw [Nat.zero_add]; rfl
  rw [Ast.preorder_eq, hroot]
  exact Tree.walk_layout (List.prefix_refl _)

/-! ## Lines -/

/-- The line of an outline for a node, without its newline. -/
def outlineRow (level : Nat) (heading : Heading) : Text :=
  List.replicate (2 * level) ' ' ++ heading.text

/-- **The lines of the outline of a sealed tree.** -/
theorem outline_seal (tree : Tree) : tree.seal.outline =
    Text.written ((tree.levels 0).map fun v => outlineRow v.1 v.2) := by
  have hline (v : Nat × Nat) : tree.seal.outlineLine v.1 v.2 =
      List.replicate (2 * v.1) ' ' ++ ((tree.seal.heading? v.2).map Heading.text).getD [] ++
        ['\n'] := by
    rw [Ast.outlineLine, Ast.label, Ast.heading?]
    cases tree.seal.node? v.2 <;> rfl
  have hlevels := congrArg (List.flatMap fun (v : Nat × Option Heading) =>
    List.replicate (2 * v.1) ' ' ++ (v.2.map Heading.text).getD [] ++ ['\n']) tree.preorder_seal
  simp only [List.flatMap_map] at hlevels
  simp only [Ast.outline, hline, hlevels, Text.written, List.flatMap_map, outlineRow,
    Option.map_some, Option.getD_some]

/-- A name of a kind is that of one kind only, and it has neither blanks, nor colons, nor
newlines. -/
lemma NodeKind.name_spec (kind : NodeKind) : NodeKind.ofName? kind.name = some kind ∧
    kind.name.toList ≠ [] ∧ ∀ c ∈ kind.name.toList, c ≠ ' ' ∧ c ≠ ':' ∧ c ≠ '\n' := by
  have hmem : kind ∈ NodeKind.all := by
    cases kind with
    | binary op => cases op <;> simp [NodeKind.all]
    | _ => simp [NodeKind.all]
  have hall : ∀ kind ∈ NodeKind.all, NodeKind.ofName? kind.name = some kind ∧
      kind.name.toList ≠ [] ∧
      (kind.name.toList.all fun c => c != ' ' && c != ':' && c != '\n') = true := by decide
  obtain ⟨hread, hne, hchars⟩ := hall kind hmem
  refine ⟨hread, hne, fun c hc => ?_⟩
  simpa [and_assoc] using List.all_eq_true.mp hchars c hc

lemma newline_notMem_outlineRow (level : Nat) {heading : Heading}
    (h : ∀ label ∈ heading.label, '\n' ∉ label) : '\n' ∉ outlineRow level heading := by
  obtain ⟨kind, label, place⟩ := heading
  have hname : '\n' ∉ kind.name.toList := fun hmem => (kind.name_spec.2.2 _ hmem).2.2 rfl
  cases label with
  | none => simp [outlineRow, Heading.text, hname]
  | some label =>
      have hlabel : '\n' ∉ label := h label rfl
      simp [outlineRow, Heading.text, hname, hlabel]

/-- The level and the heading of a line; the place of the node is not written. -/
def readRow (line : Text) : Option (Nat × Heading) :=
  let level := (line.takeWhile (· == ' ')).length / 2
  let said := line.dropWhile (· == ' ')
  (NodeKind.ofName? (String.ofList (said.takeWhile (· != ':')))).bind fun kind =>
    match said.dropWhile (· != ':') with
    | [] => some (level, ⟨kind, none, Position.start⟩)
    | ':' :: ' ' :: label => some (level, ⟨kind, some label, Position.start⟩)
    | _ => none

/-- **A line is read back**, whatever characters the label has. -/
theorem readRow_outlineRow (level : Nat) (heading : Heading) :
    readRow (outlineRow level heading) = some (level, heading.move fun _ => Position.start) := by
  obtain ⟨kind, label, place⟩ := heading
  obtain ⟨hkind, hne, hname⟩ := kind.name_spec
  -- what stands behind the name is nothing, or a colon and the label
  obtain ⟨behind, hbehind⟩ : ∃ behind, behind = (label.map fun l => ':' :: ' ' :: l).getD [] :=
    ⟨_, rfl⟩
  have htext : Heading.text ⟨kind, label, place⟩ = kind.name.toList ++ behind := by
    cases label <;> simp [Heading.text, hbehind]
  have hblanks : ∀ c ∈ List.replicate (2 * level) ' ', (c == ' ') = true := by simp
  have hfront : (kind.name.toList ++ behind).takeWhile (· == ' ') = [] ∧
      (kind.name.toList ++ behind).dropWhile (· == ' ') = kind.name.toList ++ behind := by
    obtain ⟨c, more, hcons⟩ := List.exists_cons_of_ne_nil hne
    have hc : c ≠ ' ' := (hname c (by simp [hcons])).1
    simp [hcons, hc]
  have hinside : ∀ c ∈ kind.name.toList, (c != ':') = true := by
    intro c hc
    simpa using (hname c hc).2.1
  have hcolon : behind.takeWhile (· != ':') = [] ∧ behind.dropWhile (· != ':') = behind := by
    cases label <;> simp [hbehind]
  simp only [readRow, outlineRow, htext, List.takeWhile_append_of_pos hblanks,
    List.dropWhile_append_of_pos hblanks, hfront, List.takeWhile_append_of_pos hinside,
    List.dropWhile_append_of_pos hinside, hcolon, List.append_nil, String.ofList_toList, hkind,
    Option.bind_some, List.length_replicate, Nat.mul_div_cancel_left level Nat.two_pos]
  cases label <;> simp [hbehind, Heading.move]

/-! ## Trees from levels -/

/-- The trees that levels and headings describe, each with its level.  A node has the trees behind
it that are deeper than itself as children, up to the first tree that is not. -/
def gather : List (Nat × Heading) → List (Nat × Tree)
  | [] => []
  | (level, heading) :: rest =>
    let behind := gather rest
    (level, .node heading ((behind.takeWhile fun v => level < v.1).map Prod.snd)) ::
      behind.dropWhile fun v => level < v.1

mutual

/-- The levels of a tree describe it, if what follows is not deeper than its root. -/
lemma gather_levels {level : Nat} {rest : List (Nat × Heading)}
    (h : ∀ v ∈ (gather rest).head?, v.1 ≤ level) :
    ∀ tree : Tree, gather (tree.levels level ++ rest) = (level, tree) :: gather rest
  | .node heading children => by
      have hbehind : gather (Tree.levelsAll (level + 1) children ++ rest) =
          children.map (level + 1, ·) ++ gather rest :=
        gather_levelsAll (fun v hv => (h v hv).trans (Nat.le_succ level)) children
      have hrest : ((gather rest).takeWhile fun v => level < v.1) = [] ∧
          ((gather rest).dropWhile fun v => level < v.1) = gather rest := by
        cases hgather : gather rest with
        | nil => simp
        | cons v more =>
            have hv : ¬ level < v.1 := Nat.not_lt.mpr (h v (by simp [hgather]))
            simp [hv]
      have hdeeper : ∀ v ∈ children.map (level + 1, ·), decide (level < v.1) = true := by simp
      rw [Tree.levels, List.cons_append, gather, hbehind]
      simp only [List.takeWhile_append_of_pos hdeeper, List.dropWhile_append_of_pos hdeeper, hrest]
      simp

/-- The levels of trees describe these, if what follows is not deeper than their roots. -/
lemma gather_levelsAll {level : Nat} {rest : List (Nat × Heading)}
    (h : ∀ v ∈ (gather rest).head?, v.1 ≤ level) : ∀ trees : List Tree,
      gather (Tree.levelsAll level trees ++ rest) = trees.map (level, ·) ++ gather rest
  | [] => rfl
  | tree :: trees => by
      have htrees := gather_levelsAll h trees
      rw [Tree.levelsAll, List.append_assoc, gather_levels _ tree, htrees]
      · rfl
      · rw [htrees]
        cases trees with
        | nil => exact h
        | cons => simp

end

/-- Reads a tree from its outline. -/
def readOutline (outline : Text) : Option Tree :=
  match gather ((outline.splitOn '\n').filterMap readRow) with
  | [(0, tree)] => some tree
  | _ => none

/-! ## Reading outlines -/

mutual

lemma Tree.levels_move (g : Position → Position) (level : Nat) : ∀ tree : Tree,
    (tree.move g).levels level = (tree.levels level).map fun v => (v.1, v.2.move g)
  | .node heading children => by
      rw [Tree.move, Tree.levels, Tree.levelsAll_moveEach g (level + 1) children, Tree.levels,
        List.map_cons]

lemma Tree.levelsAll_moveEach (g : Position → Position) (level : Nat) : ∀ trees : List Tree,
    Tree.levelsAll level (Tree.moveEach g trees) =
      (Tree.levelsAll level trees).map fun v => (v.1, v.2.move g)
  | [] => rfl
  | tree :: trees => by
      rw [Tree.moveEach, Tree.levelsAll, Tree.levels_move g level tree,
        Tree.levelsAll_moveEach g level trees, Tree.levelsAll, List.map_append]

end

/-- Places are not part of an outline. -/
lemma outline_seal_move (g : Position → Position) (tree : Tree) :
    (tree.move g).seal.outline = tree.seal.outline := by
  have hrow (v : Nat × Heading) : outlineRow v.1 (v.2.move g) = outlineRow v.1 v.2 := rfl
  simp only [outline_seal, Tree.levels_move, List.map_map, Function.comp_def, hrow]

/-- A tree whose labels have no newlines has an outline with one line for each node. -/
lemma splitOn_outline_seal {tree : Tree}
    (h : ∀ v ∈ tree.levels 0, ∀ label ∈ v.2.label, '\n' ∉ label) :
    tree.seal.outline.splitOn '\n' =
      ((tree.levels 0).map fun v => outlineRow v.1 v.2) ++ [[]] := by
  rw [outline_seal]
  refine Text.splitOn_written fun row hrow => ?_
  simp only [List.mem_map] at hrow
  obtain ⟨v, hv, rfl⟩ := hrow
  exact newline_notMem_outlineRow v.1 (h v hv)

/-- **A tree is read back from its outline**, but for its places, if no label has a newline. -/
theorem readOutline_seal {tree : Tree}
    (h : ∀ v ∈ tree.levels 0, ∀ label ∈ v.2.label, '\n' ∉ label) :
    readOutline tree.seal.outline = some (tree.move fun _ => Position.start) := by
  have hrows : (tree.seal.outline.splitOn '\n').filterMap readRow =
      (tree.move fun _ => Position.start).levels 0 := by
    have hlast : readRow [] = none := by decide
    rw [splitOn_outline_seal h, Tree.levels_move]
    simp [List.filterMap_map, readRow_outlineRow, hlast]
  have hgather : gather ((tree.move fun _ => Position.start).levels 0 ++ []) =
      (0, tree.move fun _ => Position.start) :: gather [] := gather_levels (by simp [gather]) _
  rw [List.append_nil] at hgather
  rw [readOutline, hrows, hgather]
  rfl

end Imperativo
