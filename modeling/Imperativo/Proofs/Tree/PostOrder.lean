import Imperativo.Proofs.Tree.Layout

/-!
# Child first listings

A node and everything below it is listed child first when the listings of its children stand one
behind another, in their order, and the node itself comes last (`Listed`).  Such a stretch of
numbers is the tree and nothing else: from the top, each of its numbers is reached along exactly one
path, no path leads out of it, and a walk meets each of them once.

* **`Listed.existsUnique_path`**, **`Listed.path_bounds`** — paths and numbers correspond.
* **`Listed.walk_perm`** — a walk meets every number once.
* **`postOrdered_seal`** — a sealed tree is one child first listing of all its nodes.
-/

namespace Imperativo

/-! ## Paths -/

/-- The node that is reached from node `id` along a path, which has a place among the children for
each step down. -/
def Ast.follow (ast : Ast) : Nat → List Nat → Option Nat
  | id, [] => some id
  | id, place :: path => (ast.child? id place).bind fun child => ast.follow child path

/-- The node that is reached from one of several, along a path behind the choice of one of them. -/
def Ast.followFrom (ast : Ast) (ids : List Nat) (path : Nat × List Nat) : Option Nat :=
  ids[path.1]?.bind fun id => ast.follow id path.2

section Paths

variable {ast : Ast} {id n : Nat} {ids : List Nat} {node : Node} {path : Nat × List Nat}

lemma Ast.follow_cons (h : ast.node? id = some node) (place : Nat) (path : List Nat) :
    ast.follow id (place :: path) = ast.followFrom node.children (place, path) := by
  rw [follow, followFrom, child?, h]
  rfl

/-- A path ends at the first of several nodes, goes down from there, or starts at another one. -/
lemma Ast.followFrom_cons (h : ast.node? id = some node)
    (hpath : ast.followFrom (id :: ids) path = some n) :
    path = (0, []) ∧ n = id ∨
    (∃ p, path = (0, p.1 :: p.2) ∧ ast.followFrom node.children p = some n) ∨
    ∃ p, path = (p.1 + 1, p.2) ∧ ast.followFrom ids p = some n := by
  obtain ⟨place, steps⟩ := path
  cases place with
  | succ place => exact .inr (.inr ⟨(place, steps), rfl, hpath⟩)
  | zero =>
      change ast.follow id steps = some n at hpath
      cases steps with
      | nil =>
          cases hpath
          exact .inl ⟨rfl, rfl⟩
      | cons place steps =>
          rw [follow_cons h] at hpath
          exact .inr (.inl ⟨(place, steps), rfl, hpath⟩)

end Paths

/-! ## Listings -/

/-- The nodes `ids` with everything below them are listed one after another, each child first, and
have the numbers from `first` on, up to but without `last`. -/
inductive Listed (ast : Ast) : Nat → List Nat → Nat → Prop
  | nil {first : Nat} : Listed ast first [] first
  | cons {first id last : Nat} {ids : List Nat} {node : Node} (h : ast.node? id = some node)
      (hbelow : Listed ast first node.children id) (hbehind : Listed ast (id + 1) ids last) :
      Listed ast first (id :: ids) last

namespace Listed

variable {ast : Ast} {first last : Nat} {ids : List Nat}

lemma le (h : Listed ast first ids last) : first ≤ last := by
  induction h with
  | nil => exact Nat.le_refl _
  | cons _ _ _ hbelow hbehind => omega

lemma append {ids' : List Nat} {middle : Nat} (h : Listed ast first ids middle)
    (h' : Listed ast middle ids' last) : Listed ast first (ids ++ ids') last := by
  induction h with
  | nil => exact h'
  | cons h hbelow _ _ ih => exact .cons h hbelow (ih h')

/-- A single node ends its listing. -/
lemma end_eq {id : Nat} (h : Listed ast first [id] last) : id + 1 = last := by
  cases h with
  | cons _ _ hbehind =>
      cases hbehind
      rfl

/-- **No path leads out of a listing.** -/
theorem path_bounds (h : Listed ast first ids last) {path : Nat × List Nat} {n : Nat}
    (hpath : ast.followFrom ids path = some n) : first ≤ n ∧ n < last := by
  induction h generalizing path n with
  | nil => cases hpath
  | cons h hbelow hbehind ihbelow ihbehind =>
      have hle := hbelow.le
      have hle' := hbehind.le
      rcases Ast.followFrom_cons h hpath with ⟨-, rfl⟩ | ⟨p, -, hp⟩ | ⟨p, -, hp⟩
      · omega
      · have := ihbelow hp
        omega
      · have := ihbehind hp
        omega

/-- **Every number of a listing is reached along exactly one path.** -/
theorem existsUnique_path (h : Listed ast first ids last) {n : Nat} (hfirst : first ≤ n)
    (hlast : n < last) : ∃! path, ast.followFrom ids path = some n := by
  induction h generalizing n with
  | nil => omega
  | @cons first id last ids node h hbelow hbehind ihbelow ihbehind =>
      -- a path to a number in front of `id` goes down from it, one to a number behind starts there
      rcases lt_trichotomy n id with hlt | rfl | hgt
      · obtain ⟨p, hp, hunique⟩ := ihbelow hfirst hlt
        refine ⟨(0, p.1 :: p.2), (Ast.follow_cons h _ _).trans hp, fun path hpath => ?_⟩
        rcases Ast.followFrom_cons h hpath with ⟨-, rfl⟩ | ⟨q, rfl, hq⟩ | ⟨q, -, hq⟩
        · omega
        · rw [hunique q hq]
        · have := hbehind.path_bounds hq
          omega
      · refine ⟨(0, []), rfl, fun path hpath => ?_⟩
        rcases Ast.followFrom_cons h hpath with ⟨rfl, -⟩ | ⟨q, -, hq⟩ | ⟨q, -, hq⟩
        · rfl
        · have := hbelow.path_bounds hq
          omega
        · have := hbehind.path_bounds hq
          omega
      · obtain ⟨p, hp, hunique⟩ := ihbehind hgt hlast
        refine ⟨(p.1 + 1, p.2), hp, fun path hpath => ?_⟩
        rcases Ast.followFrom_cons h hpath with ⟨-, rfl⟩ | ⟨q, -, hq⟩ | ⟨q, rfl, hq⟩
        · omega
        · have := hbelow.path_bounds hq
          omega
        · rw [hunique q hq]

/-- Every number of a listing is that of a node, which ends a listing of its own. -/
lemma block (h : Listed ast first ids last) {n : Nat} (hfirst : first ≤ n) (hlast : n < last) :
    ∃ start, first ≤ start ∧ Listed ast start [n] (n + 1) := by
  induction h with
  | nil => omega
  | @cons first id last ids node h hbelow hbehind ihbelow ihbehind =>
      have hle := hbelow.le
      rcases lt_trichotomy n id with hlt | rfl | hgt
      · exact ihbelow hfirst hlt
      · exact ⟨first, Nat.le_refl _, .cons h hbelow .nil⟩
      · obtain ⟨start, hstart, hlisted⟩ := ihbehind hgt hlast
        exact ⟨start, by omega, hlisted⟩

lemma lt_of_mem (h : Listed ast first ids last) : ∀ id ∈ ids, id < last := by
  induction h with
  | nil => exact nofun
  | cons _ _ hbehind _ ih => exact List.forall_mem_cons.mpr ⟨hbehind.le, ih⟩

/-- A walk goes on with every child, because children are listed before their parent. -/
lemma walk_eq {id : Nat} {node : Node} (h : ast.node? id = some node)
    (hbelow : Listed ast first node.children id) (depth : Nat) : walk ast.nodes depth id =
      (depth, id) :: node.children.flatMap fun child => walk ast.nodes (depth + 1) child := by
  have hnode : ast.nodes[id]? = some node := h
  rw [walk]
  simp only [hnode]
  refine congrArg _ (List.flatMap_congr fun child hchild => ?_)
  rw [dif_pos (hbelow.lt_of_mem child hchild)]

/-- **A walk meets every number of a listing once.** -/
theorem walk_perm (h : Listed ast first ids last) (depth : Nat) :
    ((ids.flatMap fun id => walk ast.nodes depth id).map Prod.snd).Perm
      (List.range' first (last - first)) := by
  induction h generalizing depth with
  | nil => simp
  | @cons first id last ids node h hbelow hbehind ihbelow ihbehind =>
      have hle := hbelow.le
      have hle' := hbehind.le
      have hrange : List.range' first (last - first) =
          List.range' first (id - first) ++ id :: List.range' (id + 1) (last - (id + 1)) := by
        have hid : first + (id - first) = id := Nat.add_sub_cancel' hle
        have hlast : last - first = id - first + (last - (id + 1) + 1) := by omega
        rw [hlast, ← List.range'_append_1, hid, List.range'_succ]
      rw [hrange, List.flatMap_cons, walk_eq h hbelow, List.cons_append, List.map_cons,
        List.map_append]
      exact (((ihbelow (depth + 1)).append (ihbehind depth)).cons id).trans
        List.perm_middle.symm

end Listed

/-! ## Whole trees -/

/-- The nodes of a finished tree are listed child first and there are no others: the root comes
last, every node is reached from it along exactly one path, the nodes that are reached from a node
are a stretch of numbers which ends with it and in which those of its children follow one another,
and the walk from the root meets every node once. -/
structure PostOrdered (ast : Ast) : Prop where
  root_last : ast.root + 1 = ast.size
  listed : Listed ast 0 [ast.root] ast.size
  one_path : ∀ id < ast.size, ∃! path, ast.follow ast.root path = some id
  blocks : ∀ id < ast.size, ∃ first ≤ id, Listed ast first [id] (id + 1) ∧
    ∀ n, (∃ path, ast.follow id path = some n) ↔ first ≤ n ∧ n ≤ id
  walked_once : (ast.preorder.map Prod.snd).Perm (List.range ast.size)

/-- From a single node there is but one place to start. -/
lemma Ast.followFrom_singleton {ast : Ast} {id n : Nat} {path : Nat × List Nat}
    (h : ast.followFrom [id] path = some n) : path.1 = 0 ∧ ast.follow id path.2 = some n := by
  obtain ⟨place, steps⟩ := path
  cases place with
  | zero => exact ⟨rfl, h⟩
  | succ place => cases h

/-- **A listing of all nodes makes a tree.** -/
theorem Listed.postOrdered {ast : Ast} (h : Listed ast 0 [ast.root] ast.size) :
    PostOrdered ast where
  root_last := h.end_eq
  listed := h
  one_path id hid := by
    obtain ⟨⟨place, steps⟩, hpath, hunique⟩ := h.existsUnique_path (Nat.zero_le id) hid
    refine ⟨steps, (Ast.followFrom_singleton hpath).2, fun path hfollow => ?_⟩
    exact congrArg Prod.snd (hunique (0, path) hfollow)
  blocks id hid := by
    obtain ⟨first, -, hblock⟩ := h.block (Nat.zero_le id) hid
    have hfirst : first ≤ id := by
      cases hblock with
      | cons _ hbelow _ => exact hbelow.le
    refine ⟨first, hfirst, hblock, fun n => ⟨?_, ?_⟩⟩
    · rintro ⟨path, hpath⟩
      have hfrom : ast.followFrom [id] (0, path) = some n := hpath
      have := hblock.path_bounds hfrom
      omega
    · rintro ⟨hle, hle'⟩
      obtain ⟨path, hpath, -⟩ := hblock.existsUnique_path hle (Nat.lt_succ_of_le hle')
      exact ⟨path.2, (Ast.followFrom_singleton hpath).2⟩
  walked_once := by
    have hwalk := h.walk_perm 0
    rw [List.flatMap_singleton, Nat.sub_zero, ← List.range_eq_range', ← Ast.preorder_eq] at hwalk
    exact hwalk

/-! ## Sealed trees -/

section Stretches

variable {ast : Ast} {base : Nat}

/-- A tree ends with its root where it was laid out. -/
lemma Tree.node?_of_layout {heading : Heading} {children : List Tree}
    (h : (Tree.node heading children).layout base <+: ast.nodes.drop base) :
    ast.node? (base + Tree.sizeAll children) = some ⟨heading, Tree.roots base children⟩ := by
  obtain ⟨rest, hrest⟩ := h
  rw [Ast.node?, ← List.getElem?_drop, ← hrest, Tree.layout, List.append_assoc,
    ← Tree.length_layoutAll base, List.getElem?_append_right (Nat.le_refl _), Nat.sub_self]
  rfl

/-- Behind the first tree the others are laid out. -/
lemma Tree.layoutAll_behind {tree : Tree} {trees : List Tree}
    (h : Tree.layoutAll base (tree :: trees) <+: ast.nodes.drop base) :
    Tree.layoutAll (base + tree.size) trees <+: ast.nodes.drop (base + tree.size) := by
  obtain ⟨rest, hrest⟩ := h
  refine ⟨rest, ?_⟩
  rw [← List.drop_drop, ← hrest, Tree.layoutAll, List.append_assoc,
    List.drop_left' (Tree.length_layout base tree)]

end Stretches

mutual

/-- A tree is listed where it was laid out. -/
lemma Tree.listed_layout {ast : Ast} {base : Nat} :
    ∀ {tree : Tree}, tree.layout base <+: ast.nodes.drop base →
      Listed ast base [base + tree.size - 1] (base + tree.size)
  | .node _ _, h =>
      .cons (Tree.node?_of_layout h) (Tree.listed_layoutAll ((List.prefix_append _ _).trans h)) .nil

/-- Trees are listed where they were laid out, one behind another. -/
lemma Tree.listed_layoutAll {ast : Ast} {base : Nat} :
    ∀ {trees : List Tree}, Tree.layoutAll base trees <+: ast.nodes.drop base →
      Listed ast base (Tree.roots base trees) (base + Tree.sizeAll trees)
  | [], _ => .nil
  | _ :: _, h => by
      have htree := Tree.listed_layout ((List.prefix_append _ _).trans h)
      have happend := htree.append (Tree.listed_layoutAll (Tree.layoutAll_behind h))
      rwa [Nat.add_assoc] at happend

end

/-- **A sealed tree is listed child first.** -/
theorem postOrdered_seal (tree : Tree) : PostOrdered tree.seal := by
  have hlisted : Listed tree.seal 0 [0 + tree.size - 1] (0 + tree.size) :=
    Tree.listed_layout (List.prefix_refl _)
  have hsize : tree.seal.size = tree.size := Tree.length_layout 0 tree
  refine Listed.postOrdered ?_
  rw [Nat.zero_add] at hlisted
  rw [hsize]
  exact hlisted

end Imperativo
