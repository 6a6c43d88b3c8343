import Imperativo.Building.Program
import Imperativo.Proofs.Grammar.Turns
import Imperativo.Proofs.Tree.Layout

/-!
# Building follows reading

A builder goes step by step with a reading of the same tokens: it stops where the reading stops, and
when the reading comes to trees, the builder has added those trees and nothing else (`Follows`).  A
stop may leave nodes behind, but those that were there before are still in their places, which is
all that a roll-back needs.

* **`Builds.then`** — a part with another one behind it is built as the two are read.
* **`builds_value`**, **`builds_condition`** — expressions and conditions are built as they are
  read.
-/

namespace Imperativo.Building

open Grammar

variable {α β γ δ : Type}

/-! ## Going along with a reading -/

/-- What a builder comes to, against what a reading comes to: values that are related, or the same
stop with the nodes of `a` still in place. -/
inductive Follows (a : Arena) (R : α → β → Arena → Prop) :
    Except Stop α → EStateM.Result Stop Arena β → Prop
  | ok {x : α} {y : β} {b : Arena} (h : R x y b) : Follows a R (.ok x) (.ok y b)
  | error {s : Stop} {b : Arena} (h : a.nodes <+: b.nodes) : Follows a R (.error s) (.error s b)

/-- The trees that were read have been added, and the same tokens are left. -/
structure Grown (trees : α → List Tree) (ids : β → List Nat) (a : Arena) (x : α × List Token)
    (y : β × List Token) (b : Arena) : Prop where
  rest_eq : y.2 = x.2
  row : Grove a (trees x.1) (ids y.1) b

/-- The tree that was read has been added. -/
abbrev FollowsTree (a : Arena) : Reading Tree → EStateM.Result Stop Arena (Nat × List Token) → Prop :=
  Follows a (Grown (fun tree => [tree]) (fun id => [id]) a)

/-- Wherever it starts, the part adds the trees that are read. -/
def Builds (trees : α → List Tree) (ids : β → List Nat) (part : Part β)
    (f : List Token → Reading α) : Prop :=
  ∀ ts a, Follows a (Grown trees ids a) (f ts) (part ts a)

/-- The part adds the tree that is read. -/
abbrev BuildsTree : Part Nat → (List Token → Reading Tree) → Prop :=
  Builds (fun tree => [tree]) fun id => [id]

/-- The part adds the trees that are read, one after another. -/
abbrev BuildsTrees : Part (List Nat) → (List Token → Reading (List Tree)) → Prop :=
  Builds (fun trees => trees) fun ids => ids

section Steps

variable {a b : Arena} {R : α → β → Arena → Prop} {S : γ → δ → Arena → Prop}

lemma Follows.mono {r : Except Stop α} {result : EStateM.Result Stop Arena β}
    (h : Follows b R r result) (hab : a.nodes <+: b.nodes) : Follows a R r result := by
  cases h with
  | ok h => exact .ok h
  | error h => exact .error (hab.trans h)

/-- A step behind another one. -/
lemma Follows.bind {r : Except Stop α} {m : Builder β} {k : β → Builder δ} {f : α → Except Stop γ}
    (h : Follows a R r (m b))
    (hk : ∀ {x y c}, r = .ok x → R x y c → Follows a S (f x) (k y c)) :
    Follows a S (Except.bind r f) ((m >>= k) b) := by
  change Follows a S _ (EStateM.bind m k b)
  rw [EStateM.bind]
  generalize m b = result at h
  cases h with
  | ok h => exact hk rfl h
  | error h => exact .error h

/-- What has no nodes is read as it is. -/
lemma follows_ofReading {r : Except Stop α} {k : α → Builder δ} {f : α → Except Stop γ}
    (hab : a.nodes <+: b.nodes) (hk : ∀ {x}, r = .ok x → Follows a S (f x) (k x b)) :
    Follows a S (Except.bind r f) ((ofReading r >>= k) b) := by
  cases r with
  | error s => exact .error hab
  | ok x => exact hk rfl

/-- A node is added behind the grove of its children. -/
lemma follows_addNode {r : Except Stop γ} {k : Nat → Builder δ} {c : Arena} {trees : List Tree}
    {ids : List Nat} (hrow : Grove b trees ids c) (heading : Heading)
    (hk : ∀ {id d}, Grove b [.node heading trees] [id] d → Follows a S r (k id d)) :
    Follows a S r ((addNode heading ids >>= k) c) :=
  hk (hrow.node heading)

/-- A part with something behind it.  It may start behind other nodes that were added already, and
these stay in place. -/
lemma Builds.bind {trees : α → List Tree} {ids : β → List Nat} {part : Part β}
    {f : List Token → Reading α} {ts : List Token} {k : β × List Token → Builder δ}
    {g : α × List Token → Except Stop γ} (h : Builds trees ids part f) (hab : a.nodes <+: b.nodes)
    (hk : ∀ {x rest y c}, f ts = .ok (x, rest) → Grove b (trees x) (ids y) c →
      Follows a S (g (x, rest)) (k (y, rest) c)) :
    Follows a S (Except.bind (f ts) g) ((part ts >>= k) b) := by
  refine Follows.bind ((h ts b).mono hab) fun {x y c} hx hgrown => ?_
  obtain ⟨x, rest⟩ := x
  obtain ⟨y, rest'⟩ := y
  obtain rfl : rest' = rest := hgrown.rest_eq
  exact hk hx hgrown.row

end Steps

section Readings

variable {a b : Arena} {ts : List Token} {f : List Token → Reading α}
  {g : α → List Token → Reading γ} {S : γ × List Token → δ → Arena → Prop}

lemma follows_reading {k : α × List Token → Builder δ} (hab : a.nodes <+: b.nodes)
    (hk : ∀ {x rest}, f ts = .ok (x, rest) → Follows a S (g x rest) (k (x, rest) b)) :
    Follows a S (readThen f g ts) ((ofReading (f ts) >>= k) b) :=
  follows_ofReading hab fun hx => hk hx

/-- **A part with another one behind it.** -/
theorem Builds.then {trees : α → List Tree} {ids : β → List Nat} {part : Part β}
    {k : β × List Token → Builder δ} (h : Builds trees ids part f) (hab : a.nodes <+: b.nodes)
    (hk : ∀ {x rest y c}, f ts = .ok (x, rest) → Grove b (trees x) (ids y) c →
      Follows a S (g x rest) (k (y, rest) c)) :
    Follows a S (readThen f g ts) ((part ts >>= k) b) :=
  h.bind hab hk

end Readings

/-! ## Leaves and chains -/

section Chains

variable {leaf? : Token → Option Tree} {e : Expectation}

/-- The trees that tokens are have no children. -/
def Leaves (leaf? : Token → Option Tree) : Prop := ∀ t tree, leaf? t = some tree → tree.children = []

lemma Leaves.eq (h : Leaves leaf?) {t : Token} {tree : Tree} (ht : leaf? t = some tree) :
    tree = .node tree.heading [] := by
  have hchildren := h t tree ht
  obtain ⟨heading, children⟩ := tree
  exact congrArg (Tree.node heading) hchildren

lemma builds_leaf (hleaf : Leaves leaf?) (e : Expectation) :
    BuildsTree (leaf leaf? e) (leafRead leaf? e) := by
  intro ts a
  cases ts with
  | nil => exact .error (List.prefix_refl _)
  | cons t rest =>
      rw [leaf, leafRead]
      cases ht : leaf? t with
      | none => exact .error (List.prefix_refl _)
      | some tree =>
          refine follows_addNode (.nil a) tree.heading fun hrow => .ok ⟨rfl, ?_⟩
          rwa [← hleaf.eq ht] at hrow

variable {join? : Token → Option Heading} {item : Production} {part : Part Nat}

/-- Every turn takes an operator and an item, so the turns suffice. -/
lemma follows_chainWithin (hitem : BuildsTree part item.read) {a b : Arena} {turns id : Nat}
    {left : Tree} {ts : List Token} (hturns : ts.length ≤ turns) (hrow : Grove a [left] [id] b) :
    FollowsTree a (chainFrom join? item left ts) (chainWithin join? part turns id ts b) := by
  induction turns generalizing left id ts b with
  | zero =>
      obtain rfl := List.length_eq_zero_iff.mp (Nat.le_zero.mp hturns)
      rw [chainFrom, chainWithin]
      exact .ok ⟨rfl, hrow⟩
  | succ turns ih =>
      cases ts with
      | nil =>
          rw [chainFrom, chainWithin]
          exact .ok ⟨rfl, hrow⟩
      | cons t rest =>
          rw [chainWithin]
          cases ht : join? t with
          | none =>
              rw [chainFrom_none ht]
              exact .ok ⟨rfl, hrow⟩
          | some heading =>
              rw [chainFrom_some ht]
              refine hitem.then hrow.keeps fun {right behind _ _} hread hright => ?_
              refine follows_addNode (hrow.append hright) heading fun hnode => ih ?_ hnode
              have hlt := item.shortens hread
              rw [List.length_cons] at hturns
              omega

lemma builds_chain (hitem : BuildsTree part item.read) :
    BuildsTree (chain join? part) (Grammar.chain join? item).read := by
  intro ts a
  rw [chain_read]
  exact hitem.then (List.prefix_refl _) fun _ hrow => follows_chainWithin hitem (Nat.le_refl _) hrow

end Chains

/-! ## Expressions -/

lemma leaves_operandLeaf? : Leaves operandLeaf? := by
  intro t tree h
  unfold operandLeaf? at h
  split at h <;> cases h <;> rfl

lemma builds_operand : BuildsTree operand Grammar.operand.read :=
  builds_leaf leaves_operandLeaf? _

lemma builds_expression : BuildsTree expression Grammar.expression.read :=
  builds_chain (builds_chain builds_operand)

theorem builds_value (missing : Expectation) :
    BuildsTree (value missing) (Grammar.value missing).read := by
  intro ts a
  change Follows a _ (valueRead missing ts) _
  cases ts with
  | nil => exact .error (List.prefix_refl _)
  | cons t rest =>
      rw [value, valueRead]
      cases t.kind with
      | integer => exact builds_expression _ a
      | float => exact builds_expression _ a
      | identifier => exact builds_expression _ a
      | _ => exact .error (List.prefix_refl _)

/-! ## Conditions -/

lemma withoutRelation_eq (tree : Tree) (ts : List Token) : withoutRelation tree ts =
    Except.bind (refuseRelation ts) fun _ => .ok (tree, ts) := by
  unfold withoutRelation
  cases refuseRelation ts <;> rfl

lemma builds_comparison : BuildsTree comparison Grammar.comparison.read := by
  intro ts a
  rw [comparison_read]
  refine (builds_value _).then (List.prefix_refl _) fun {left _ _ _} _ hleft => ?_
  refine follows_reading hleft.keeps fun {x rest} _ => ?_
  refine (builds_value _).then hleft.keeps fun {right rest _ _} _ hright => ?_
  have hrow := hleft.append hright
  -- a second relation is refused before the node is added
  rw [withoutRelation_eq]
  refine follows_ofReading hrow.keeps fun _ => ?_
  exact follows_addNode hrow _ fun hnode => .ok ⟨rfl, hnode⟩

theorem builds_condition : BuildsTree condition Grammar.condition.read := by
  have hdisjunction : BuildsTree disjunction Grammar.disjunction.read :=
    builds_chain (builds_chain builds_comparison)
  intro ts a
  have h := hdisjunction ts a
  rw [condition_read]
  change Follows a _ (withFault _ _) (EStateM.adaptExcept _ (disjunction ts) a)
  rw [EStateM.adaptExcept]
  generalize Grammar.disjunction.read ts = r at h
  generalize disjunction ts a = result at h
  cases h with
  | ok h => exact .ok h
  | error h => exact .error h

end Imperativo.Building
