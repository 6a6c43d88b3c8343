import Imperativo.Proofs.Tree.Layout
import Imperativo.Proofs.Tree.Lookup

/-!
# Rolling an arena back

The number of a node is its place, and a place that was given up is used again: the same number may
stand for one node now and for another one later.  So nothing can be said about a node for ever.
What the steps of an arena keep is the order, children in front of their parents (`Step.Fits.after`),
and what stands in front of a mark, as long as nothing is dropped from there (`Step.Above.after`).

* `Step`, `run` — adding nodes and dropping them, in any order.
* `Step.Effect` — what a step makes of an arena, and the number that it gives.
* **`Fits.run`** — children have smaller numbers than their parents, over a whole run.
* **`truncate_run`** — dropping everything from a mark on restores the arena that was marked.
* **`rollback_sound`** — both, and what follows for the walks over a finished tree.
-/

namespace Imperativo

namespace Arena

variable {a b : Arena} {step : Step}

/-! ## Steps -/

/-- What can be done to an arena. -/
inductive Step
  | add (heading : Heading) (children : List Nat)
  | leaf (kind : NodeKind) (label : Text) (position : Position)
  | truncate (mark : Nat)

/-- The number that a step gives, if it adds a node, and the arena after it. -/
def perform (a : Arena) : Step → Option Nat × Arena
  | .add heading children =>
    let (id, a) := a.add ⟨heading, children⟩
    (some id, a)
  | .leaf kind label position =>
    let (id, a) := a.add ⟨(Tree.leaf kind label position).heading, []⟩
    (some id, a)
  | .truncate mark => (none, a.truncate mark)

/-- The arena after a step. -/
def after (a : Arena) (step : Step) : Arena := (a.perform step).2

/-- The arena after some steps. -/
def run (a : Arena) (steps : List Step) : Arena := steps.foldl after a

/-- The children of a new node are there already. -/
def Step.Fits (a : Arena) : Step → Prop
  | .add _ children => ∀ child ∈ children, child < a.size
  | .leaf .. | .truncate _ => True

/-- Every step fits the arena that it is made on. -/
def Fits (a : Arena) : List Step → Prop
  | [] => True
  | step :: steps => step.Fits a ∧ Fits (a.after step) steps

/-- Nothing in front of the mark is dropped. -/
def Step.Above (mark : Nat) : Step → Prop
  | .add .. | .leaf .. => True
  | .truncate mark' => mark ≤ mark'

/-- The arena `new` has one node more than `old`, behind all others. -/
structure Extends (old new : Arena) (node : Node) : Prop where
  size : new.size = old.size + 1
  last : new.get? old.size = some node
  keeps : ∀ id < old.size, new.get? id = old.get? id

/-- What a step makes of the arena `old`, and the number that it gives. -/
def Step.Effect (old new : Arena) (number : Option Nat) : Step → Prop
  | .add heading children => number = some old.size ∧ Extends old new ⟨heading, children⟩
  | .leaf kind label position =>
    number = some old.size ∧ Extends old new ⟨⟨kind, some label, position⟩, []⟩
  | .truncate mark => number = none ∧ new.size = min mark old.size ∧
    ∀ id < new.size, new.get? id = old.get? id

lemma extends_add (a : Arena) (node : Node) : Extends a (a.add node).2 node where
  size := List.length_append
  last := List.getElem?_concat_length
  keeps _ hid := List.getElem?_append_left hid

lemma size_truncate (a : Arena) (mark : Nat) : (a.truncate mark).size = min mark a.size :=
  List.length_take

lemma get?_truncate (a : Arena) (mark : Nat) {id : Nat} (h : id < (a.truncate mark).size) :
    (a.truncate mark).get? id = a.get? id := by
  rw [size_truncate] at h
  exact List.getElem?_take_of_lt (by omega)

lemma effect_perform (a : Arena) (step : Step) :
    step.Effect a (a.perform step).2 (a.perform step).1 := by
  cases step with
  | add heading children => exact ⟨rfl, extends_add a _⟩
  | leaf kind label position => exact ⟨rfl, extends_add a _⟩
  | truncate mark => exact ⟨rfl, size_truncate a mark, fun _ => get?_truncate a mark⟩

/-! ## Children in front of their parents -/

lemma childFirst_add {node : Node} (h : ChildFirst a.nodes)
    (hnode : ∀ child ∈ node.children, child < a.size) : ChildFirst (a.add node).2.nodes := by
  obtain ⟨hsize, hlast, hkeeps⟩ := extends_add a node
  intro id node' hid
  have hlt : id < (a.add node).2.size := (List.getElem?_eq_some_iff.mp hid).1
  rw [hsize] at hlt
  rcases Nat.lt_succ_iff_lt_or_eq.mp hlt with hlt | rfl
  · exact h id node' ((hkeeps id hlt).symm.trans hid)
  · obtain rfl := Option.some.inj (hlast.symm.trans hid)
    exact hnode

lemma childFirst_truncate (h : ChildFirst a.nodes) (mark : Nat) :
    ChildFirst (a.truncate mark).nodes := by
  intro id node hid
  have hlt : id < (a.truncate mark).size := (List.getElem?_eq_some_iff.mp hid).1
  exact h id node ((get?_truncate a mark hlt).symm.trans hid)

/-- A step that fits keeps children in front of their parents. -/
lemma Step.Fits.after (hstep : step.Fits a) (h : ChildFirst a.nodes) :
    ChildFirst (a.after step).nodes := by
  cases step with
  | add heading children => exact childFirst_add h hstep
  | leaf kind label position => exact childFirst_add h (by rintro _ ⟨⟩)
  | truncate mark => exact childFirst_truncate h mark

/-- **Children have smaller numbers than their parents**, whatever steps that fit are made. -/
theorem Fits.run {steps : List Step} (hsteps : a.Fits steps) (h : ChildFirst a.nodes) :
    ChildFirst (a.run steps).nodes := by
  induction steps generalizing a with
  | nil => exact h
  | cons step steps ih => exact ih hsteps.2 (hsteps.1.after h)

lemma childFirst_empty : ChildFirst empty.nodes := by
  rintro _ _ ⟨⟩

/-! ## Marks -/

/-- What stands in front of a mark stays, unless something is dropped from there. -/
lemma Step.Above.after (hstep : step.Above a.mark) (h : a.nodes <+: b.nodes) :
    a.nodes <+: (b.after step).nodes := by
  cases step with
  | add heading children => exact h.trans (List.prefix_append _ _)
  | leaf kind label position => exact h.trans (List.prefix_append _ _)
  | truncate mark => exact List.prefix_take_iff.mpr ⟨h, hstep⟩

/-- **Dropping everything from a mark on** restores the arena that was marked, whatever was added
and dropped behind the mark in the meantime. -/
theorem truncate_run {steps : List Step} (h : ∀ step ∈ steps, step.Above a.mark) :
    (a.run steps).truncate a.mark = a := by
  suffices hprefix : a.nodes <+: (a.run steps).nodes from truncate_mark hprefix
  -- the steps start at an arena that has the marked one in front
  suffices hrun : ∀ b : Arena, a.nodes <+: b.nodes → a.nodes <+: (b.run steps).nodes from
    hrun a List.prefix_rfl
  induction steps with
  | nil => exact fun _ h => h
  | cons step steps ih =>
      rw [List.forall_mem_cons] at h
      exact fun b hb => ih h.2 (b.after step) (h.1.after hb)

/-! ## Arenas that grow and are rolled back -/

/-- **An arena is rolled back exactly and safely.**  After any steps that fit, children have smaller
numbers than their parents.  A further step gives the number of nodes from before to a new node, or
keeps just the nodes in front of a mark; what is dropped from a mark on leaves the arena that was
marked.  So from every node there is a finished tree on which all walks come to their end and find
every node that they look up. -/
theorem rollback_sound {steps : List Step} (h : empty.Fits steps) :
    ChildFirst (empty.run steps).nodes ∧
    (∀ step : Step, step.Fits (empty.run steps) →
      step.Effect (empty.run steps) ((empty.run steps).perform step).2
        ((empty.run steps).perform step).1 ∧
      ChildFirst ((empty.run steps).after step).nodes) ∧
    (∀ more, (∀ step ∈ more, Step.Above (empty.run steps).mark step) →
      ((empty.run steps).run more).truncate (empty.run steps).mark = empty.run steps) ∧
    ∀ root < (empty.run steps).size, ∀ ast, (empty.run steps).finish root = ast →
      (∀ n, ast.preorder.length ≤ n → Strict.preorder n ast = some ast.preorder ∧
        Strict.outline n ast = some ast.outline) ∧
      (∀ n, root < n → Strict.graph n ast = some (Graph.ofAst ast)) ∧
      ∀ steps', empty.Fits steps' → ∀ root' < (empty.run steps').size,
        ∀ other, (empty.run steps').finish root' = other →
          ∀ n, root < n → Strict.sameShape n ast other = some (ast.sameShape other) := by
  have hfirst {steps : List Step} (h : empty.Fits steps) : ChildFirst (empty.run steps).nodes :=
    h.run childFirst_empty
  refine ⟨hfirst h, ?_, fun more hmore => truncate_run hmore, ?_⟩
  · intro step hstep
    exact ⟨effect_perform _ step, hstep.after (hfirst h)⟩
  · rintro root hroot ast rfl
    refine ⟨fun n hn => ⟨?_, ?_⟩, fun n hn => ?_, ?_⟩
    · exact Strict.preorder_eq (hfirst h) hroot hn
    · exact Strict.outline_eq (hfirst h) hroot hn
    · exact Strict.graph_eq (hfirst h) hroot hn
    · rintro steps' h' root' hroot' other rfl n hn
      exact Strict.sameShape_eq (hfirst h) (hfirst h') hroot hroot' hn

/-- The number 1 stands for `y`, is given up, and stands for a sum whose operands are both `x`. -/
theorem rollback_sound_reused :
    let p : Position := ⟨1, 1⟩
    let steps : List Step := [.leaf .variable ['x'] p, .leaf .variable ['y'] p, .truncate 1,
      .add ⟨.binary .add, none, p⟩ [0, 0]]
    empty.Fits steps ∧
    Graph.ofAst ((empty.run steps).finish 1) =
      ⟨["Add".toList, "Variable: x".toList, "Variable: x".toList], [⟨0, 1, 0⟩, ⟨0, 2, 1⟩]⟩ := by
  intro p steps
  have hfits : empty.Fits steps := ⟨trivial, trivial, trivial, by
    change ∀ child ∈ [0, 0], child < 1
    decide, trivial⟩
  obtain ⟨-, -, -, hwalks⟩ := rollback_sound hfits
  have hgraph := (hwalks 1 (by decide) _ rfl).2.1 2 (by decide)
  exact ⟨hfits, Option.some.inj (hgraph.symm.trans (by decide +kernel))⟩

end Arena

end Imperativo
