import Imperativo.Proofs.Grammar.Kept
import Imperativo.Proofs.Grammar.Parsing

/-!
# Labels come from tokens

A label is never made up: it is what one of the tokens says, by a rule that depends on the kind of
the node (`Token.Labels`), and but for the name of a program the node is at the place of that token.
It is so for leaves and operators, hence for phrases, and the nodes that a program has besides its
phrases have no labels.

* **`parse_labelled`** — in every tree that a parse comes to, every label is that of a token.
-/

namespace Imperativo

/-- The token says the label of a node of a kind. -/
inductive Token.Labels (t : Token) : NodeKind → Text → Prop
  | number (h : t.kind = .integer ∨ t.kind = .float) : Labels t .number t.valueText
  | operand (h : t.kind = .identifier) : Labels t .variable t.valueText
  | name (h : t.kind = .identifier) : Labels t .variable (t.text?.getD [])
  | content (h : t.kind = .string ∨ t.kind = .identifier) : Labels t .content (t.text?.getD [])
  | assignment (h : t.kind = .identifier) : Labels t .assignment (t.text?.getD [])
  | program (h : t.kind = .identifier) : Labels t .program (t.text?.getD [])
  | scalar {type : Scalar} (h : t.kind = .scalar type) : Labels t .scalar type.spelling.toList
  | comparison {op : Relation} (h : t.kind = .relation op) :
      Labels t .comparison op.spelling.toList
  | combination {op : Connective} (h : t.kind = .connective op) :
      Labels t .combination op.spelling.toList

/-- If there is a label, one of the tokens `all` says it.  This token is where the node is, which
may not be so for the name of a program. -/
def Heading.Labelled (all : List Token) (h : Heading) : Prop :=
  ∀ label ∈ h.label, ∃ t ∈ all, t.Labels h.kind label ∧
    (h.kind = .program ∨ h.position = t.position)

/-- All headings of the tree are as `p` says. -/
inductive Tree.Everywhere (p : Heading → Prop) : Tree → Prop
  | node {heading : Heading} {children : List Tree} (h : p heading)
      (hchildren : ∀ child ∈ children, child.Everywhere p) : Everywhere p (.node heading children)

namespace Grammar

open Phrase

variable {all us : List Token} {t : Token} {tree : Tree} {heading : Heading}

/-- Every label of the tree is that of one of the tokens `all`. -/
abbrev LabelledTree (all : List Token) : Tree → Prop := Tree.Everywhere (Heading.Labelled all)

/-! ## Leaves and operators -/

lemma labelled_none (kind : NodeKind) (place : Position) :
    Heading.Labelled all ⟨kind, none, place⟩ := by
  simp [Heading.Labelled]

lemma labelled_some {kind : NodeKind} {label : Text} (ht : t ∈ all) (h : t.Labels kind label) :
    Heading.Labelled all ⟨kind, some label, t.position⟩ := by
  rintro _ ⟨⟩
  exact ⟨t, ht, h, .inr rfl⟩

lemma labelled_leaf {kind : NodeKind} {label : Text} (ht : t ∈ all) (h : t.Labels kind label) :
    LabelledTree all (.leaf kind label t.position) := .node (labelled_some ht h) (by simp)

lemma labelled_variableLeaf (ht : t ∈ all) (hk : t.kind = .identifier) :
    LabelledTree all (variableLeaf t) := labelled_leaf ht (.name hk)

lemma labelled_operandLeaf? (ht : t ∈ all) (h : operandLeaf? t = some tree) :
    LabelledTree all tree := by
  unfold operandLeaf? at h
  split at h <;> cases h
  · exact labelled_leaf ht (.number (.inl ‹_›))
  · exact labelled_leaf ht (.number (.inr ‹_›))
  · exact labelled_leaf ht (.operand ‹_›)

lemma labelled_nameLeaf? (ht : t ∈ all) (h : nameLeaf? t = some tree) :
    LabelledTree all tree := by
  unfold nameLeaf? at h
  split at h <;> cases h
  exact labelled_variableLeaf ht ‹_›

lemma labelled_contentLeaf? (ht : t ∈ all) (h : contentLeaf? t = some tree) :
    LabelledTree all tree := by
  unfold contentLeaf? at h
  split at h <;> cases h
  · exact labelled_leaf ht (.content (.inl ‹_›))
  · exact labelled_leaf ht (.content (.inr ‹_›))

lemma labelled_joinTerm? (h : joinTerm? t = some heading) : heading.Labelled all := by
  obtain ⟨op, -, -, rfl⟩ := joinTerm?_some h
  exact labelled_none _ _

lemma labelled_joinSum? (h : joinSum? t = some heading) : heading.Labelled all := by
  obtain ⟨op, -, -, rfl⟩ := joinSum?_some h
  exact labelled_none _ _

lemma labelled_joinCondition? {tight : Bool} (ht : t ∈ all)
    (h : joinCondition? tight t = some heading) : heading.Labelled all := by
  obtain ⟨op, hk, -, rfl⟩ := joinCondition?_some h
  exact labelled_some ht (.combination hk)

/-! ## Phrases -/

lemma Phrase.Chain.labelled {join? : Token → Option Heading} {Item : List Token → Tree → Prop}
    (hjoin : ∀ t ∈ all, ∀ heading, join? t = some heading → heading.Labelled all)
    (hitem : ∀ us ⊆ all, ∀ tree, Item us tree → LabelledTree all tree)
    (h : Chain join? Item us tree) (hus : us ⊆ all) : LabelledTree all tree := by
  induction h with
  | item h => exact hitem _ hus _ h
  | join _ hop hr ih =>
      rw [List.append_subset, List.cons_subset] at hus
      have hright := hitem _ hus.2.2 _ hr
      exact .node (hjoin _ hus.2.1 _ hop) (by simpa using ⟨ih hus.1, hright⟩)

lemma Phrase.Expression.labelled (h : Expression us tree) (hus : us ⊆ all) :
    LabelledTree all tree := by
  refine Chain.labelled (fun _ _ _ ht => labelled_joinSum? ht) (fun vs hvs tree h => ?_) h hus
  refine Chain.labelled (fun _ _ _ ht => labelled_joinTerm? ht) (fun ws hws tree h => ?_) h hvs
  obtain ⟨t, rfl, ht⟩ := h
  exact labelled_operandLeaf? (by simpa using hws) ht

lemma Phrase.Comparison.labelled (h : Comparison us tree) (hus : us ⊆ all) :
    LabelledTree all tree := by
  cases h with
  | @intro vs ws l r t op hl ht hr =>
      rw [List.append_subset, List.cons_subset] at hus
      have hleft := hl.labelled hus.1
      have hright := hr.labelled hus.2.2
      exact .node (labelled_some hus.2.1 (.comparison ht)) (by simpa using ⟨hleft, hright⟩)

lemma Phrase.Condition.labelled (h : Condition us tree) (hus : us ⊆ all) :
    LabelledTree all tree :=
  Chain.labelled (fun _ ht _ h => labelled_joinCondition? ht h)
    (fun _ hvs _ h => Chain.labelled (fun _ ht _ h => labelled_joinCondition? ht h)
      (fun _ hws _ h => h.labelled hws) h hvs) h hus

lemma Phrase.Guard.labelled (h : Guard us tree) (hus : us ⊆ all) : LabelledTree all tree := by
  obtain ⟨-, h, -⟩ := h
  simp only [List.cons_append, List.cons_subset, List.append_subset] at hus
  exact h.labelled hus.2.1

lemma Phrase.More.labelled {leaf? : Token → Option Tree}
    (hleaf : ∀ t ∈ all, ∀ tree, leaf? t = some tree → LabelledTree all tree) {trees : List Tree}
    (h : More leaf? us trees) (hus : us ⊆ all) : ∀ tree ∈ trees, LabelledTree all tree := by
  induction h with
  | nil => simp
  | cons _ ht _ ih =>
      rw [List.cons_subset, List.cons_subset] at hus
      exact List.forall_mem_cons.mpr ⟨hleaf _ hus.2.1 _ ht, ih hus.2.2⟩

lemma Phrase.Simple.labelled (h : Simple us tree) (hus : us ⊆ all) : LabelledTree all tree := by
  cases h with
  | @initialization _ t name _ _ value _ ht hn _ h _ =>
      simp only [List.cons_append, List.cons_subset, List.append_subset] at hus
      obtain ⟨hmem, hname, -, hus, -⟩ := hus
      have hscalar := labelled_leaf hmem (.scalar ht)
      have hvariable := labelled_variableLeaf hname hn
      have hvalue := h.labelled hus
      exact .node (labelled_none _ _) (by simpa using ⟨hscalar, hvariable, hvalue⟩)
  | @declaration _ t name _ names _ ht hn h _ =>
      simp only [List.cons_append, List.cons_subset, List.append_subset] at hus
      obtain ⟨hmem, hname, hus, -⟩ := hus
      have hscalar := labelled_leaf hmem (.scalar ht)
      have hvariable := labelled_variableLeaf hname hn
      have hnames := h.labelled (fun t ht tree h => labelled_nameLeaf? ht h) hus
      exact .node (labelled_none _ _) (by simpa using ⟨hscalar, hvariable, hnames⟩)
  | @assignment t _ _ value _ ht _ h _ =>
      simp only [List.cons_append, List.cons_subset, List.append_subset] at hus
      obtain ⟨hmem, -, hus, -⟩ := hus
      have hvalue := h.labelled hus
      exact .node (labelled_some hmem (.assignment ht)) (by simpa using hvalue)
  | @print _ _ a _ first others _ _ _ _ ha h _ _ =>
      simp only [List.cons_append, List.cons_subset, List.append_subset] at hus
      obtain ⟨-, -, hmem, hus, -⟩ := hus
      have hfirst := labelled_contentLeaf? hmem ha
      have hothers := h.labelled (fun t ht tree h => labelled_contentLeaf? ht h) hus
      exact .node (labelled_none _ _) (by simpa using ⟨hfirst, hothers⟩)
  | @read _ name _ _ hn _ =>
      simp only [List.cons_subset] at hus
      have hvariable := labelled_variableLeaf hus.2.1 hn
      exact .node (labelled_none _ _) (by simpa using hvariable)

/-! ## Programs -/

lemma labelled_blockNode {trees : List Tree} (h : ∀ tree ∈ trees, LabelledTree all tree)
    (start : List Token) : LabelledTree all (blockNode start trees) :=
  .node (labelled_none _ _) h

lemma Kept.labelled (h : Kept all tree) : LabelledTree all tree := by
  induction h with
  | simple hus h => exact h.labelled hus
  | @loop _ _ start _ _ _ hus hg _ ih =>
      have htest := hg.labelled hus
      have hbody := labelled_blockNode ih start
      exact .node (labelled_none _ _) (by simpa using ⟨htest, hbody⟩)
  | @conditional _ _ start _ _ _ hus hg _ ih =>
      have htest := hg.labelled hus
      have hyes := labelled_blockNode ih start
      exact .node (labelled_none _ _) (by simpa using ⟨htest, hyes⟩)
  | @alternative _ _ start start' _ _ _ _ hus hg _ _ ihyes ihno =>
      have htest := hg.labelled hus
      have hyes := labelled_blockNode ihyes start
      have hno := labelled_blockNode ihno start'
      exact .node (labelled_none _ _) (by simpa using ⟨htest, hyes, hno⟩)

lemma KeptProgram.labelled (h : KeptProgram all tree) : LabelledTree all tree := by
  obtain ⟨hname, htrees, hending⟩ := h
  have hblock := labelled_blockNode fun tree htree => (htrees tree htree).labelled
  refine .node ?_ (List.forall_mem_cons.mpr ⟨hblock _, ?_⟩)
  · intro label hlabel
    obtain ⟨t, ht, hk, rfl⟩ := hname label hlabel
    exact ⟨t, ht, .program hk, .inl rfl⟩
  · intro tree htree
    obtain ⟨t, -, rfl⟩ := hending tree htree
    exact .node (labelled_none _ _) (by simp)

end Grammar

open Grammar

lemma readAll_ok {p : Production} {ts : List Token} {tree : Tree}
    (h : (readAll p ts).outcome = .ok tree) : p.read ts = .ok (tree, []) := by
  unfold readAll at h
  split at h
  · cases h
  · cases h
    assumption
  · cases h

/-- A tree that is read is what its entry comes to. -/
lemma outcome_of_tree {entry : Entry} {ts : List Token} {tree : Tree}
    (h : ((Parser.ofTokens ts).parse entry).tree = some tree) :
    (entry.run ts).outcome = .ok tree := by
  rw [Parser.parse_tree] at h
  cases hrun : (entry.run ts).outcome with
  | error s => simp [hrun, Except.toOption] at h
  | ok tree' => simpa [hrun, Except.toOption] using h

/-- **Every label of a tree that is read is that of a token**, which is where the node is, but for
the name of a program. -/
theorem parse_labelled {entry : Entry} {ts : List Token} {tree : Tree}
    (h : ((Parser.ofTokens ts).parse entry).tree = some tree) :
    tree.Everywhere (Heading.Labelled ts) := by
  have hrun := outcome_of_tree h
  cases entry with
  | program => exact (program_kept hrun).labelled
  | expression =>
      obtain ⟨us, hts, hphrase⟩ := (lawful_expression.law ts).sound (readAll_ok hrun)
      exact hphrase.labelled (by simp [hts])
  | condition =>
      obtain ⟨us, hts, hphrase⟩ := (lawful_condition.law ts).sound (readAll_ok hrun)
      exact hphrase.labelled (by simp [hts])

end Imperativo
