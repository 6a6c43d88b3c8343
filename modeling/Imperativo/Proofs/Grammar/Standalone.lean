import Imperativo.Proofs.Building.Program
import Imperativo.Proofs.Grammar.Levels
import Imperativo.Proofs.Grammar.Shape

/-!
# Expressions and conditions by themselves

A list of tokens that is read as one expression or one condition comes to its tree, or to one error
that says where and why the list stopped being the beginning of one.

* **`Settles.of_lawful`** — it is so for every part of the grammar that is lawful and reads its
  phrases to their end.
* **`parse_standalone`** — what this comes to for expressions and for conditions: which lists are
  accepted, what their trees look like, and which class the error has.

The class of an error depends on what stands in front of it.  An expression that has a wrong token
behind it could not be continued there, and neither could one that is waiting for an operand; the
two are told apart by whether what was read is an expression (`fault_expression`).  In a condition
everything counts as malformed but a token behind a complete one; a second relation is no such
token, since the comparison in front of it is refused (`fault_condition`).
-/

namespace Imperativo

/-! ## Reading a tree from left to right -/

/-- The headings of a tree from left to right; that of a node with two children stands between
them. -/
def Tree.inOrder : Tree → List Heading
  | .node heading [l, r] => l.inOrder ++ heading :: r.inOrder
  | .node heading _ => [heading]

/-- The heading of the node that an operand or an operator becomes. -/
def Token.heading? (t : Token) : Option Heading :=
  match t.kind with
  | .integer | .float => some ⟨.number, some t.valueText, t.position⟩
  | .identifier => some ⟨.variable, some t.valueText, t.position⟩
  | .arithmetic op => some ⟨.binary op, none, t.position⟩
  | .relation op => some ⟨.comparison, some op.spelling.toList, t.position⟩
  | .connective op => some ⟨.combination, some op.spelling.toList, t.position⟩
  | _ => none

namespace Grammar

open Phrase

variable {ts us : List Token} {t : Token} {tree : Tree} {heading : Heading}

/-- The tree says from left to right what the tokens say. -/
def ReadsAs (ts : List Token) (tree : Tree) : Prop :=
  ts.map Token.heading? = tree.inOrder.map some

lemma ReadsAs.join {l r : Tree} (hl : ReadsAs ts l) (ht : t.heading? = some heading)
    (hr : ReadsAs us r) : ReadsAs (ts ++ t :: us) (.node heading [l, r]) := by
  unfold ReadsAs at hl hr ⊢
  rw [List.map_append, List.map_cons, hl, ht, hr, Tree.inOrder, List.map_append, List.map_cons]

lemma readsAs_operandLeaf? (h : operandLeaf? t = some tree) : ReadsAs [t] tree := by
  unfold operandLeaf? at h
  split at h <;> cases h <;>
    simp [ReadsAs, Token.heading?, Tree.leaf, Tree.inOrder, *]

lemma heading?_of_joinTerm? (h : joinTerm? t = some heading) : t.heading? = some heading := by
  obtain ⟨op, hk, -, rfl⟩ := joinTerm?_some h
  simp [Token.heading?, hk]

lemma heading?_of_joinSum? (h : joinSum? t = some heading) : t.heading? = some heading := by
  obtain ⟨op, hk, -, rfl⟩ := joinSum?_some h
  simp [Token.heading?, hk]

lemma heading?_of_joinCondition? {tight : Bool} (h : joinCondition? tight t = some heading) :
    t.heading? = some heading := by
  obtain ⟨op, hk, -, rfl⟩ := joinCondition?_some h
  simp [Token.heading?, hk]

lemma Phrase.Chain.readsAs {join? : Token → Option Heading} {Item : List Token → Tree → Prop}
    (hjoin : ∀ {t heading}, join? t = some heading → t.heading? = some heading)
    (hitem : ∀ {ts tree}, Item ts tree → ReadsAs ts tree) (h : Chain join? Item ts tree) :
    ReadsAs ts tree := by
  induction h with
  | item h => exact hitem h
  | join _ hop hr ih => exact ih.join (hjoin hop) (hitem hr)

lemma Phrase.Expression.readsAs (h : Expression ts tree) : ReadsAs ts tree := by
  refine Chain.readsAs heading?_of_joinSum? (Chain.readsAs heading?_of_joinTerm? ?_) h
  rintro _ _ ⟨t, rfl, ht⟩
  exact readsAs_operandLeaf? ht

lemma Phrase.Condition.readsAs (h : Condition ts tree) : ReadsAs ts tree := by
  refine Chain.readsAs heading?_of_joinCondition?
    (Chain.readsAs heading?_of_joinCondition? ?_) h
  rintro _ _ ⟨hl, ht, hr⟩
  exact hl.readsAs.join (by simp [Token.heading?, ht]) hr.readsAs

/-! ## The trees of expressions and conditions -/

namespace Shape

/-- The tree of an expression: what stands to the right of an operator binds more tightly than it,
which is an operand behind a multiplication or division, and what stands to the left binds no more
loosely. -/
inductive Operation : Tree → Prop
  | operand {kind} (s p) (h : kind = .number ∨ kind = .variable) : Operation (.leaf kind s p)
  | product {op l r} (p) (hop : op = .mul ∨ op = .div) (hl : Operation l) (hr : Operation r)
      (hleft : ¬ IsSum l) (hright : r.children = []) : Operation (.node ⟨.binary op, none, p⟩ [l, r])
  | sum {op l r} (p) (hop : op = .add ∨ op = .sub) (hl : Operation l) (hr : Operation r)
      (hright : ¬ IsSum r) : Operation (.node ⟨.binary op, none, p⟩ [l, r])

/-- The tree of a condition: comparisons of expressions, joined by connectives in the same way. -/
inductive Combination : Tree → Prop
  | comparison {l r} (op : Relation) (p) (hl : Operation l) (hr : Operation r) :
      Combination (.node ⟨.comparison, some op.spelling.toList, p⟩ [l, r])
  | both {op : Connective} {l r} (p) (hop : op.isAnd = true) (hl : Combination l)
      (hr : Combination r) (hleft : ¬ IsOr l) (hright : ¬ IsCombination r) :
      Combination (.node ⟨.combination, some op.spelling.toList, p⟩ [l, r])
  | either {op : Connective} {l r} (p) (hop : op.isAnd = false) (hl : Combination l)
      (hr : Combination r) (hright : ¬ IsOr r) :
      Combination (.node ⟨.combination, some op.spelling.toList, p⟩ [l, r])

/-- A node that is labelled with one of the tighter connectives is none of the looser ones. -/
lemma not_isOr {op : Connective} {p : Position} {trees : List Tree} (hop : op.isAnd = true) :
    ¬ IsOr (.node ⟨.combination, some op.spelling.toList, p⟩ trees) := by
  rintro ⟨-, op', hop', hlabel⟩
  have hkind := congrArg Kind.ofSpelling? (Option.some.inj hlabel)
  rw [Kind.ofSpelling?_connective, Kind.ofSpelling?_connective] at hkind
  obtain rfl : op = op' := by simpa using hkind
  rw [hop] at hop'
  cases hop'

end Shape

open Shape (Operation Combination IsSum IsOr IsCombination)

lemma operation_operandLeaf? (h : operandLeaf? t = some tree) :
    Operation tree ∧ tree.children = [] ∧ ¬ IsSum tree := by
  unfold operandLeaf? at h
  split at h <;> cases h <;>
    exact ⟨.operand _ _ (by simp), rfl, by simp [IsSum, Tree.leaf, Tree.heading]⟩

lemma Phrase.Term.operation (h : Term ts tree) : Operation tree ∧ ¬ IsSum tree := by
  induction h with
  | item h =>
      obtain ⟨t, -, ht⟩ := h
      obtain ⟨hleaf, -, hsum⟩ := operation_operandLeaf? ht
      exact ⟨hleaf, hsum⟩
  | join _ hjoin hr ih =>
      obtain ⟨t, -, ht⟩ := hr
      obtain ⟨hr, hright, -⟩ := operation_operandLeaf? ht
      obtain ⟨op, -, hop, rfl⟩ := joinTerm?_some hjoin
      refine ⟨.product _ hop ih.1 hr ih.2 hright, ?_⟩
      rcases hop with rfl | rfl <;> simp [IsSum, Tree.heading]

lemma Phrase.Expression.operation (h : Expression ts tree) : Operation tree := by
  induction h with
  | item h => exact (Term.operation h).1
  | join _ hjoin hr ih =>
      obtain ⟨hr, hright⟩ := Term.operation hr
      obtain ⟨op, -, hop, rfl⟩ := joinSum?_some hjoin
      exact .sum _ hop ih hr hright

lemma Phrase.Comparison.combination (h : Comparison ts tree) :
    Combination tree ∧ ¬ IsCombination tree := by
  obtain ⟨hl, ht, hr⟩ := h
  exact ⟨.comparison _ _ hl.operation hr.operation, by simp [IsCombination, Tree.heading]⟩

lemma Phrase.Conjunction.combination (h : Conjunction ts tree) :
    Combination tree ∧ ¬ IsOr tree := by
  induction h with
  | item h =>
      obtain ⟨hcomparison, hnot⟩ := h.combination
      exact ⟨hcomparison, fun h => hnot h.1⟩
  | join _ hjoin hr ih =>
      obtain ⟨hr, hright⟩ := hr.combination
      obtain ⟨op, -, hop, rfl⟩ := joinCondition?_some hjoin
      exact ⟨.both _ hop ih.1 hr ih.2 hright, Shape.not_isOr hop⟩

lemma Phrase.Condition.combination (h : Condition ts tree) : Combination tree := by
  induction h with
  | item h => exact (Conjunction.combination h).1
  | join _ hjoin hr ih =>
      obtain ⟨hr, hright⟩ := Conjunction.combination hr
      obtain ⟨op, -, hop, rfl⟩ := joinCondition?_some hjoin
      exact .either _ hop ih hr hright

/-! ## One phrase and nothing behind it -/

section Settles

variable (entry : Entry) (IsPhrase : List Token → Prop) (HasShape : Tree → Prop)
  (Fault : List Token → Token → GrammarFault → Prop) (ts : List Token)

/-- The list is read as one phrase.  A phrase comes to a tree of the right shape that says from left
to right what the tokens say, and to no diagnostic.  Anything else comes to no tree and to one
diagnostic: that the input has ended, at the last token, if the list is the beginning of a phrase,
and else of the right class at the first token with which it is no such beginning any more. -/
structure Settles : Prop where
  accepts : ((Parser.ofTokens ts).parse entry).ast?.isSome = true ∧
    ((Parser.ofTokens ts).parse entry).log.entries = [] ↔ IsPhrase ts
  tree : IsPhrase ts → ∃ tree, ((Parser.ofTokens ts).parse entry).ast? = some tree.seal ∧
    HasShape tree ∧ ReadsAs ts tree
  no_tree : ¬ IsPhrase ts → ((Parser.ofTokens ts).parse entry).ast? = none
  at_end : ¬ IsPhrase ts → Beginning IsPhrase ts →
    ∃ d, ((Parser.ofTokens ts).parse entry).log.entries = [d] ∧
      d.cause = .grammar .unexpectedEnd ∧ d.At ((ts.getLast?.map Token.position).getD ⟨1, 1⟩)
  at_token : ¬ Beginning IsPhrase ts → ∃ us t more d fault, ts = us ++ t :: more ∧
    Beginning IsPhrase us ∧ ¬ Beginning IsPhrase (us ++ [t]) ∧
    ((Parser.ofTokens ts).parse entry).log.entries = [d] ∧ d.cause = .grammar fault ∧
    Fault us t fault ∧ d.At t.position

variable {entry IsPhrase HasShape Fault ts}

lemma Settles.of_done (hrun : entry.run ts = Run.done tree) (hphrase : IsPhrase ts)
    (hshape : HasShape tree) (hreads : ReadsAs ts tree) :
    Settles entry IsPhrase HasShape Fault ts := by
  have hast : ((Parser.ofTokens ts).parse entry).ast? = some tree.seal := by
    rw [parse_ast, Parser.parse_tree, hrun]
    rfl
  have hempty : ((Parser.ofTokens ts).parse entry).log.entries = [] := by
    rw [Parser.parse_entries, hrun]
    rfl
  have hbegins : Beginning IsPhrase ts := .of_self hphrase
  exact ⟨⟨fun _ => hphrase, fun _ => ⟨by rw [hast]; rfl, hempty⟩⟩,
    fun _ => ⟨tree, hast, hshape, hreads⟩, absurd hphrase, absurd hphrase, absurd hbegins⟩

section Stopped

variable {s : Stop} (hrun : entry.run ts = Run.stopped s)

include hrun

lemma ast?_of_stopped : ((Parser.ofTokens ts).parse entry).ast? = none := by
  rw [parse_ast, Parser.parse_tree, hrun]
  rfl

lemma entries_of_stopped :
    ((Parser.ofTokens ts).parse entry).log.entries = [s.diagnostic (lastPosition ts)] := by
  rw [Parser.parse_entries, hrun]
  rfl

lemma Settles.of_end (hnot : ¬ IsPhrase ts) (hrest : s.rest = []) (hbegins : Beginning IsPhrase ts) :
    Settles entry IsPhrase HasShape Fault ts := by
  have hast := ast?_of_stopped hrun
  obtain ⟨hcause, hat⟩ := Stop.diagnostic_nil hrest (lastPosition ts)
  refine ⟨⟨fun h => ?_, (absurd · hnot)⟩, (absurd · hnot), fun _ => hast, fun _ _ => ?_,
    absurd hbegins⟩
  · rw [hast] at h
    cases h.1
  · exact ⟨_, entries_of_stopped hrun, hcause, hat⟩

lemma Settles.of_token {t : Token} {more : List Token} (hts : ts = us ++ t :: more)
    (hrest : s.rest = t :: more) (hbegins : Beginning IsPhrase us)
    (hends : ¬ Beginning IsPhrase (us ++ [t])) (hfault : Fault us t s.fault) :
    Settles entry IsPhrase HasShape Fault ts := by
  have hast := ast?_of_stopped hrun
  obtain ⟨hcause, hat⟩ := Stop.diagnostic_cons hrest (lastPosition ts)
  have hnot : ¬ Beginning IsPhrase ts := by
    intro h
    refine hends (h.of_prefix ⟨more, ?_⟩)
    rw [hts, List.append_assoc]
    rfl
  have hphrase : ¬ IsPhrase ts := fun h => hnot (.of_self h)
  refine ⟨⟨fun h => ?_, (absurd · hphrase)⟩, (absurd · hphrase), fun _ => hast,
    fun _ h => absurd h hnot, fun _ => ?_⟩
  · rw [hast] at h
    cases h.1
  · exact ⟨us, t, more, _, _, hts, hbegins, hends, entries_of_stopped hrun, hcause, hfault, hat⟩

end Stopped

/-- **Reading all tokens as one phrase settles what they are**, for a lawful part of the grammar
that reads its phrases to their end. -/
theorem Settles.of_lawful {p : Production} {R : List Token → Tree → Prop}
    (hrun : entry.run ts = readAll p ts) (hlaw : Lawful p.read R)
    (hread : ∀ {us tree}, R us tree → p.read us = .ok (tree, []))
    (hphrase : ∀ {us}, IsPhrase us ↔ ∃ tree, R us tree)
    (htree : ∀ {us tree}, R us tree → HasShape tree ∧ ReadsAs us tree)
    (hstop : ∀ {us t more s}, p.read (us ++ t :: more) = .error s → Beginning IsPhrase us →
      ¬ Beginning IsPhrase (us ++ [t]) → Fault us t s.fault)
    (hleft : ∀ {us t more tree}, p.read (us ++ t :: more) = .ok (tree, t :: more) →
      IsPhrase us → Fault us t .unexpectedToken) :
    Settles entry IsPhrase HasShape Fault ts := by
  obtain rfl : IsPhrase = Phrases R := funext fun us => propext hphrase
  have hends : ∀ {us t more}, left (p.read (us ++ t :: more)) = t :: more →
      ¬ Beginning (Phrases R) (us ++ [t]) :=
    fun h => hlaw.not_begins (fun hR => by rw [hread hR]; rfl) h
  cases hts : p.read ts with
  | error s =>
      have hstopped : entry.run ts = Run.stopped s := by rw [hrun, readAll, hts]
      obtain ⟨us, hus, hbegins⟩ := (hlaw.law ts).begins
      rw [hts, left_error] at hus
      cases hrest : s.rest with
      | nil =>
          have hnot : ¬ Phrases R ts := by
            rintro ⟨tree, htree⟩
            rw [hread htree] at hts
            cases hts
          rw [hrest, List.append_nil] at hus
          exact .of_end hstopped hnot hrest (hus ▸ hbegins)
      | cons t more =>
          rw [hrest] at hus
          subst hus
          have hnext := hends (by rw [hts]; exact hrest)
          exact .of_token hstopped rfl hrest hbegins hnext (hstop hts hbegins hnext)
  | ok x =>
      obtain ⟨tree, rest⟩ := x
      obtain ⟨us, rfl, hus⟩ := (hlaw.law ts).sound hts
      cases rest with
      | nil =>
          rw [List.append_nil] at hts hrun ⊢
          obtain ⟨hshape, hreads⟩ := htree hus
          refine .of_done ?_ ⟨tree, hus⟩ hshape hreads
          rw [hrun, readAll, hts]
      | cons t more =>
          have hstopped : entry.run (us ++ t :: more) =
              Run.stopped (.before .endOfExpression (t :: more)) := by rw [hrun, readAll, hts]
          exact .of_token hstopped rfl rfl (.of_self ⟨tree, hus⟩) (hends (by rw [hts]; rfl))
            (hleft hts ⟨tree, hus⟩)

end Settles

/-! ## Expressions -/

lemma continuesExpression_eq (k : Kind) : continuesExpression k = k.isArithmetic := by
  cases k <;> rfl

/-- Wherever an expression stops, an operand is expected. -/
lemma expression_stops {s : Stop} (h : expression.read ts = .error s) :
    s.fault = .missingOperand :=
  chain_stops (P := fun s => s.fault = .missingOperand)
    (chain_stops (leafRead_stops fun _ => rfl)) ts s h

/-- The classes of errors in expressions.  An operand is missing if none has been read, or none
behind an operator; what stands behind an expression is unexpected. -/
def ExpressionFault (us : List Token) (_ : Token) : GrammarFault → Prop
  | .missingOperand =>
    us = [] ∨ ∃ vs op, us = vs ++ [op] ∧ IsExpression vs ∧ op.kind.isArithmetic = true
  | .unexpectedToken => IsExpression us
  | _ => False

lemma fault_expression {more : List Token} {s : Stop}
    (h : expression.read (us ++ t :: more) = .error s) (hbegins : Beginning IsExpression us)
    (hends : ¬ Beginning IsExpression (us ++ [t])) : ExpressionFault us t s.fault := by
  have hnot : ¬ IsExpression us := by
    intro hus
    have ht : t.kind.isArithmetic = false :=
      Bool.eq_false_iff.mpr fun hop => hends (hus.begins_snoc hop)
    obtain ⟨tree, htree⟩ := isExpression_iff.mp hus
    rw [complete_expression (t :: more) htree (by rwa [apart_cons, continuesExpression_eq])] at h
    cases h
  rw [expression_stops h]
  exact IsExpression.beginning hbegins hnot

/-! ## Conditions -/

lemma continuesCondition_eq (k : Kind) :
    continuesCondition k = (k.isArithmetic || k.isConnective || k.isRelation) := by
  cases k <;> rfl

lemma withoutRelation_leaves {tree' : Tree} {rest : List Token}
    (h : withoutRelation tree ts = .ok (tree', rest)) : Apart Kind.isRelation rest := by
  cases ts with
  | nil => cases h; exact apart_nil _
  | cons t more =>
      cases ht : t.kind with
      | relation op => simp only [withoutRelation, refuseRelation, ht] at h; cases h
      | _ =>
          rw [withoutRelation_ok (by rw [ht]; rfl)] at h
          cases h
          rw [apart_cons, ht]
          rfl

/-- No relation stands behind a comparison that is read. -/
lemma comparison_leaves {rest : List Token} (h : comparison.read ts = .ok (tree, rest)) :
    Apart Kind.isRelation rest := by
  rw [comparison_read] at h
  obtain ⟨l, behindLeft, -, h⟩ := readThen_eq_ok h
  obtain ⟨x, behindRelation, -, h⟩ := readThen_eq_ok h
  obtain ⟨r, behindRight, -, h⟩ := readThen_eq_ok h
  exact withoutRelation_leaves h

/-- No relation stands behind a condition that is read. -/
lemma condition_leaves {rest : List Token} (h : condition.read ts = .ok (tree, rest)) :
    Apart Kind.isRelation rest := by
  rw [condition_read] at h
  have hconjunction : ∀ ts tree rest, conjunction.read ts = .ok (tree, rest) →
      Apart Kind.isRelation rest :=
    fun _ _ _ h => (chain_leaves (fun _ _ _ => comparison_leaves) h).1
  exact (chain_leaves hconjunction (withFault_eq_ok h)).1

lemma condition_stops {s : Stop} (h : condition.read ts = .error s) :
    s.fault = .malformedCondition := by
  rw [condition_read] at h
  exact fault_of_withFault h

/-- The classes of errors in conditions.  What stands behind a condition is unexpected unless it is
a relation; anything else is a malformed condition. -/
def ConditionFault (us : List Token) (t : Token) : GrammarFault → Prop
  | .unexpectedToken => IsCondition us ∧ t.kind.isRelation = false
  | .malformedCondition => ¬ (IsCondition us ∧ t.kind.isRelation = false)
  | _ => False

lemma fault_condition {more : List Token} {s : Stop}
    (h : condition.read (us ++ t :: more) = .error s)
    (hends : ¬ Beginning IsCondition (us ++ [t])) : ConditionFault us t s.fault := by
  rw [condition_stops h]
  rintro ⟨hus, hrelation⟩
  have ht : (t.kind.isArithmetic || t.kind.isConnective) = false :=
    Bool.eq_false_iff.mpr fun hop => hends (hus.begins_snoc (Bool.or_eq_true _ _ ▸ hop))
  have hapart : Apart continuesCondition (t :: more) := by
    rw [apart_cons, continuesCondition_eq, ht, hrelation]
    rfl
  obtain ⟨tree, htree⟩ := isCondition_iff.mp hus
  rw [complete_condition (t :: more) htree hapart] at h
  cases h

/-! ## The parser -/

/-- **An expression or a condition by itself comes to its tree or to one precise error.**  A list is
accepted if it is operands with an operator between any two, or comparisons with a connective
between any two.  Its tree says from left to right what the list says, with multiplications and
divisions below sums, and the tighter connectives below the looser ones, each joined from the left.
Any other list has no tree and one error, at the end if it could go on, and else at the first token
with which it could not: an operand is missing, a condition is malformed, or the token stands behind
all that could be read. -/
theorem parse_standalone (ts : List Token) :
    Settles .expression IsExpression Operation ExpressionFault ts ∧
    Settles .condition IsCondition Combination ConditionFault ts := by
  constructor
  · exact .of_lawful rfl lawful_expression complete_expression.whole isExpression_iff
      (fun h => ⟨h.operation, h.readsAs⟩) fault_expression fun _ hus => hus
  · refine .of_lawful rfl lawful_condition complete_condition.whole isCondition_iff
      (fun h => ⟨h.combination, h.readsAs⟩) (fun h _ => fault_condition h) fun h hus => ?_
    exact ⟨hus, (apart_cons _ _ _).mp (condition_leaves h)⟩

/-- A second relation makes a condition malformed; another token behind it is unexpected. -/
example :
    let faults (last : Kind) := ((Parser.ofTokens ([.integer, .relation .less, .integer, last].map
      Kind.token)).parse .condition).log.grammarFaults
    faults (.relation .less) = [.malformedCondition] ∧
      faults (.sign .comma) = [.unexpectedToken] := by decide +kernel

end Grammar

end Imperativo
