import Imperativo.Proofs.Grammar.Rules

/-!
# Two levels of operators

Expressions and conditions have two levels of operators each, and what is on one level is an item of
the other.  The levels decide which tree a list stands for, and nothing else: a list is a chain of
chains exactly if it is a chain of items joined by operators of either level (`Chain.levels`), so
the grammar without levels derives the same lists.

* **`isExpression_iff`** — expressions are operands with an operator between any two of them.
* **`isCondition_iff`** — conditions are comparisons with a connective between any two of them.

As nothing closes an expression or a condition but its end, whatever is one can go on behind a
further operator (`IsExpression.begins_snoc`, `IsCondition.begins_snoc`), and the beginning of an
expression ends with an operand or is still waiting for one (`IsExpression.beginning`).
-/

namespace Imperativo.Grammar

open Phrase

/-! ## Chains of one level and of two -/

namespace Phrase.Chain

variable {join? loose tight : Token → Option Heading} {Item : List Token → Tree → Prop}
  {ts us : List Token} {l r tree : Tree} {op : Token}

/-- What goes on behind each item goes on behind a chain. -/
lemma extend {vs : List Token}
    (hitem : ∀ {ts tree}, Item ts tree → ∃ tree', Item (ts ++ vs) tree')
    (h : Chain join? Item ts tree) : ∃ tree', Chain join? Item (ts ++ vs) tree' := by
  cases h with
  | item h =>
      obtain ⟨tree', h'⟩ := hitem h
      exact ⟨tree', .item h'⟩
  | join hl hop hr =>
      obtain ⟨r', hr'⟩ := hitem hr
      rw [List.append_assoc, List.cons_append]
      exact ⟨_, hl.join hop hr'⟩

/-- The operators of both levels. -/
def either (loose tight : Token → Option Heading) (t : Token) : Option Heading :=
  (loose t).or (tight t)

lemma exists_either : (∃ heading, either loose tight op = some heading) ↔
    (∃ heading, loose op = some heading) ∨ ∃ heading, tight op = some heading := by
  simp only [either, ← Option.isSome_iff_exists, Option.isSome_or, Bool.or_eq_true]

/-- An operator of either level and an item go on behind chains of chains: on the looser level they
are a chain of their own, on the tighter one they belong to the last. -/
lemma snoc (h : Chain loose (Chain tight Item) ts l)
    (hop : ∃ heading, either loose tight op = some heading) (hr : Item us r) :
    ∃ tree, Chain loose (Chain tight Item) (ts ++ op :: us) tree := by
  rcases exists_either.mp hop with ⟨heading, hloose⟩ | ⟨heading, htight⟩
  · exact ⟨_, h.join hloose (.item hr)⟩
  · exact h.extend fun hchain => ⟨_, hchain.join htight hr⟩

/-- A chain of one level behind a chain of both is a chain of both. -/
lemma append_flat (hop : ∃ heading, either loose tight op = some heading)
    (hl : Chain (either loose tight) Item ts l) (h : Chain tight Item us r) :
    ∃ tree, Chain (either loose tight) Item (ts ++ op :: us) tree := by
  induction h with
  | item hr =>
      obtain ⟨heading, hop⟩ := hop
      exact ⟨_, hl.join hop hr⟩
  | join _ hop' hr ih =>
      obtain ⟨tree, htree⟩ := ih
      obtain ⟨heading, hop'⟩ := exists_either.mpr (.inr ⟨_, hop'⟩)
      have hchain := htree.join hop' hr
      rw [List.append_assoc, List.cons_append] at hchain
      exact ⟨_, hchain⟩

/-- **The levels decide nothing but the tree.** -/
theorem levels : (∃ tree, Chain (either loose tight) Item ts tree) ↔
    ∃ tree, Chain loose (Chain tight Item) ts tree := by
  constructor
  · rintro ⟨tree, h⟩
    induction h with
    | item h => exact ⟨_, .item (.item h)⟩
    | join _ hop hr ih =>
        obtain ⟨l, hl⟩ := ih
        exact hl.snoc ⟨_, hop⟩ hr
  · rintro ⟨tree, h⟩
    induction h with
    | item h =>
        induction h with
        | item h => exact ⟨_, .item h⟩
        | join _ hop hr ih =>
            obtain ⟨l, hl⟩ := ih
            exact hl.append_flat (exists_either.mpr (.inr ⟨_, hop⟩)) (.item hr)
    | join _ hop hr ih =>
        obtain ⟨l, hl⟩ := ih
        exact hl.append_flat (exists_either.mpr (.inl ⟨_, hop⟩)) hr

/-- The beginning of a chain of leaves is empty, or a chain, or a chain with an operator behind
it. -/
lemma beginning {leaf? : Token → Option Tree} (h : Chain join? (Leaf leaf?) ts tree)
    (hus : us <+: ts) : us = [] ∨ (∃ l, Chain join? (Leaf leaf?) us l) ∨
      ∃ vs op, us = vs ++ [op] ∧ (∃ l, Chain join? (Leaf leaf?) vs l) ∧
        ∃ heading, join? op = some heading := by
  induction h generalizing us with
  | item h =>
      obtain ⟨t, rfl, ht⟩ := h
      rcases List.prefix_cons_iff.mp hus with rfl | ⟨vs, rfl, hvs⟩
      · exact .inl rfl
      · obtain rfl := List.prefix_nil.mp hvs
        exact .inr (.inl ⟨_, .item ⟨t, rfl, ht⟩⟩)
  | @join ts _ op heading l r hl hop hr ih =>
      obtain ⟨t, rfl, ht⟩ := hr
      obtain ⟨behind, hbehind⟩ := hus
      rcases List.append_eq_append_iff.mp hbehind with ⟨vs, hvs, -⟩ | ⟨vs, rfl, hvs⟩
      · exact ih ⟨vs, hvs.symm⟩
      · -- what of the last operator and the leaf behind it belongs to the beginning
        rcases List.prefix_cons_iff.mp ⟨behind, hvs.symm⟩ with rfl | ⟨vs, rfl, hleaf⟩
        · rw [List.append_nil]
          exact .inr (.inl ⟨l, hl⟩)
        · rcases List.prefix_cons_iff.mp hleaf with rfl | ⟨vs, rfl, hnil⟩
          · exact .inr (.inr ⟨ts, op, rfl, ⟨l, hl⟩, heading, hop⟩)
          · obtain rfl := List.prefix_nil.mp hnil
            exact .inr (.inl ⟨_, hl.join hop ⟨t, rfl, ht⟩⟩)

end Phrase.Chain

/-! ## The grammar without levels -/

/-- Items joined by operators are derived if they are a chain of chains, the operators being those
of both levels. -/
lemma derived_joined {loose tight : Token → Option Heading} {Item : List Token → Tree → Prop}
    {item : Symbol} {ops : List Kind} {ts : List Token}
    (hderived : ∀ {ts tree}, Item ts tree → Derived (.symbol item) ts)
    (hmeaning : ∀ {ts}, ts ∈ meaning item → ∃ tree, Item ts tree)
    (hop : ∀ {t : Token}, t.kind ∈ ops ↔ ∃ heading, Chain.either loose tight t = some heading) :
    Derived (.joined item ops) ts ↔ ∃ tree, Chain loose (Chain tight Item) ts tree := by
  rw [← Chain.levels]
  constructor
  · intro h
    exact mem_joined item Item hmeaning hop.mp (h.mem_language meaning_closed rfl)
  · rintro ⟨tree, h⟩
    exact h.derived hderived fun hjoin => hop.mpr ⟨_, hjoin⟩

/-! ### Expressions -/

/-- Operands with an operator between any two. -/
def IsExpression : List Token → Prop :=
  Derived (.joined .factor
    [.arithmetic .add, .arithmetic .sub, .arithmetic .mul, .arithmetic .div])

lemma exists_operator {t : Token} :
    (∃ heading, Chain.either joinSum? joinTerm? t = some heading) ↔ t.kind.isArithmetic = true := by
  rw [← Option.isSome_iff_exists]
  cases hk : t.kind with
  | arithmetic op => cases op <;> simp [Chain.either, joinSum?, joinTerm?, hk, Kind.isArithmetic]
  | _ => simp [Chain.either, joinSum?, joinTerm?, hk, Kind.isArithmetic]

lemma isArithmetic_iff {k : Kind} : k.isArithmetic = true ↔
    k ∈ [Kind.arithmetic .add, .arithmetic .sub, .arithmetic .mul, .arithmetic .div] := by
  cases k with
  | arithmetic op => cases op <;> decide
  | _ => simp [Kind.isArithmetic]

/-- **Expressions are operands with an operator between any two.** -/
theorem isExpression_iff {ts : List Token} : IsExpression ts ↔ ∃ tree, Expression ts tree :=
  derived_joined Operand.derived id (isArithmetic_iff.symm.trans exists_operator.symm)

/-- A further operator and operand go on behind an expression. -/
lemma Phrase.Expression.snoc {ts us : List Token} {l r : Tree} {op : Token} (h : Expression ts l)
    (hop : op.kind.isArithmetic = true) (hr : Operand us r) :
    ∃ tree, Expression (ts ++ op :: us) tree :=
  Chain.snoc h (exists_operator.mpr hop) hr

lemma IsExpression.begins_snoc {us : List Token} {op : Token} (h : IsExpression us)
    (hop : op.kind.isArithmetic = true) : Beginning IsExpression (us ++ [op]) := by
  obtain ⟨l, hl⟩ := isExpression_iff.mp h
  obtain ⟨vs, r, hr⟩ := lawful_operand.phrase
  refine ⟨vs, isExpression_iff.mpr ?_⟩
  rw [List.append_assoc]
  exact hl.snoc hop hr

/-- The beginning of an expression that is not one itself is waiting for an operand: nothing has
been read, or an operator. -/
theorem IsExpression.beginning {us : List Token} (h : Beginning IsExpression us)
    (hnot : ¬ IsExpression us) : us = [] ∨ ∃ vs op, us = vs ++ [op] ∧ IsExpression vs ∧
      op.kind.isArithmetic = true := by
  have hflat : ∀ {ts}, IsExpression ts ↔
      ∃ tree, Chain (Chain.either joinSum? joinTerm?) Operand ts tree :=
    isExpression_iff.trans Chain.levels.symm
  obtain ⟨more, hmore⟩ := h
  obtain ⟨tree, htree⟩ := hflat.mp hmore
  rcases htree.beginning ⟨more, rfl⟩ with hnil | hchain | ⟨vs, op, rfl, hvs, hop⟩
  · exact .inl hnil
  · exact absurd (hflat.mpr hchain) hnot
  · exact .inr ⟨vs, op, rfl, hflat.mpr hvs, exists_operator.mp hop⟩

/-! ### Conditions -/

/-- Comparisons with a connective between any two. -/
def IsCondition : List Token → Prop :=
  Derived (.joined .comparison [.connective .orWord, .connective .orSign, .connective .andWord,
    .connective .andSign])

lemma exists_connective {t : Token} :
    (∃ heading, Chain.either (joinCondition? false) (joinCondition? true) t = some heading) ↔
      t.kind.isConnective = true := by
  rw [← Option.isSome_iff_exists]
  cases hk : t.kind with
  | connective op =>
      cases op <;> simp [Chain.either, joinCondition?, hk, Kind.isConnective, Connective.isAnd]
  | _ => simp [Chain.either, joinCondition?, hk, Kind.isConnective]

lemma isConnective_iff {k : Kind} : k.isConnective = true ↔
    k ∈ [Kind.connective .orWord, .connective .orSign, .connective .andWord,
      .connective .andSign] := by
  cases k with
  | connective op => cases op <;> decide
  | _ => simp [Kind.isConnective]

/-- **Conditions are comparisons with a connective between any two.** -/
theorem isCondition_iff {ts : List Token} : IsCondition ts ↔ ∃ tree, Condition ts tree :=
  derived_joined Comparison.derived id (isConnective_iff.symm.trans exists_connective.symm)

/-- A condition goes on behind its last comparison, which goes on behind its last expression. -/
lemma Phrase.Condition.snoc_operand {ts us : List Token} {tree r : Tree} {op : Token}
    (h : Condition ts tree) (hop : op.kind.isArithmetic = true) (hr : Operand us r) :
    ∃ tree', Condition (ts ++ op :: us) tree' := by
  have hcomparison : ∀ {ts tree}, Comparison ts tree →
      ∃ tree', Comparison (ts ++ op :: us) tree' := by
    rintro _ _ ⟨hl, ht, hright⟩
    obtain ⟨r', hr'⟩ := hright.snoc hop hr
    rw [List.append_assoc, List.cons_append]
    exact ⟨_, .intro hl ht hr'⟩
  exact Chain.extend (Chain.extend hcomparison) h

lemma IsCondition.begins_snoc {us : List Token} {op : Token} (h : IsCondition us)
    (hop : op.kind.isArithmetic = true ∨ op.kind.isConnective = true) :
    Beginning IsCondition (us ++ [op]) := by
  obtain ⟨l, hl⟩ := isCondition_iff.mp h
  rcases hop with hop | hop
  · obtain ⟨vs, r, hr⟩ := lawful_operand.phrase
    refine ⟨vs, isCondition_iff.mpr ?_⟩
    rw [List.append_assoc]
    exact hl.snoc_operand hop hr
  · obtain ⟨vs, r, hr⟩ := lawful_comparison.phrase
    refine ⟨vs, isCondition_iff.mpr ?_⟩
    rw [List.append_assoc]
    exact Chain.snoc hl (exists_connective.mpr hop) hr

end Imperativo.Grammar
