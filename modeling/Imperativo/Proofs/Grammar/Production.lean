import Imperativo.Proofs.Grammar.Phrase

/-!
# Expressions and conditions are read as the grammar says

For each production up to conditions in parentheses: the reading obeys the law with the phrases of
that production, and reads every one of its phrases as the tree it stands for.  What a phrase must
not be followed by is exactly what would continue it: an operator of its own level or a tighter one,
and behind a comparison also a relation, since the parser stops there.
-/

namespace Imperativo.Grammar

open Phrase

/-! ## Leaves -/

lemma lawful_leafRead {leaf? : Token → Option Tree} (e : Expectation)
    (hne : ∃ t leaf, leaf? t = some leaf) : Lawful (leafRead leaf? e) (Leaf leaf?) := by
  rcases hne with ⟨t₀, leaf₀, h₀⟩
  refine Lawful.ofHead ⟨[t₀], leaf₀, t₀, rfl, h₀⟩ ⟨e, rfl⟩ fun t => ?_
  cases ht : leaf? t with
  | none => exact .inl (.intro fun rest => by rw [leafRead, ht])
  | some leaf =>
      refine .inr ⟨_, _, lawful_pure leaf, fun rest => by rw [leafRead, ht], ?_⟩
      rintro us x ⟨rfl, rfl⟩
      exact ⟨t, rfl, ht⟩

lemma complete_leafRead (leaf? : Token → Option Tree) (e : Expectation) :
    Complete (leafRead leaf? e) (Leaf leaf?) anything := by
  rintro us tree rest ⟨t, rfl, ht⟩ _
  rw [List.singleton_append, leafRead, ht]

/-- A leaf is all that is expected where one is read. -/
lemma leafRead_stops {leaf? : Token → Option Tree} {e : Expectation} {P : Stop → Prop}
    (he : ∀ rest, P (.before e rest)) (ts : List Token) (s : Stop)
    (h : leafRead leaf? e ts = .error s) : P s := by
  unfold leafRead at h
  split at h
  · cases h; exact he _
  · split at h
    · cases h
    · cases h; exact he _

/-! ## Chains -/

section Chains

variable {join? : Token → Option Heading} {item : Production} {Item : List Token → Tree → Prop}

lemma chainFrom_none {left : Tree} {t : Token} (h : join? t = none) (rest : List Token) :
    chainFrom join? item left (t :: rest) = .ok (left, t :: rest) := by
  unfold chainFrom
  simp only [h]

lemma chainFrom_some {l : Tree} {t : Token} {heading : Heading} (h : join? t = some heading)
    (rest : List Token) : chainFrom join? item l (t :: rest) =
      readThen item.read (fun r => chainFrom join? item (.node heading [l, r])) rest := by
  rw [chainFrom]
  simp only [h]
  split <;> rename_i hread
  · rw [readThen_error hread]
  · rw [readThen_ok hread]

lemma left_chainFrom_le (hitem : Lawful item.read Item) (l : Tree) (ts : List Token) :
    (left (chainFrom join? item l ts)).length ≤ ts.length := by
  fun_induction chainFrom join? item l ts with
  | case1 l => exact Nat.le_refl _
  | case2 l t rest _ => exact Nat.le_refl _
  | case3 l t rest _ _ s hread =>
      have hle := (hitem.law rest).length_le
      rw [hread] at hle
      exact hle.trans (Nat.le_succ _)
  | case4 l t rest _ _ r behind hread ih =>
      have := item.shortens hread
      simp only [List.length_cons]
      omega

/-- What a chain reads behind `l` continues every chain that stands for `l`. -/
def Continues (join? : Token → Option Heading) (Item : List Token → Tree → Prop) (l : Tree)
    (us : List Token) (tree : Tree) : Prop :=
  ∀ ts, Chain join? Item ts l → Chain join? Item (ts ++ us) tree

lemma Continues.refl (l : Tree) : Continues join? Item l [] l :=
  fun ts h => by rwa [List.append_nil]

lemma lawful_chainFrom (hitem : Lawful item.read Item) (ts : List Token) :
    ∀ l, LawfulAt (chainFrom join? item l) (Continues join? Item l) ts := by
  induction hn : ts.length using Nat.strong_induction_on generalizing ts with
  | _ n ih =>
      intro l
      cases ts with
      | nil => exact .nil_ok (by rw [chainFrom]) (left_chainFrom_le hitem l) (.refl l)
      | cons t rest =>
          cases ht : join? t with
          | none => exact .cons_ok (chainFrom_none ht) (.refl l) rest
          | some heading =>
              refine .cons (chainFrom_some ht) ((hitem.law rest).bind
                (S := fun r => Continues join? Item (.node heading [l, r])) (fun hread => ?_)
                (fun r => left_chainFrom_le hitem _) fun r => ⟨[], _, .refl _⟩) ?_
              · have := item.shortens hread
                exact ih _ (by rw [← hn, List.length_cons]; omega) _ rfl _
              · rintro us tree ⟨us, vs, r, rfl, hr, hvs⟩ ts hts
                have hchain := hvs _ (hts.join ht hr)
                rwa [List.append_assoc] at hchain

lemma chain_read : (chain join? item).read = readThen item.read (chainFrom join? item) := by
  funext ts
  change chainRead join? item ts = _
  unfold chainRead
  split <;> rename_i hread
  · rw [readThen_error hread]
  · rw [readThen_ok hread]

/-- A chain of a lawful production is lawful. -/
theorem lawful_chain (hitem : Lawful item.read Item) :
    Lawful (chain join? item).read (Chain join? Item) := by
  rw [chain_read]
  refine (hitem.bind fun l => ⟨⟨[], l, .refl l⟩, fun ts => lawful_chainFrom hitem ts l⟩).mono ?_
  rintro us tree ⟨us, vs, l, rfl, hl, hvs⟩
  exact hvs us (.item hl)

/-- What a chain reads in front of `rest` is what it reads there behind the tree of the phrase. -/
lemma chain_read_append {p : Kind → Bool} (hitem : Complete item.read Item p)
    (hp : ∀ {t heading}, join? t = some heading → p t.kind = false) {us rest : List Token}
    {tree : Tree} (h : Chain join? Item us tree) (hrest : Apart p rest) :
    (chain join? item).read (us ++ rest) = chainFrom join? item tree rest := by
  rw [chain_read]
  induction h generalizing rest with
  | item h => rw [readThen_ok (hitem rest h hrest)]
  | @join us vs op heading l r _ hop hr ih =>
      have hback : Apart p (op :: (vs ++ rest)) := by rw [apart_cons]; exact hp hop
      rw [List.append_assoc, List.cons_append, ih hback, chainFrom_some hop,
        readThen_ok (hitem rest hr hrest)]

/-- A chain of a complete production is complete, in front of anything that is neither an operator
of its level nor continues an item. -/
theorem complete_chain {p q : Kind → Bool} (hitem : Complete item.read Item p)
    (hp : ∀ {t heading}, join? t = some heading → p t.kind = false)
    (hpq : ∀ k, p k = true → q k = true)
    (hq : ∀ {t heading}, join? t = some heading → q t.kind = true) :
    Complete (chain join? item).read (Chain join? Item) q := by
  intro us tree rest h hrest
  rw [chain_read_append hitem hp h (hrest.mono hpq)]
  cases rest with
  | nil => rw [chainFrom]
  | cons t rest =>
      rw [apart_cons] at hrest
      cases ht : join? t with
      | none => exact chainFrom_none ht rest
      | some heading => rw [hq ht] at hrest; cases hrest

/-- A chain stops as its items do. -/
lemma chain_stops {P : Stop → Prop} (hitem : ∀ ts s, item.read ts = .error s → P s)
    (ts : List Token) (s : Stop) (h : (chain join? item).read ts = .error s) : P s := by
  rw [chain_read] at h
  rcases readThen_eq_error h with h | ⟨l, mid, -, h⟩
  · exact hitem ts s h
  · fun_induction chainFrom join? item l mid with
    | case1 => cases h
    | case2 => cases h
    | case3 _ _ rest _ _ s' hread => cases h; exact hitem rest _ hread
    | case4 _ _ _ _ _ _ _ _ ih => exact ih h

/-- A chain leaves what its items do, and in front of it no operator of its own level. -/
lemma chain_leaves {P : List Token → Prop}
    (hitem : ∀ ts x rest, item.read ts = .ok (x, rest) → P rest) {ts rest : List Token} {tree : Tree}
    (h : (chain join? item).read ts = .ok (tree, rest)) :
    P rest ∧ ∀ t ∈ rest.head?, join? t = none := by
  rw [chain_read] at h
  obtain ⟨l, mid, hl, h⟩ := readThen_eq_ok h
  have hmid : P mid := hitem ts l mid hl
  clear hl
  fun_induction chainFrom join? item l mid with
  | case1 => cases h; exact ⟨hmid, by simp⟩
  | case2 _ t us hnone => cases h; exact ⟨hmid, by simpa using hnone⟩
  | case3 => cases h
  | case4 _ _ us _ _ r behind hread ih => exact ih h (hitem us r behind hread)

/-- Where nothing joins, nothing is taken. -/
lemma chainFrom_apart {ts : List Token}
    (h : ∀ t ∈ ts.head?, join? t = none) (l : Tree) :
    chainFrom join? item l ts = .ok (l, ts) := by
  cases ts with
  | nil => rw [chainFrom]
  | cons t rest => exact chainFrom_none (h t rfl) rest

end Chains

/-! ## Expressions -/

lemma lawful_operand : Lawful operand.read Operand :=
  lawful_leafRead .operand ⟨⟨.integer, none, Position.start⟩, _, rfl⟩

/-- The operators that continue a term. -/
def continuesTerm : Kind → Bool
  | .arithmetic .mul | .arithmetic .div => true
  | _ => false

/-- The operators that continue an expression. -/
def continuesExpression : Kind → Bool
  | .arithmetic _ => true
  | _ => false

lemma complete_term : Complete term.read Term continuesTerm := by
  refine complete_chain (complete_leafRead operandLeaf? .operand) (fun _ => rfl)
    (fun _ h => by cases h) ?_
  intro t heading h
  obtain ⟨op, hk, rfl | rfl, -⟩ := joinTerm?_some h <;> rw [hk] <;> rfl

lemma lawful_expression : Lawful expression.read Expression :=
  lawful_chain (lawful_chain lawful_operand)

lemma complete_expression : Complete expression.read Expression continuesExpression := by
  refine complete_chain complete_term ?_ ?_ ?_
  · intro t heading h
    obtain ⟨op, hk, rfl | rfl, -⟩ := joinSum?_some h <;> rw [hk] <;> rfl
  · intro k hk
    unfold continuesTerm at hk
    split at hk <;> simp_all [continuesExpression]
  · intro t heading h
    obtain ⟨op, hk, -⟩ := joinSum?_some h
    rw [hk]
    rfl

/-- What starts an expression. -/
def startsExpression : Kind → Bool
  | .integer | .float | .identifier => true
  | _ => false

lemma Phrase.Chain.head {join? : Token → Option Heading} {Item : List Token → Tree → Prop}
    {p : Kind → Bool}
    (hitem : ∀ {ts tree}, Item ts tree → ∃ t us, ts = t :: us ∧ p t.kind = true) {ts : List Token}
    {tree : Tree} (h : Chain join? Item ts tree) : ∃ t us, ts = t :: us ∧ p t.kind = true := by
  induction h with
  | item h => exact hitem h
  | join _ _ _ ih =>
      obtain ⟨t, us, rfl, ht⟩ := ih
      exact ⟨t, _, rfl, ht⟩

lemma Phrase.Expression.head {ts : List Token} {tree : Tree} (h : Expression ts tree) :
    ∃ t us, ts = t :: us ∧ startsExpression t.kind = true := by
  refine Chain.head (Chain.head ?_) h
  rintro ts tree ⟨t, rfl, ht⟩
  refine ⟨t, [], rfl, ?_⟩
  unfold operandLeaf? at ht
  split at ht <;> simp_all [startsExpression]

lemma valueRead_of_starts {missing : Expectation} {t : Token} (h : startsExpression t.kind = true)
    (rest : List Token) : valueRead missing (t :: rest) = expression.read (t :: rest) := by
  unfold startsExpression at h
  unfold valueRead
  split at h <;> simp_all

lemma refuses_valueRead {missing : Expectation} {t : Token} (h : startsExpression t.kind = false) :
    Refuses (valueRead missing) t := by
  cases hk : t.kind with
  | arithmetic op => exact .intro (e := .leftOperand op) fun rest => by simp only [valueRead, hk]
  | integer | float | identifier => rw [hk] at h; cases h
  | _ => exact .intro (e := missing) fun rest => by simp only [valueRead, hk]

lemma lawful_value (missing : Expectation) : Lawful (value missing).read Expression := by
  change Lawful (valueRead missing) Expression
  refine .of_cons lawful_expression.phrase (.inl ⟨missing, rfl⟩) fun t rest => ?_
  cases ht : startsExpression t.kind with
  | false => exact .cons_error (refuses_valueRead ht) lawful_expression.phrase rest
  | true => exact .of_eq (valueRead_of_starts ht) (lawful_expression.law _)

lemma complete_value (missing : Expectation) :
    Complete (value missing).read Expression continuesExpression := by
  intro us tree rest h hrest
  obtain ⟨t, us', rfl, ht⟩ := h.head
  change valueRead missing (t :: (us' ++ rest)) = _
  rw [valueRead_of_starts ht]
  exact complete_expression rest h hrest

/-! ## Comparisons and conditions -/

/-- A relation, with its token. -/
def RelationSign (ts : List Token) (x : Token × Relation) : Prop :=
  ts = [x.1] ∧ x.1.kind = .relation x.2

lemma relationRead_ok {t : Token} {op : Relation} (h : t.kind = .relation op) (rest : List Token) :
    relationRead (t :: rest) = .ok ((t, op), rest) := by
  simp only [relationRead, h]

lemma lawful_relationRead : Lawful relationRead RelationSign := by
  refine Lawful.ofHead ⟨_, (⟨.relation .less, none, Position.start⟩, .less), rfl, rfl⟩
    ⟨.relation, rfl⟩ fun t => ?_
  cases ht : t.kind with
  | relation op =>
      refine .inr ⟨_, _, lawful_pure (t, op), relationRead_ok ht, ?_⟩
      rintro us x ⟨rfl, rfl⟩
      exact ⟨rfl, ht⟩
  | _ => exact .inl (.intro (e := .relation) fun rest => by simp only [relationRead, ht])

/-- Reads nothing more, but stops in front of a second relation. -/
def withoutRelation (tree : Tree) (ts : List Token) : Reading Tree :=
  match refuseRelation ts with
  | .error s => .error s
  | .ok () => .ok (tree, ts)

lemma withoutRelation_ok {t : Token} (h : t.kind.isRelation = false) (tree : Tree)
    (rest : List Token) : withoutRelation tree (t :: rest) = .ok (tree, t :: rest) := by
  unfold withoutRelation refuseRelation
  cases ht : t.kind with
  | relation op => rw [ht] at h; cases h
  | _ => simp only [ht]

lemma lawful_withoutRelation (tree : Tree) : Lawful (withoutRelation tree) (Pure tree) := by
  refine .of_cons ⟨[], tree, rfl, rfl⟩ (.inr ⟨tree, rfl, rfl, rfl⟩) fun t rest => ?_
  cases ht : t.kind with
  | relation op =>
      refine .cons_error (.intro (e := .singleRelation op) fun rest => ?_) ⟨[], tree, rfl, rfl⟩ rest
      simp only [withoutRelation, refuseRelation, ht]
  | _ => exact .cons_ok (withoutRelation_ok (by rw [ht]; rfl) tree) ⟨rfl, rfl⟩ rest

/-- What may not stand right behind a comparison. -/
def continuesComparison : Kind → Bool
  | .arithmetic _ | .relation _ => true
  | _ => false

lemma complete_withoutRelation (tree : Tree) :
    Complete (withoutRelation tree) (Pure tree) continuesComparison := by
  rintro us x rest ⟨rfl, rfl⟩ hrest
  cases rest with
  | nil => rfl
  | cons t rest =>
      rw [apart_cons] at hrest
      refine withoutRelation_ok ?_ x rest
      cases ht : t.kind with
      | relation op => rw [ht] at hrest; cases hrest
      | _ => rfl

/-- The tree of a comparison. -/
def comparisonTree (l : Tree) (x : Token × Relation) (r : Tree) : Tree :=
  .node ⟨.comparison, some x.2.spelling.toList, x.1.position⟩ [l, r]

lemma comparison_read : comparison.read =
    readThen (value .leftExpression).read fun l => readThen relationRead fun x =>
      readThen (value .rightExpression).read fun r => withoutRelation (comparisonTree l x r) := by
  funext ts
  change comparisonRead ts = _
  unfold comparisonRead
  split <;> rename_i hleft
  · rw [readThen_error hleft]
  rw [readThen_ok hleft]
  split <;> rename_i hrelation
  · rw [readThen_error hrelation]
  rw [readThen_ok hrelation]
  split <;> rename_i hright
  · rw [readThen_error hright]
  rw [readThen_ok hright]
  rfl

lemma Phrase.Comparison.of_then {us : List Token} {tree : Tree}
    (h : Then Expression (fun l => Then RelationSign fun x => Then Expression fun r =>
      Pure (comparisonTree l x r)) us tree) : Comparison us tree := by
  rcases h with ⟨us, _, l, rfl, hl, _, _, ⟨t, op⟩, rfl, ⟨rfl, ht⟩, vs, _, r, rfl, hr, rfl, rfl⟩
  rw [List.append_nil]
  exact .intro hl ht hr

lemma lawful_comparison : Lawful comparison.read Comparison := by
  rw [comparison_read]
  exact ((lawful_value _).bind fun l => lawful_relationRead.bind fun x => (lawful_value _).bind
    fun r => lawful_withoutRelation _).mono fun _ _ => Comparison.of_then

lemma complete_comparison : Complete comparison.read Comparison continuesComparison := by
  rintro _ _ rest ⟨hl, ht, hr⟩ hrest
  rename_i us vs l r t op
  have hleft := complete_value .leftExpression (t :: (vs ++ rest)) hl (by rw [apart_cons, ht]; rfl)
  have hright := complete_value .rightExpression rest hr
    (hrest.mono fun k hk => by cases k <;> simp_all [continuesExpression, continuesComparison])
  rw [comparison_read, List.append_assoc, List.cons_append, readThen_ok hleft,
    readThen_ok (relationRead_ok ht _), readThen_ok hright]
  exact complete_withoutRelation _ rest ⟨rfl, rfl⟩ hrest

/-- What may not stand right behind a conjunction. -/
def continuesConjunction : Kind → Bool
  | .arithmetic _ | .relation _ => true
  | .connective op => op.isAnd
  | _ => false

/-- What may not stand right behind a condition. -/
def continuesCondition : Kind → Bool
  | .arithmetic _ | .relation _ | .connective _ => true
  | _ => false

lemma complete_conjunction : Complete conjunction.read Conjunction continuesConjunction := by
  refine complete_chain complete_comparison ?_ ?_ ?_
  · intro t heading h
    obtain ⟨op, hk, -⟩ := joinCondition?_some h
    rw [hk]
    rfl
  · intro k hk
    cases k <;> simp_all [continuesComparison, continuesConjunction]
  · intro t heading h
    obtain ⟨op, hk, hop, -⟩ := joinCondition?_some h
    rw [hk]
    exact hop

lemma complete_disjunction : Complete disjunction.read Condition continuesCondition := by
  refine complete_chain complete_conjunction ?_ ?_ ?_
  · intro t heading h
    obtain ⟨op, hk, hop, -⟩ := joinCondition?_some h
    rw [hk]
    exact hop
  · intro k hk
    cases k <;> simp_all [continuesConjunction, continuesCondition]
  · intro t heading h
    obtain ⟨op, hk, -⟩ := joinCondition?_some h
    rw [hk]
    rfl

lemma condition_read :
    condition.read = fun ts => withFault .malformedCondition (disjunction.read ts) := by
  funext ts
  change conditionRead ts = _
  unfold conditionRead
  split <;> rename_i h <;> rw [h] <;> rfl

lemma lawful_condition : Lawful condition.read Condition := by
  rw [condition_read]
  exact (lawful_chain (lawful_chain lawful_comparison)).withFault (by decide)

lemma complete_condition : Complete condition.read Condition continuesCondition := by
  intro us tree rest h hrest
  simp only [condition_read, complete_disjunction rest h hrest, withFault_ok]

/-! ## Conditions in parentheses -/

lemma guarded_eq (owner : Word) : guarded owner =
    readThen (expect (.sign .openParen) (.conditionOpenParen owner)) fun _ =>
      readThen condition.read fun test =>
        readThen (expect (.sign .closeParen) (.conditionCloseParen owner)) fun _ ts =>
          .ok (test, ts) := rfl

lemma lawful_guarded (owner : Word) : Lawful (guarded owner) Guard := by
  rw [guarded_eq]
  refine ((lawful_expect _ _).bind fun _ => lawful_condition.bind fun test =>
    (lawful_expect _ _).bind fun _ => lawful_pure test).mono ?_
  rintro _ _ ⟨_, _, o, rfl, ⟨rfl, ho⟩, us, _, test, rfl, h, _, _, c, rfl, ⟨rfl, hc⟩, rfl, rfl⟩
  exact .intro ho h hc

lemma complete_guarded (owner : Word) : Complete (guarded owner) Guard anything := by
  rintro _ _ rest ⟨ho, h, hc⟩ _
  rename_i o us c test
  have hcondition := complete_condition (c :: rest) h (by rw [apart_cons, hc]; rfl)
  rw [guarded_eq, List.append_assoc, List.cons_append, readThen_ok (expect_ok ho _),
    List.singleton_append, readThen_ok hcondition, readThen_ok (expect_ok hc _)]

end Imperativo.Grammar
