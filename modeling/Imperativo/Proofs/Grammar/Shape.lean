import Imperativo.Proofs.Grammar.Flatten

/-!
# Trees of the grammar, and how they are read back

The shapes here are those of the table of node kinds: which children a node has, and what it is
labelled with.  As there are no parentheses in expressions, a shape also says which operators may
stand below which: nothing that binds more loosely, and to the right nothing that binds equally.

* **`parse_flatten`** — tokens that come to a program without an entry are what its tree is written
  as, and what a tree of the right shape is written as comes to that tree without an entry.

That a tree is read back is an induction on its shape.  An expression is read at the level of its
own operator, and what is said about the operators below it makes each side an expression of the
level that the grammar asks for there.
-/

namespace Imperativo.Grammar.Shape

/-! ## Shapes -/

/-- The text of an integer or of a number with a fraction. -/
def IsNumber (s : Text) : Prop :=
  (∃ n : Int, (-2 ^ 63 ≤ n ∧ n < 2 ^ 63) ∧ Text.ofInt n = s) ∨ ∃ x : Binary64, x.text = s

section Operators

variable (tree : Tree)

/-- An addition or a subtraction. -/
def IsSum : Prop := tree.heading.kind = .binary .add ∨ tree.heading.kind = .binary .sub

/-- Any operation of expressions. -/
def IsBinary : Prop := ∃ op, tree.heading.kind = .binary op

/-- Any combination of conditions. -/
def IsCombination : Prop := tree.heading.kind = .combination

/-- A combination of conditions of which one must hold. -/
def IsOr : Prop :=
  IsCombination tree ∧
    ∃ op : Connective, op.isAnd = false ∧ tree.heading.label = some op.spelling.toList

end Operators

/-- An expression. -/
inductive Expression : Tree → Prop
  | number (s p) (h : IsNumber s) : Expression (.leaf .number s p)
  | named (s p) : Expression (.leaf .variable s p)
  | product {op l r} (p) (hop : op = .mul ∨ op = .div) (hl : Expression l) (hr : Expression r)
      (hleft : ¬ IsSum l) (hright : ¬ IsBinary r) : Expression (.node ⟨.binary op, none, p⟩ [l, r])
  | sum {op l r} (p) (hop : op = .add ∨ op = .sub) (hl : Expression l) (hr : Expression r)
      (hright : ¬ IsSum r) : Expression (.node ⟨.binary op, none, p⟩ [l, r])

/-- A condition. -/
inductive Condition : Tree → Prop
  | comparison {l r} (op : Relation) (p) (hl : Expression l) (hr : Expression r) :
      Condition (.node ⟨.comparison, some op.spelling.toList, p⟩ [l, r])
  | both {op : Connective} {l r} (p) (hop : op.isAnd = true) (hl : Condition l) (hr : Condition r)
      (hleft : ¬ IsOr l) (hright : ¬ IsCombination r) :
      Condition (.node ⟨.combination, some op.spelling.toList, p⟩ [l, r])
  | either {op : Connective} {l r} (p) (hop : op.isAnd = false) (hl : Condition l)
      (hr : Condition r) (hright : ¬ IsOr r) :
      Condition (.node ⟨.combination, some op.spelling.toList, p⟩ [l, r])

/-- A labelled node without children. -/
def IsLeaf (kind : NodeKind) (tree : Tree) : Prop := ∃ s p, tree = .leaf kind s p

/-- A statement without blocks. -/
inductive Simple : Tree → Prop
  | initialization {name value} (type : Scalar) (p q) (hn : IsLeaf .variable name)
      (h : Expression value) :
      Simple (.node ⟨.initialization, none, p⟩ [.leaf .scalar type.spelling.toList q, name, value])
  | declaration {first others} (type : Scalar) (p q) (hn : IsLeaf .variable first)
      (h : ∀ name ∈ others, IsLeaf .variable name) :
      Simple (.node ⟨.declaration, none, p⟩
        (.leaf .scalar type.spelling.toList q :: first :: others))
  | assignment {value} (target p) (h : Expression value) :
      Simple (.node ⟨.assignment, some target, p⟩ [value])
  | print {first others} (p) (ha : IsLeaf .content first)
      (h : ∀ argument ∈ others, IsLeaf .content argument) :
      Simple (.node ⟨.print, none, p⟩ (first :: others))
  | read {name} (p) (hn : IsLeaf .variable name) : Simple (.node ⟨.read, none, p⟩ [name])

/-- Statements one after another, to any depth of blocks. -/
inductive Statements : List Tree → Prop
  | nil : Statements []
  | simple {tree trees} (h : Simple tree) (hs : Statements trees) : Statements (tree :: trees)
  | loop {test body trees} (p q) (ht : Condition test) (hb : Statements body)
      (hs : Statements trees) :
      Statements (.node ⟨.loop, none, p⟩ [test, .node ⟨.block, none, q⟩ body] :: trees)
  | conditional {test yes trees} (p q) (ht : Condition test) (hy : Statements yes)
      (hs : Statements trees) :
      Statements (.node ⟨.conditional, none, p⟩ [test, .node ⟨.block, none, q⟩ yes] :: trees)
  | alternative {test yes no trees} (p q q') (ht : Condition test) (hy : Statements yes)
      (hn : Statements no) (hs : Statements trees) :
      Statements (.node ⟨.alternative, none, p⟩
        [test, .node ⟨.block, none, q⟩ yes, .node ⟨.block, none, q'⟩ no] :: trees)

/-- A program with its `terminar`. -/
inductive Program : Tree → Prop
  | intro {trees} (name p q q') (h : Statements trees) :
      Program (.node ⟨.program, some name, p⟩
        [.node ⟨.block, none, q⟩ trees, .node ⟨.terminate, none, q'⟩ []])

/-! ## Every shape can be spelled -/

/-- The numbers among the lexemes are numbers in writing. -/
def Numeric (ls : List Lexeme) : Prop := ∀ s, .number s ∈ ls → IsNumber s

section Numeric

variable {ls ms : List Lexeme}

@[simp] lemma numeric_nil : Numeric [] := by simp [Numeric]

@[simp] lemma numeric_append : Numeric (ls ++ ms) ↔ Numeric ls ∧ Numeric ms := by
  simp only [Numeric, List.mem_append]
  exact ⟨fun h => ⟨fun s hs => h s (.inl hs), fun s hs => h s (.inr hs)⟩,
    fun h s hs => hs.elim (h.1 s) (h.2 s)⟩

@[simp] lemma numeric_fixed (k : Kind) : Numeric (.fixed k :: ls) ↔ Numeric ls := by simp [Numeric]

@[simp] lemma numeric_name (s : Text) : Numeric (.name s :: ls) ↔ Numeric ls := by simp [Numeric]

@[simp] lemma numeric_content (s : Text) : Numeric (.content s :: ls) ↔ Numeric ls :=
  by simp [Numeric]

@[simp] lemma numeric_number (s : Text) : Numeric (.number s :: ls) ↔ IsNumber s ∧ Numeric ls := by
    simp [Numeric]

lemma IsNumber.token {s : Text} (h : IsNumber s) : ∃ t, (Lexeme.number s).Fits t := by
  rcases h with ⟨n, hn, rfl⟩ | ⟨x, rfl⟩
  · exact ⟨⟨.integer, some (.integer n), Position.start⟩, .inl rfl, .integer hn, rfl⟩
  · exact ⟨⟨.float, some (.float x), Position.start⟩, .inr rfl, .float x, rfl⟩

lemma Numeric.spelled (h : Numeric ls) : ∃ ts, Spelled ls ts := by
  induction ls with
  | nil => exact ⟨[], .nil⟩
  | cons l ls ih =>
      obtain ⟨ts, hts⟩ := ih fun s hs => h s (List.mem_cons_of_mem l hs)
      obtain ⟨t, ht⟩ : ∃ t, l.Fits t := by
        cases l with
        | fixed k => exact ⟨k.token, rfl, rfl⟩
        | name s => exact ⟨⟨.identifier, some (.text s), Position.start⟩, rfl, rfl⟩
        | content s => exact ⟨⟨.string, some (.text s), Position.start⟩, .inr rfl, rfl⟩
        | number s => exact (h s List.mem_cons_self).token
      exact ⟨t :: ts, .cons ht hts⟩

end Numeric

lemma Expression.numeric {tree : Tree} (h : Expression tree) : Numeric tree.flatten := by
  induction h with
  | number s p h => exact (numeric_number s).mpr ⟨h, numeric_nil⟩
  | named s p => exact (numeric_name s).mpr numeric_nil
  | product p _ _ _ _ _ ihl ihr => rw [Tree.flatten_binary]; simp [ihl, ihr]
  | sum p _ _ _ _ ihl ihr => rw [Tree.flatten_binary]; simp [ihl, ihr]

lemma Condition.numeric {tree : Tree} (h : Condition tree) : Numeric tree.flatten := by
  induction h with
  | comparison op p hl hr => rw [Tree.flatten_comparison]; simp [hl.numeric, hr.numeric]
  | both p _ _ _ _ _ ihl ihr => rw [Tree.flatten_combination]; simp [ihl, ihr]
  | either p _ _ _ _ ihl ihr => rw [Tree.flatten_combination]; simp [ihl, ihr]

lemma IsLeaf.numeric {kind : NodeKind} {tree : Tree} (h : IsLeaf kind tree)
    (hkind : kind = .variable ∨ kind = .content) : Numeric tree.flatten := by
  rcases h with ⟨s, p, rfl⟩
  rcases hkind with rfl | rfl
  · exact (numeric_name s).mpr numeric_nil
  · exact (numeric_content s).mpr numeric_nil

lemma numeric_behindCommas {trees : List Tree} (h : ∀ tree ∈ trees, Numeric tree.flatten) :
    Numeric (Heading.behindCommas (Tree.flattenEach trees)) := by
  induction trees with
  | nil => exact numeric_nil
  | cons tree trees ih =>
      rw [Tree.behindCommas_cons, List.cons_append, numeric_fixed, numeric_append]
      exact ⟨h tree List.mem_cons_self, ih fun tree htree => h tree (List.mem_cons_of_mem _ htree)⟩

@[simp] lemma numeric_between (o c : Sign) (ls : List Lexeme) :
    Numeric (Heading.between o c ls) ↔ Numeric ls := by
  simp [Heading.between]

lemma Simple.numeric {tree : Tree} (h : Simple tree) : Numeric tree.flatten := by
  cases h with
  | initialization type p q hn h =>
      rw [Tree.flatten_initialization]
      simp [hn.numeric, h.numeric]
  | declaration type p q hn h =>
      have hothers := numeric_behindCommas fun name hname => (h name hname).numeric (.inl rfl)
      rw [Tree.flatten_declaration]
      simp [hn.numeric, hothers]
  | assignment target p h =>
      rw [Tree.flatten_assignment]
      simp [h.numeric]
  | print p ha h =>
      have hothers := numeric_behindCommas fun argument hargument =>
        (h argument hargument).numeric (.inr rfl)
      rw [Tree.flatten_print]
      simp [ha.numeric, hothers]
  | read p hn =>
      rw [Tree.flatten_read]
      simp [hn.numeric]

lemma Statements.numeric {trees : List Tree} (h : Statements trees) :
    Numeric (Tree.flattenEach trees).flatten := by
  induction h with
  | nil => exact numeric_nil
  | simple h _ ih => exact numeric_append.mpr ⟨h.numeric, ih⟩
  | loop p q ht _ _ ihb ih =>
      rw [Tree.flattenEach_cons, Tree.flatten_loop]
      simp [Tree.flatten_block, ht.numeric, ihb, ih]
  | conditional p q ht _ _ ihy ih =>
      rw [Tree.flattenEach_cons, Tree.flatten_conditional]
      simp [Tree.flatten_block, ht.numeric, ihy, ih]
  | alternative p q q' ht _ _ _ ihy ihn ih =>
      rw [Tree.flattenEach_cons, Tree.flatten_alternative]
      simp [Tree.flatten_block, ht.numeric, ihy, ihn, ih]

lemma Program.numeric {tree : Tree} (h : Program tree) : Numeric tree.flatten := by
  rcases h with ⟨name, p, q, q', h⟩
  rw [Tree.flatten_program]
  simp [Tree.flatten_block, Tree.flatten_terminate, h.numeric]

/-! ## Expressions and conditions are read back -/

/-- Tokens that the tree is spelled with are a phrase for it. -/
def Regained (R : List Token → Tree → Prop) (tree : Tree) : Prop :=
  ∀ ts, Spelled tree.flatten ts → ∃ tree', R ts tree' ∧ tree'.bare = tree.bare

lemma Regained.mono {R S : List Token → Tree → Prop} {tree : Tree} (h : Regained R tree)
    (hRS : ∀ {ts tree}, R ts tree → S ts tree) : Regained S tree := by
  intro ts hts
  obtain ⟨tree', htree, hbare⟩ := h ts hts
  exact ⟨tree', hRS htree, hbare⟩

/-- The operator between the two sides joins them. -/
lemma Regained.join {join? : Token → Option Heading} {Item : List Token → Tree → Prop} {l r : Tree}
    {heading : Heading}
    {k : Kind} (hl : Regained (Phrase.Chain join? Item) l) (hr : Regained Item r)
    (hjoin : ∀ {t : Token}, t.kind = k → join? t = some { heading with position := t.position })
    (hflatten : (Tree.node heading [l, r]).flatten = l.flatten ++ [.fixed k] ++ r.flatten) :
    Regained (Phrase.Chain join? Item) (.node heading [l, r]) := by
  intro ts hts
  rw [hflatten, List.append_assoc] at hts
  simp only [spelled_append, spelled_singleton] at hts
  rcases hts with ⟨us, _, hus, ⟨_, vs, ⟨t, ⟨ht, _⟩, rfl⟩, hvs, rfl⟩, rfl⟩
  obtain ⟨l', hl', hlbare⟩ := hl us hus
  obtain ⟨r', hr', hrbare⟩ := hr vs hvs
  exact ⟨_, .join hl' (hjoin ht) hr', by simp [Tree.bare, Tree.bareEach, hlbare, hrbare]⟩

/-- An operand is also a term and an expression. -/
lemma regained_levels {tree : Tree} (h : Regained Phrase.Operand tree) :
    Regained Phrase.Expression tree ∧ (¬ IsSum tree → Regained Phrase.Term tree) ∧
      (¬ IsBinary tree → Regained Phrase.Operand tree) :=
  ⟨h.mono fun h => .item (.item h), fun _ => h.mono .item, fun _ => h⟩

/-- An expression is read back, at the level of its operator. -/
lemma Expression.regained {tree : Tree} (h : Expression tree) :
    Regained Phrase.Expression tree ∧ (¬ IsSum tree → Regained Phrase.Term tree) ∧
      (¬ IsBinary tree → Regained Phrase.Operand tree) := by
  induction h with
  | number s p _ =>
      refine regained_levels fun ts hts => ?_
      obtain ⟨t, ⟨hk, _, rfl⟩, rfl⟩ := (spelled_singleton ..).mp hts
      exact ⟨.leaf .number t.valueText t.position,
        ⟨t, rfl, by rcases hk with hk | hk <;> simp [operandLeaf?, hk]⟩, rfl⟩
  | named s p =>
      refine regained_levels fun ts hts => ?_
      obtain ⟨t, ⟨hk, hv⟩, rfl⟩ := (spelled_singleton ..).mp hts
      exact ⟨.leaf .variable t.valueText t.position, ⟨t, rfl, by simp [operandLeaf?, hk]⟩,
        by rw [Token.valueText, hv]; rfl⟩
  | @product op l r p hop _ _ hleft hright ihl ihr =>
      have hterm : Regained Phrase.Term (.node ⟨.binary op, none, p⟩ [l, r]) :=
        (ihl.2.1 hleft).join (ihr.2.2 hright) (k := .arithmetic op)
          (fun {t} ht => by rcases hop with rfl | rfl <;> simp [joinTerm?, ht])
            (Tree.flatten_binary p op l r)
      exact ⟨hterm.mono .item, fun _ => hterm, fun hnot => absurd ⟨op, rfl⟩ hnot⟩
  | @sum op l r p hop _ _ hright ihl ihr =>
      have hsum : Regained Phrase.Expression (.node ⟨.binary op, none, p⟩ [l, r]) :=
        ihl.1.join (ihr.2.1 hright) (k := .arithmetic op)
          (fun {t} ht => by rcases hop with rfl | rfl <;> simp [joinSum?, ht])
            (Tree.flatten_binary p op l r)
      have hkind : IsSum (.node ⟨.binary op, none, p⟩ [l, r]) := by
        rcases hop with rfl | rfl
        · exact .inl rfl
        · exact .inr rfl
      exact ⟨hsum, fun hnot => absurd hkind hnot, fun hnot => absurd ⟨op, rfl⟩ hnot⟩

/-- A comparison is also a conjunction and a condition. -/
lemma Condition.regained {tree : Tree} (h : Condition tree) :
    Regained Phrase.Condition tree ∧ (¬ IsOr tree → Regained Phrase.Conjunction tree) ∧
      (¬ IsCombination tree → Regained Phrase.Comparison tree) := by
  induction h with
  | @comparison l r op p hl hr =>
      have hcomparison : Regained Phrase.Comparison
        (.node ⟨.comparison, some op.spelling.toList, p⟩ [l, r]) := by
        intro ts hts
        rw [Tree.flatten_comparison, List.append_assoc] at hts
        simp only [spelled_append, spelled_singleton] at hts
        rcases hts with ⟨us, _, hus, ⟨_, vs, ⟨t, ⟨ht, _⟩, rfl⟩, hvs, rfl⟩, rfl⟩
        obtain ⟨l', hl', hlbare⟩ := hl.regained.1 us hus
        obtain ⟨r', hr', hrbare⟩ := hr.regained.1 vs hvs
        exact ⟨_, .intro hl' ht hr', by simp [Tree.bare, Tree.bareEach, hlbare, hrbare]⟩
      exact ⟨hcomparison.mono fun h => .item (.item h), fun _ => hcomparison.mono .item, fun _ =>
        hcomparison⟩
  | @both op l r p hop _ _ hleft hright ihl ihr =>
      have hboth : Regained Phrase.Conjunction
        (.node ⟨.combination, some op.spelling.toList, p⟩ [l, r]) :=
        (ihl.2.1 hleft).join (ihr.2.2 hright) (k := .connective op)
          (fun {t} ht => by simp [joinCondition?, ht, hop]) (Tree.flatten_combination p op l r)
      exact ⟨hboth.mono .item, fun _ => hboth, fun hnot => absurd rfl hnot⟩
  | @either op l r p hop _ _ hright ihl ihr =>
      have heither : Regained Phrase.Condition
        (.node ⟨.combination, some op.spelling.toList, p⟩ [l, r]) :=
        ihl.1.join (ihr.2.1 hright) (k := .connective op)
          (fun {t} ht => by simp [joinCondition?, ht, hop]) (Tree.flatten_combination p op l r)
      exact ⟨heither, fun hnot => absurd ⟨rfl, op, hop, rfl⟩ hnot, fun hnot => absurd rfl hnot⟩

lemma spelled_between {o c : Sign} {ls : List Lexeme} {ts : List Token}
    (h : Spelled (Heading.between o c ls) ts) :
    ∃ t us v, t.kind = .sign o ∧ Spelled ls us ∧ v.kind = .sign c ∧ ts = t :: us ++ [v] := by
  simp only [Heading.between, spelled_append, spelled_cons, spelled_nil] at h
  rcases h with ⟨_, _, ⟨t, us, ⟨ht, _⟩, hus, rfl⟩, ⟨v, _, ⟨hv, _⟩, rfl, rfl⟩, rfl⟩
  exact ⟨t, us, v, ht, hus, hv, rfl⟩

lemma guard_regained {test : Tree} (h : Condition test) {ts : List Token}
    (hts : Spelled (Heading.inParens test.flatten) ts) :
    ∃ test', Phrase.Guard ts test' ∧ test'.bare = test.bare := by
  obtain ⟨o, us, c, ho, hus, hc, rfl⟩ := spelled_between hts
  obtain ⟨test', htest, hbare⟩ := h.regained.1 us hus
  exact ⟨test', .intro ho htest hc, hbare⟩

/-! ## Statements are read back -/

lemma IsLeaf.name {tree : Tree} (h : IsLeaf .variable tree) {ts : List Token}
    (hts : Spelled tree.flatten ts) :
    ∃ t, ts = [t] ∧ t.kind = .identifier ∧ (variableLeaf t).bare = tree.bare := by
  rcases h with ⟨s, p, rfl⟩
  obtain ⟨t, ⟨hk, hv⟩, rfl⟩ := (spelled_singleton ..).mp hts
  exact ⟨t, rfl, hk, by rw [variableLeaf, Token.text?, hv]; rfl⟩

lemma IsLeaf.nameLeaf {tree : Tree} (h : IsLeaf .variable tree) :
    Regained (Phrase.Leaf nameLeaf?) tree := by
  intro ts hts
  obtain ⟨t, rfl, hk, hbare⟩ := h.name hts
  exact ⟨variableLeaf t, ⟨t, rfl, if_pos hk⟩, hbare⟩

lemma IsLeaf.contentLeaf {tree : Tree} (h : IsLeaf .content tree) :
    Regained (Phrase.Leaf contentLeaf?) tree := by
  rcases h with ⟨s, p, rfl⟩
  intro ts hts
  obtain ⟨t, ⟨hk, hv⟩, rfl⟩ := (spelled_singleton ..).mp hts
  refine ⟨.leaf .content (t.text?.getD []) t.position, ⟨t, rfl, ?_⟩, by rw [Token.text?, hv]; rfl⟩
  rcases hk with hk | hk <;> simp [contentLeaf?, hk]

lemma more_regained {leaf? : Token → Option Tree} {leaves : List Tree}
    (h : ∀ leaf ∈ leaves, Regained (Phrase.Leaf leaf?) leaf) {ts : List Token}
    (hts : Spelled (Heading.behindCommas (Tree.flattenEach leaves)) ts) :
    ∃ leaves', Phrase.More leaf? ts leaves' ∧ Tree.bareEach leaves' = Tree.bareEach leaves := by
  induction leaves generalizing ts with
  | nil =>
      obtain rfl := (spelled_nil ts).mp hts
      exact ⟨[], .nil, rfl⟩
  | cons leaf leaves ih =>
      simp only [Tree.behindCommas_cons, spelled_append, spelled_cons] at hts
      rcases hts with ⟨_, vs, ⟨comma, us, ⟨hcomma, _⟩, hus, rfl⟩, hvs, rfl⟩
      obtain ⟨leaf', ⟨t, rfl, ht⟩, hbare⟩ := h leaf List.mem_cons_self us hus
      obtain ⟨leaves', hleaves, hbares⟩ :=
        ih (fun leaf hleaf => h leaf (List.mem_cons_of_mem _ hleaf)) hvs
      exact ⟨leaf' :: leaves', .cons hcomma ht hleaves, by simp [Tree.bareEach, hbare, hbares]⟩

lemma Simple.regained {tree : Tree} (h : Simple tree) : Regained Phrase.Simple tree := by
  intro ts hts
  cases h with
  | initialization type p q hn h =>
      simp only [Tree.flatten_initialization, spelled_append, spelled_cons, spelled_nil] at hts
      obtain ⟨_, _, ⟨t, _, ⟨ht, _⟩, ⟨us, _, hus, ⟨sign, vs, ⟨hs, _⟩, hvs, rfl⟩, rfl⟩, rfl⟩,
        ⟨semi, _, ⟨hsemi, _⟩, rfl, rfl⟩, rfl⟩ := hts
      obtain ⟨name, rfl, hname, hnbare⟩ := hn.name hus
      obtain ⟨value, hvalue, hbare⟩ := h.regained.1 vs hvs
      exact ⟨_, .initialization ht hname hs hvalue hsemi,
        by simp [Tree.bare, Tree.bareEach, hnbare, hbare, Tree.leaf]⟩
  | declaration type p q hn h =>
      simp only [Tree.flatten_declaration, spelled_append, spelled_cons, spelled_nil] at hts
      rcases hts with ⟨_, _, ⟨t, _, ⟨ht, _⟩, ⟨us, vs, hus, hvs, rfl⟩, rfl⟩,
        ⟨semi, _, ⟨hsemi, _⟩, rfl, rfl⟩, rfl⟩
      obtain ⟨name, rfl, hname, hnbare⟩ := hn.name hus
      obtain ⟨names, hnames, hbares⟩ :=
        more_regained (fun name hname => (h name hname).nameLeaf) hvs
      exact ⟨_, .declaration ht hname hnames hsemi,
        by simp [Tree.bare, Tree.bareEach, hnbare, hbares, Tree.leaf]⟩
  | assignment target p h =>
      simp only [Tree.flatten_assignment, spelled_append, spelled_cons, spelled_nil] at hts
      rcases hts with ⟨_, _, ⟨t, _, ⟨ht, hv⟩, ⟨sign, us, ⟨hs, _⟩, hus, rfl⟩, rfl⟩,
        ⟨semi, _, ⟨hsemi, _⟩, rfl, rfl⟩, rfl⟩
      obtain ⟨value, hvalue, hbare⟩ := h.regained.1 us hus
      exact ⟨_, .assignment ht hs hvalue hsemi,
        by simp [Tree.bare, Tree.bareEach, hbare, Token.text?, hv]⟩
  | print p ha h =>
      simp only [Tree.flatten_print, spelled_append, spelled_cons, spelled_nil] at hts
      rcases hts with ⟨_, _, ⟨t, _, ⟨ht, _⟩, harguments, rfl⟩, ⟨semi, _, ⟨hsemi, _⟩, rfl, rfl⟩, rfl⟩
      obtain ⟨o, _, c, ho, hinside, hc, rfl⟩ := spelled_between harguments
      obtain ⟨us, vs, hus, hvs, rfl⟩ := (spelled_append ..).mp hinside
      obtain ⟨first, ⟨a, rfl, hfirst⟩, hbare⟩ := ha.contentLeaf us hus
      obtain ⟨others, hothers, hbares⟩ :=
        more_regained (fun argument hargument => (h argument hargument).contentLeaf) hvs
      have hsplit : t :: (o :: ([a] ++ vs) ++ [c]) ++ [semi] = t :: o :: a :: vs ++ [c, semi] := by
        simp
      rw [hsplit]
      exact ⟨_, .print ht ho hfirst hothers hc hsemi,
        by simp [Tree.bare, Tree.bareEach, hbare, hbares]⟩
  | read p hn =>
      simp only [Tree.flatten_read, spelled_append, spelled_cons, spelled_nil] at hts
      rcases hts with ⟨_, _, ⟨t, us, ⟨ht, _⟩, hus, rfl⟩, ⟨semi, _, ⟨hsemi, _⟩, rfl, rfl⟩, rfl⟩
      obtain ⟨name, rfl, hname, hnbare⟩ := hn.name hus
      exact ⟨_, .read ht hname hsemi, by simp [Tree.bare, Tree.bareEach, hnbare]⟩

/-- A word, a condition and a block. -/
lemma heading_regained {w : Word} {test : Tree} (h : Condition test) {ls : List Lexeme}
    {ts : List Token}
    (hts : Spelled (.fixed (.word w) :: Heading.inParens test.flatten ++ Heading.inBraces ls) ts) :
    ∃ t gs o bs c test', t.kind = .word w ∧ Phrase.Guard gs test' ∧ test'.bare = test.bare ∧
      o.kind = .sign .openBrace ∧ Spelled ls bs ∧ c.kind = .sign .closeBrace ∧
      ts = t :: gs ++ (o :: bs ++ [c]) := by
  simp only [spelled_append, spelled_cons] at hts
  rcases hts with ⟨_, _, ⟨t, gs, ⟨ht, _⟩, hgs, rfl⟩, hblock, rfl⟩
  obtain ⟨test', htest, hbare⟩ := guard_regained h hgs
  obtain ⟨o, bs, c, ho, hbs, hc, rfl⟩ := spelled_between hblock
  exact ⟨t, gs, o, bs, c, test', ht, htest, hbare, ho, hbs, hc, rfl⟩

lemma Statements.regained {trees : List Tree} (h : Statements trees) {ts : List Token}
    (hts : Spelled (Tree.flattenEach trees).flatten ts) :
    ∃ trees', Phrase.Statements ts trees' ∧ Tree.bareEach trees' = Tree.bareEach trees := by
  induction h generalizing ts with
  | nil =>
      obtain rfl := (spelled_nil ts).mp hts
      exact ⟨[], .nil, rfl⟩
  | simple h _ ih =>
      obtain ⟨us, vs, hus, hvs, rfl⟩ := (spelled_append ..).mp hts
      obtain ⟨tree', htree, hbare⟩ := h.regained us hus
      obtain ⟨trees', htrees, hbares⟩ := ih hvs
      exact ⟨_, .simple htree htrees, by simp [Tree.bareEach, hbare, hbares]⟩
  | loop p q ht _ _ ihb ih =>
      obtain ⟨_, us, hloop, hus, rfl⟩ := (spelled_append ..).mp hts
      obtain ⟨t, gs, o, bs, c, test', hword, htest, hbare, ho, hbs, hc, rfl⟩ :=
        heading_regained ht hloop
      obtain ⟨body', hbody, hbody'⟩ := ihb hbs
      obtain ⟨trees', htrees, hbares⟩ := ih hus
      exact ⟨_, .loop hword htest ho hbody hc htrees,
        by simp [Tree.bare, Tree.bareEach, blockNode, hbare, hbody', hbares]⟩
  | conditional p q ht _ _ ihy ih =>
      obtain ⟨_, us, hconditional, hus, rfl⟩ := (spelled_append ..).mp hts
      obtain ⟨t, gs, o, bs, c, test', hword, htest, hbare, ho, hbs, hc, rfl⟩ :=
        heading_regained ht hconditional
      obtain ⟨yes', hyes, hyes'⟩ := ihy hbs
      obtain ⟨trees', htrees, hbares⟩ := ih hus
      exact ⟨_, .conditional hword htest ho hyes hc htrees,
        by simp [Tree.bare, Tree.bareEach, blockNode, hbare, hyes', hbares]⟩
  | alternative p q q' ht _ _ _ ihy ihn ih =>
      obtain ⟨_, us, halternative, hus, rfl⟩ := (spelled_append ..).mp hts
      obtain ⟨_, vs, hfirst, hsecond, rfl⟩ := (spelled_append ..).mp halternative
      obtain ⟨t, gs, o, bs, c, test', hword, htest, hbare, ho, hbs, hc, rfl⟩ :=
        heading_regained ht hfirst
      obtain ⟨e, ws, ⟨he, _⟩, hws, rfl⟩ := (spelled_cons ..).mp hsecond
      obtain ⟨o', bs', c', ho', hbs', hc', rfl⟩ := spelled_between hws
      obtain ⟨yes', hyes, hyes'⟩ := ihy hbs
      obtain ⟨no', hno, hno'⟩ := ihn hbs'
      obtain ⟨trees', htrees, hbares⟩ := ih hus
      exact ⟨_, .alternative hword htest ho hyes hc he ho' hno hc' htrees,
        by simp [Tree.bare, Tree.bareEach, blockNode, hbare, hyes', hno', hbares]⟩

lemma Program.regained {tree : Tree} (h : Program tree) : Regained Phrase.Program tree := by
  intro ts hts
  rcases h with ⟨name, p, q, q', h⟩
  simp only [Tree.flatten_program, spelled_append, spelled_cons] at hts
  rcases hts with ⟨_, _, ⟨t, _, ⟨ht, _⟩, ⟨n, _, ⟨hn, hv⟩, hparens, rfl⟩, rfl⟩, hbraces, rfl⟩
  obtain ⟨o, _, c, ho, hnil, hc, rfl⟩ := spelled_between hparens
  obtain rfl := (spelled_nil _).mp hnil
  obtain ⟨b, _, close, hb, hbody, hclose, rfl⟩ := spelled_between hbraces
  simp only [Tree.flatten_terminate, spelled_append, spelled_cons, spelled_nil] at hbody
  rcases hbody with ⟨ss, _, hss, ⟨e, _, ⟨he, _⟩, ⟨semi, _, ⟨hsemi, _⟩, rfl, rfl⟩, rfl⟩, rfl⟩
  obtain ⟨trees, htrees, hbares⟩ := h.regained hss
  have hsplit : t :: n :: (o :: [] ++ [c]) ++ (b :: (ss ++ [e, semi]) ++ [close]) =
      t :: n :: o :: c :: b :: ss ++ [e, semi, close] := by simp
  rw [hsplit]
  exact ⟨_, .intro ht hn ho hc hb htrees he hsemi hclose,
    by simp [Tree.bare, Tree.bareEach, blockNode, hbares, Token.text?, hv]⟩

/-! ## The parser -/

/-- **Parsing and writing out are inverse to each other.**  Tokens that carry what they should and
come to no entry are a spelling of what their tree is written as.  A tree of the right shape can be
spelled, and every spelling of it comes to no entry and to that tree, places apart. -/
theorem parse_flatten :
    (∀ ts, (∀ t ∈ ts, t.Genuine) → ((Parser.ofTokens ts).parse .program).log.entries = [] →
      ∃ tree, ((Parser.ofTokens ts).parse .program).tree = some tree ∧ Spelled tree.flatten ts) ∧
    (∀ tree, Program tree → (∃ ts, Spelled tree.flatten ts) ∧ ∀ ts, Spelled tree.flatten ts →
      ((Parser.ofTokens ts).parse .program).log.entries = [] ∧
        ∃ tree', ((Parser.ofTokens ts).parse .program).tree = some tree' ∧
        tree'.bare = tree.bare) := by
  refine ⟨fun ts hts hempty => ?_, fun tree h => ⟨h.numeric.spelled, fun ts hts => ?_⟩⟩
  · rw [Parser.parse_entries, Entry.run, List.map_eq_nil_iff] at hempty
    obtain ⟨tree, htree, hprogram⟩ := program_of_stops hempty
    rw [Parser.parse_tree, Entry.run, htree]
    exact ⟨tree, rfl, Phrase.Program.spelled hprogram hts⟩
  · obtain ⟨tree', htree, hbare⟩ := h.regained ts hts
    rw [Parser.parse_entries, Parser.parse_tree, Entry.run, program_complete htree]
    exact ⟨rfl, tree', rfl, hbare⟩

end Imperativo.Grammar.Shape
