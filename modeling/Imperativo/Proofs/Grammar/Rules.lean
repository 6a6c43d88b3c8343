import Imperativo.Proofs.Grammar.Production
import Mathlib.Computability.Language

/-!
# The grammar as rules

    program     ::= 'programa' IDENT '(' ')' '{' statement* terminate '}'
    terminate   ::= 'terminar' ';'
    declaration ::= type IDENT '=' expr ';' | type IDENT (',' IDENT)* ';'
    type        ::= 'int' | 'float' | 'char'
    statement   ::= declaration | assignment | print | read | while | if
    assignment  ::= IDENT '=' expr ';'
    print       ::= 'imprimir' '(' arg (',' arg)* ')' ';'
    arg         ::= STRING | IDENT
    read        ::= 'leer' IDENT ';'
    while       ::= 'mientras' '(' condition ')' block
    if          ::= 'si' '(' condition ')' block ('sino' block)?
    block       ::= '{' statement* '}'
    condition   ::= or_cond
    or_cond     ::= and_cond (('or' | '||') and_cond)*
    and_cond    ::= comparison (('and' | '&&') comparison)*
    comparison  ::= expr ('<' | '<=' | '>' | '>=' | '==' | '!=') expr
    expr        ::= term (('+' | '-') term)*
    term        ::= factor (('*' | '/') factor)*
    factor      ::= NUMBER | IDENT

`rule` is this text as data, and `Derives` says which lists of kinds a right side derives; neither
knows of trees or of reading.

* **`derives_program`** — the kinds that `program` derives are those of the phrases of programs.

From a derivation to a phrase goes `Derives.mem_language`: languages that are closed under all rules
contain whatever the rules derive.
-/

namespace Imperativo.Grammar

/-! ## Rules and derivations -/

/-- The names of the grammar. -/
inductive Symbol
  | program | terminate | declaration | type | statement | assignment | print | argument | read
      | loop | conditional
  | block | condition | orCondition | andCondition | comparison | expression | term | factor
  deriving DecidableEq, Repr

/-- Right sides of rules. -/
inductive Rule
  | empty
  | never
  | kind (k : Kind)
  | symbol (s : Symbol)
  | seq (r r' : Rule)
  | alt (r r' : Rule)
  | optional (r : Rule)
  | many (r : Rule)

/-- One right side behind another. -/
def Rule.row : List Rule → Rule
  | [] => .empty
  | r :: rs => .seq r (Rule.row rs)

/-- One of several right sides. -/
def Rule.oneOf : List Rule → Rule
  | [] => .never
  | r :: rs => .alt r (Rule.oneOf rs)

/-- Items joined by operators. -/
def Rule.joined (item : Symbol) (ops : List Kind) : Rule :=
  .row [.symbol item, .many (.row [.oneOf (ops.map .kind), .symbol item])]

/-- The rule of each name. -/
def rule : Symbol → Rule
  | .program =>
      .row [.kind (.word .programa), .kind .identifier, .kind (.sign .openParen),
      .kind (.sign .closeParen),
      .kind (.sign .openBrace), .many (.symbol .statement), .symbol .terminate,
      .kind (.sign .closeBrace)]
  | .terminate => .row [.kind (.word .terminar), .kind (.sign .semicolon)]
  | .declaration => .oneOf [
      .row [.symbol .type, .kind .identifier, .kind .assign, .symbol .expression,
      .kind (.sign .semicolon)],
      .row [.symbol .type, .kind .identifier,
      .many (.row [.kind (.sign .comma), .kind .identifier]), .kind (.sign .semicolon)]]
  | .type => .oneOf [.kind (.scalar .int), .kind (.scalar .float), .kind (.scalar .char)]
  | .statement =>
      .oneOf [.symbol .declaration, .symbol .assignment, .symbol .print, .symbol .read,
      .symbol .loop, .symbol .conditional]
  | .assignment =>
      .row [.kind .identifier, .kind .assign, .symbol .expression, .kind (.sign .semicolon)]
  | .print => .row [.kind (.word .imprimir), .kind (.sign .openParen), .symbol .argument,
      .many (.row [.kind (.sign .comma), .symbol .argument]), .kind (.sign .closeParen),
      .kind (.sign .semicolon)]
  | .argument => .oneOf [.kind .string, .kind .identifier]
  | .read => .row [.kind (.word .leer), .kind .identifier, .kind (.sign .semicolon)]
  | .loop =>
      .row [.kind (.word .mientras), .kind (.sign .openParen), .symbol .condition,
      .kind (.sign .closeParen), .symbol .block]
  | .conditional =>
      .row [.kind (.word .si), .kind (.sign .openParen), .symbol .condition,
      .kind (.sign .closeParen),
      .symbol .block, .optional (.row [.kind (.word .sino), .symbol .block])]
  | .block => .row [.kind (.sign .openBrace), .many (.symbol .statement), .kind (.sign .closeBrace)]
  | .condition => .symbol .orCondition
  | .orCondition => .joined .andCondition [.connective .orWord, .connective .orSign]
  | .andCondition => .joined .comparison [.connective .andWord, .connective .andSign]
  | .comparison =>
      .row [.symbol .expression, .oneOf [.kind (.relation .less), .kind (.relation .lessEqual),
      .kind (.relation .greater), .kind (.relation .greaterEqual), .kind (.relation .equal),
      .kind (.relation .notEqual)], .symbol .expression]
  | .expression => .joined .term [.arithmetic .add, .arithmetic .sub]
  | .term => .joined .factor [.arithmetic .mul, .arithmetic .div]
  | .factor => .oneOf [.kind .integer, .kind .float, .kind .identifier]

/-- The lists of kinds that a right side derives. -/
inductive Derives : Rule → List Kind → Prop
  | empty : Derives .empty []
  | kind (k) : Derives (.kind k) [k]
  | symbol {s ks} (h : Derives (rule s) ks) : Derives (.symbol s) ks
  | seq {r r' ks ls} (h : Derives r ks) (h' : Derives r' ls) : Derives (.seq r r') (ks ++ ls)
  | left {r r' ks} (h : Derives r ks) : Derives (.alt r r') ks
  | right {r r' ks} (h : Derives r' ks) : Derives (.alt r r') ks
  | absent {r} : Derives (.optional r) []
  | present {r ks} (h : Derives r ks) : Derives (.optional r) ks
  | done {r} : Derives (.many r) []
  | more {r ks ls} (h : Derives r ks) (h' : Derives (.many r) ls) : Derives (.many r) (ks ++ ls)

/-! ## Languages closed under the rules -/

section Closed

open Computability

variable {meaning : Symbol → Language Token}

/-- What a right side stands for when its names stand for the given languages. -/
def Rule.language (meaning : Symbol → Language Token) : Rule → Language Token
  | .empty => 1
  | .never => 0
  | .kind k => {ts | ∃ t, ts = [t] ∧ t.kind = k}
  | .symbol s => meaning s
  | .seq r r' => r.language meaning * r'.language meaning
  | .alt r r' => r.language meaning + r'.language meaning
  | .optional r => 1 + r.language meaning
  | .many r => (r.language meaning)∗

/-- **Least fixed points.**  Languages closed under the rules contain what the rules derive. -/
theorem Derives.mem_language
    (hclosed : ∀ s, ∀ ts ∈ (rule s).language meaning, ts ∈ meaning s) {r : Rule}
    {ks : List Kind} (h : Derives r ks) {ts : List Token} (hts : ts.map Token.kind = ks) :
    ts ∈ r.language meaning := by
  induction h generalizing ts with
  | empty => rw [List.map_eq_nil_iff.mp hts]; exact Language.nil_mem_one
  | kind k =>
      obtain ⟨t, rfl, ht⟩ := List.map_eq_singleton_iff.mp hts
      exact ⟨t, rfl, ht⟩
  | symbol _ ih => exact hclosed _ _ (ih hts)
  | seq _ _ ih ih' =>
      obtain ⟨us, vs, rfl, hus, hvs⟩ := List.map_eq_append_iff.mp hts
      exact Language.append_mem_mul (ih hus) (ih' hvs)
  | left _ ih => exact .inl (ih hts)
  | right _ ih => exact .inr (ih hts)
  | absent => rw [List.map_eq_nil_iff.mp hts]; exact .inl Language.nil_mem_one
  | present _ ih => exact .inr (ih hts)
  | done => rw [List.map_eq_nil_iff.mp hts]; exact Language.nil_mem_kstar _
  | more _ _ ih ih' =>
      obtain ⟨us, vs, rfl, hus, hvs⟩ := List.map_eq_append_iff.mp hts
      obtain ⟨parts, hparts, hall⟩ := Language.mem_kstar.mp (ih' hvs)
      rw [hparts]
      refine Language.join_mem_kstar (L := us :: parts) ?_
      rintro part (_ | ⟨_, hpart⟩)
      · exact ih hus
      · exact hall part hpart

lemma mem_row_nil {ts : List Token} : ts ∈ (Rule.row []).language meaning ↔ ts = [] :=
  Language.mem_one ts

lemma mem_row_cons {r : Rule} {rs : List Rule} {ts : List Token} :
    ts ∈ (Rule.row (r :: rs)).language meaning ↔
    ∃ us ∈ r.language meaning, ∃ vs ∈ (Rule.row rs).language meaning, us ++ vs = ts :=
  Language.mem_mul

lemma mem_oneOf {rs : List Rule} {ts : List Token} :
    ts ∈ (Rule.oneOf rs).language meaning ↔ ∃ r ∈ rs, ts ∈ r.language meaning := by
  induction rs with
  | nil => simp [Rule.oneOf, Rule.language]
  | cons r rs ih =>
      rw [Rule.oneOf, Rule.language, Language.mem_add, ih]
      simp

end Closed

/-! ## Phrases are derived -/

open Phrase

/-- The kinds of the tokens are derived. -/
def Derived (r : Rule) (ts : List Token) : Prop := Derives r (ts.map Token.kind)

namespace Derived

variable {r : Rule} {rs : List Rule} {ts us : List Token} {t : Token} {k : Kind}

lemma nil : Derived (.row []) [] := .empty

lemma token (ht : t.kind = k) (h : Derived (.row rs) us) :
    Derived (.row (.kind k :: rs)) (t :: us) := by
  rw [Derived, List.map_cons, ht]
  exact .seq (.kind k) h

lemma part (hr : Derived r ts) (h : Derived (.row rs) us) : Derived (.row (r :: rs)) (ts ++ us) :=
  by
  rw [Derived, List.map_append]
  exact .seq hr h

lemma one (hr : Derived r [t]) (h : Derived (.row rs) us) : Derived (.row (r :: rs)) (t :: us) :=
  part hr h

lemma last (hr : Derived r ts) : Derived (.row [r]) ts := by
  have h := part hr nil
  rwa [List.append_nil] at h

lemma oneOf (hr : r ∈ rs) (h : Derived r ts) : Derived (.oneOf rs) ts := by
  induction rs with
  | nil => cases hr
  | cons r' rs ih =>
      rcases List.mem_cons.mp hr with rfl | hr
      · exact .left h
      · exact .right (ih hr)

lemma symbol {s : Symbol} (h : Derived (rule s) ts) : Derived (.symbol s) ts := Derives.symbol h

lemma single (ht : t.kind = k) : Derived (.kind k) [t] := ht ▸ Derives.kind _

lemma more (hr : Derived r ts) (h : Derived (.many r) us) : Derived (.many r) (ts ++ us) := by
  rw [Derived, List.map_append]
  exact .more hr h

end Derived

lemma Derives.snoc {r : Rule} {ks ls : List Kind} (h : Derives (.many r) ks) (hr : Derives r ls) :
    Derives (.many r) (ks ++ ls) := by
  generalize hmany : Rule.many r = r' at h
  induction h with
  | done =>
      cases hmany
      have hone := Derives.more hr .done
      rwa [List.append_nil] at hone
  | more h _ _ ih =>
      cases hmany
      rw [List.append_assoc]
      exact .more h (ih rfl)
  | _ => cases hmany

/-- Chains are derived when their items and operators are. -/
lemma Phrase.Chain.derived {join? : Token → Option Heading} {Item : List Token → Tree → Prop}
    {item : Symbol}
    {ops : List Kind} (hitem : ∀ {ts tree}, Item ts tree → Derived (.symbol item) ts)
    (hop : ∀ {t heading}, join? t = some heading → t.kind ∈ ops) {ts : List Token} {tree : Tree}
    (h : Chain join? Item ts tree) : Derived (.joined item ops) ts := by
  suffices hsplit : ∃ us vs, ts = us ++ vs ∧ Derived (.symbol item) us ∧
      Derived (.many (.row [.oneOf (ops.map .kind), .symbol item])) vs by
    rcases hsplit with ⟨us, vs, rfl, hus, hvs⟩
    exact hus.part hvs.last
  induction h with
  | @item ts _ h => exact ⟨ts, [], (List.append_nil ts).symm, hitem h, .done⟩
  | @join ts us op heading l r _ hjoin hr ih =>
      obtain ⟨vs, ws, rfl, hvs, hws⟩ := ih
      refine ⟨vs, ws ++ op :: us, List.append_assoc _ _ _, hvs, ?_⟩
      have hone : Derived (.oneOf (ops.map .kind)) [op] :=
        .oneOf (List.mem_map_of_mem (hop hjoin)) (.single rfl)
      have hrow : Derived (.row [.oneOf (ops.map .kind), .symbol item]) (op :: us) :=
        hone.part (hitem hr).last
      rw [Derived, List.map_append]
      exact Derives.snoc hws hrow

lemma Phrase.Operand.derived {ts : List Token} {tree : Tree} (h : Operand ts tree) :
    Derived (.symbol .factor) ts := by
  rcases h with ⟨t, rfl, ht⟩
  refine .symbol (Derived.oneOf (r := .kind t.kind) ?_ (.single rfl))
  unfold operandLeaf? at ht
  split at ht <;> simp_all

lemma Phrase.Expression.derived {ts : List Token} {tree : Tree} (h : Expression ts tree) :
    Derived (.symbol .expression) ts := by
  have hterm : ∀ {ts tree}, Term ts tree → Derived (.symbol .term) ts := fun h => .symbol <| by
    refine Chain.derived Operand.derived (fun hjoin => ?_) h
    obtain ⟨op, hk, rfl | rfl, -⟩ := joinTerm?_some hjoin <;> simp [hk]
  refine .symbol (Chain.derived hterm (fun hjoin => ?_) h)
  obtain ⟨op, hk, rfl | rfl, -⟩ := joinSum?_some hjoin <;> simp [hk]

lemma Phrase.Comparison.derived {ts : List Token} {tree : Tree} (h : Comparison ts tree) :
    Derived (.symbol .comparison) ts := by
  rcases h with ⟨hl, ht, hr⟩
  rename_i op
  refine .symbol (hl.derived.part (Derived.one ?_ hr.derived.last))
  exact Derived.oneOf (r := .kind (.relation op)) (by cases op <;> simp) (.single ht)

lemma Phrase.Condition.derived {ts : List Token} {tree : Tree} (h : Condition ts tree) :
    Derived (.symbol .condition) ts := by
  have hjoins : ∀ {tight t heading}, joinCondition? tight t = some heading →
      t.kind ∈ if tight then [Kind.connective .andWord, .connective .andSign]
        else [.connective .orWord, .connective .orSign] := by
    intro tight t heading hjoin
    obtain ⟨op, hk, hop, -⟩ := joinCondition?_some hjoin
    rw [hk, ← hop]
    cases op <;> decide
  have hconjunction : ∀ {ts tree}, Conjunction ts tree → Derived (.symbol .andCondition) ts :=
    fun h => .symbol (Chain.derived Comparison.derived hjoins h)
  exact .symbol (.symbol (Chain.derived hconjunction hjoins h))

/-- A list of leaves behind commas is derived when each leaf is. -/
lemma Phrase.More.derived {leaf? : Token → Option Tree} {r : Rule}
    (hleaf : ∀ {t leaf}, leaf? t = some leaf → Derived r [t]) {ts : List Token} {trees : List Tree}
    (h : More leaf? ts trees) : Derived (.many (.row [.kind (.sign .comma), r])) ts := by
  induction h with
  | nil => exact .done
  | @cons comma t us leaf leaves hc ht _ ih =>
      have hrow : Derived (.row [.kind (.sign .comma), r]) [comma, t] := .token hc (hleaf ht).last
      exact hrow.more ih

lemma derived_argument {t : Token} {leaf : Tree} (h : contentLeaf? t = some leaf) :
    Derived (.symbol .argument) [t] := by
  refine .symbol (Derived.oneOf (r := .kind t.kind) ?_ (.single rfl))
  unfold contentLeaf? at h
  split at h <;> simp_all

lemma derived_type {t : Token} {type : Scalar} (ht : t.kind = .scalar type) :
    Derived (.symbol .type) [t] :=
  .symbol (Derived.oneOf (r := .kind (.scalar type)) (by cases type <;> simp) (.single ht))

/-- What one of the alternatives derives is a statement. -/
lemma derived_statement {s : Symbol} {ts : List Token}
    (hs : Rule.symbol s ∈ [Rule.symbol .declaration,
      .symbol .assignment, .symbol .print, .symbol .read, .symbol .loop, .symbol .conditional])
    (h : Derived (rule s) ts) :
    Derived (.symbol .statement) ts := .symbol (Derived.oneOf hs (.symbol h))

lemma Phrase.Simple.derived {ts : List Token} {tree : Tree} (h : Simple ts tree) :
    Derived (.symbol .statement) ts := by
  cases h with
  | @initialization type t _ _ _ _ _ ht hn hs h hsemi =>
      refine derived_statement (s := .declaration) (by simp) (.left ?_)
      exact (derived_type ht).part (.token hn (.token hs (h.derived.part (.token hsemi .nil))))
  | @declaration type t _ _ _ _ ht hn h hsemi =>
      refine derived_statement (s := .declaration) (by simp) (.right (.left ?_))
      refine (derived_type ht).part
        (.token hn (Derived.part (h.derived fun hleaf => ?_) (.token hsemi .nil)))
      unfold nameLeaf? at hleaf
      split at hleaf <;> simp_all [Derived.single]
  | assignment ht hs h hsemi =>
      exact derived_statement (s := .assignment) (by simp)
        (.token ht (.token hs (h.derived.part (.token hsemi .nil))))
  | @print t o a _ _ _ _ _ ht ho ha h hc hsemi =>
      refine derived_statement (s := .print) (by simp) (.token ht (.token ho ?_))
      exact (derived_argument ha).part
        ((h.derived derived_argument).part (.token hc (.token hsemi .nil)))
  | read ht hn hsemi =>
      exact derived_statement (s := .read) (by simp) (.token ht (.token hn (.token hsemi .nil)))

/-- A condition in parentheses, and what follows it, in a rule. -/
lemma Phrase.Guard.derived {ts us : List Token} {tree : Tree} {rs : List Rule} (h : Guard ts tree)
    (hrest : Derived (.row rs) us) :
    Derived (.row (.kind (.sign .openParen) :: .symbol .condition ::
      .kind (.sign .closeParen) :: rs)) (ts ++ us) := by
  rcases h with ⟨ho, h, hc⟩
  rw [List.append_assoc]
  exact .token ho (h.derived.part (.token hc hrest))

/-- A block in which statements stand. -/
lemma derived_block {o c : Token} {us : List Token} (ho : o.kind = .sign .openBrace)
    (h : Derived (.many (.symbol .statement)) us) (hc : c.kind = .sign .closeBrace) :
    Derived (.symbol .block) (o :: us ++ [c]) := .symbol (.token ho (h.part (.token hc .nil)))

lemma Phrase.Statements.derived {ts : List Token} {trees : List Tree} (h : Statements ts trees) :
    Derived (.many (.symbol .statement)) ts := by
  induction h with
  | nil => exact .done
  | simple h _ ih => exact h.derived.more ih
  | loop ht hg ho _ hc _ ihb ih =>
      refine Derived.more (derived_statement (s := .loop) (by simp) ?_) ih
      exact .token ht (hg.derived (derived_block ho ihb hc).last)
  | conditional ht hg ho _ hc _ ihb ih =>
      refine Derived.more (derived_statement (s := .conditional) (by simp) ?_) ih
      rw [← List.append_nil (_ :: _ ++ _), List.append_assoc]
      exact .token ht (hg.derived ((derived_block ho ihb hc).part (Derived.last .absent)))
  | alternative ht hg ho _ hc he ho' _ hc' _ ihb ihb' ih =>
      refine Derived.more (derived_statement (s := .conditional) (by simp) ?_) ih
      rw [List.append_assoc, List.cons_append]
      refine .token ht (hg.derived ((derived_block ho ihb hc).part (Derived.last (.present ?_))))
      exact Derived.token he (derived_block ho' ihb' hc').last

/-- Programs are derived. -/
lemma Phrase.ProgramOf.derived {ts : List Token} {tree : Tree} (h : Program ts tree) :
    Derived (.symbol .program) ts := by
  rcases h with ⟨hp, hn, ho, hc, hb, hs, he, hsemi, hclose⟩
  rename_i e semi close
  have hterminate : Derived (.symbol .terminate) [e, semi] :=
    .symbol (.token he (.token hsemi .nil))
  have hend : Derived (.row [.symbol .terminate, .kind (.sign .closeBrace)]) [e, semi, close] :=
    hterminate.part (.token hclose .nil)
  exact .symbol (.token hp (.token hn (.token ho (.token hc (.token hb (hs.derived.part hend))))))

/-! ## What is derived is a phrase -/

/-- The phrases of each name. -/
def meaning : Symbol → Language Token
  | .program => {ts | ∃ tree, Program ts tree}
  | .terminate =>
      {ts | ∃ e semi, ts = [e, semi] ∧ e.kind = .word .terminar ∧ semi.kind = .sign .semicolon}
  | .declaration | .assignment | .print | .read => {ts | ∃ tree, Simple ts tree}
  | .type => {ts | ∃ t type, ts = [t] ∧ t.kind = .scalar type}
  | .statement | .loop | .conditional => {ts | ∃ tree, Statement Statements ts tree}
  | .argument => {ts | ∃ t leaf, ts = [t] ∧ contentLeaf? t = some leaf}
  | .block => {ts | ∃ tree, Block Statements ts tree}
  | .condition | .orCondition => {ts | ∃ tree, Condition ts tree}
  | .andCondition => {ts | ∃ tree, Conjunction ts tree}
  | .comparison => {ts | ∃ tree, Comparison ts tree}
  | .expression => {ts | ∃ tree, Expression ts tree}
  | .term => {ts | ∃ tree, Term ts tree}
  | .factor => {ts | ∃ tree, Operand ts tree}

lemma mem_kind {k : Kind} {ts : List Token} :
    ts ∈ (Rule.kind k).language meaning ↔ ∃ t, ts = [t] ∧ t.kind = k := Iff.rfl

/-- A row of one token and more. -/
lemma mem_row_kind {k : Kind} {rs : List Rule} {ts : List Token}
    (h : ts ∈ (Rule.row (.kind k :: rs)).language meaning) :
    ∃ t us, ts = t :: us ∧ t.kind = k ∧ us ∈ (Rule.row rs).language meaning := by
  obtain ⟨_, ⟨t, rfl, ht⟩, us, hus, rfl⟩ := mem_row_cons.mp h
  exact ⟨t, us, rfl, ht, hus⟩

lemma mem_oneOf_kinds (ks : List Kind) {ts : List Token}
    (h : ts ∈ (Rule.oneOf (ks.map .kind)).language meaning) : ∃ t, ts = [t] ∧ t.kind ∈ ks := by
  obtain ⟨r, hr, h⟩ := mem_oneOf.mp h
  obtain ⟨k, hk, rfl⟩ := List.mem_map.mp hr
  rcases h with ⟨t, rfl, rfl⟩
  exact ⟨t, rfl, hk⟩

/-- Repetition, from the left. -/
lemma mem_many_induction {r : Rule} {P : List Token → Prop} (hdone : P [])
    (hmore : ∀ us vs, us ∈ r.language meaning → P vs → P (us ++ vs)) {ts : List Token}
    (h : ts ∈ (Rule.many r).language meaning) : P ts := by
  obtain ⟨parts, rfl, hall⟩ := Language.mem_kstar.mp h
  clear h
  induction parts with
  | nil => exact hdone
  | cons part parts ih =>
      exact hmore part _ (hall part List.mem_cons_self)
        (ih fun y hy => hall y (List.mem_cons_of_mem _ hy))

/-- Items joined by operators are chains. -/
lemma mem_joined (item : Symbol) (Item : List Token → Tree → Prop) {join? : Token → Option Heading}
    {ops : List Kind} (hitem : ∀ {ts}, ts ∈ meaning item → ∃ tree, Item ts tree)
    (hop : ∀ {t}, t.kind ∈ ops → ∃ heading, join? t = some heading) {ts : List Token}
    (h : ts ∈ (Rule.joined item ops).language meaning) : ∃ tree, Chain join? Item ts tree := by
  obtain ⟨us, hus, _, hrest, rfl⟩ := mem_row_cons.mp h
  obtain ⟨vs, hvs, _, hnil, rfl⟩ := mem_row_cons.mp hrest
  obtain rfl := mem_row_nil.mp hnil
  obtain ⟨l, hl⟩ := hitem hus
  -- further items continue any chain in front of them
  have hcontinue : ∀ us l, Chain join? Item us l → ∃ tree, Chain join? Item (us ++ vs) tree := by
    refine mem_many_induction (P := fun vs => ∀ us l, Chain join? Item us l →
      ∃ tree, Chain join? Item (us ++ vs) tree)
      (fun us l hl => ⟨l, by rwa [List.append_nil]⟩) (fun ws vs hws ih us l hl => ?_) hvs
    obtain ⟨_, hone, _, hrow, rfl⟩ := mem_row_cons.mp hws
    obtain ⟨op, rfl, hkind⟩ := mem_oneOf_kinds ops hone
    obtain ⟨xs, hxs, _, hnil, rfl⟩ := mem_row_cons.mp hrow
    obtain rfl := mem_row_nil.mp hnil
    obtain ⟨heading, hjoin⟩ := hop hkind
    obtain ⟨r, hr⟩ := hitem hxs
    obtain ⟨tree, htree⟩ := ih _ _ (hl.join hjoin hr)
    exact ⟨tree, by simpa using htree⟩
  rw [List.append_nil]
  exact hcontinue us l (.item hl)

lemma mem_commas (leaf? : Token → Option Tree) {r : Rule}
    (hr : ∀ {us}, us ∈ r.language meaning → ∃ t leaf, us = [t] ∧ leaf? t = some leaf)
    {ts : List Token} (h : ts ∈ (Rule.many (.row [.kind (.sign .comma), r])).language meaning) :
    ∃ leaves, More leaf? ts leaves := by
  refine mem_many_induction (P := fun ts => ∃ leaves, More leaf? ts leaves) ⟨[], .nil⟩
    (fun us vs hus ih => ?_) h
  obtain ⟨leaves, hleaves⟩ := ih
  obtain ⟨comma, _, rfl, hc, hrow⟩ := mem_row_kind hus
  obtain ⟨_, hone, _, hnil, rfl⟩ := mem_row_cons.mp hrow
  obtain rfl := mem_row_nil.mp hnil
  obtain ⟨t, leaf, rfl, ht⟩ := hr hone
  exact ⟨leaf :: leaves, .cons hc ht hleaves⟩

lemma mem_statements {ts : List Token}
    (h : ts ∈ (Rule.many (.symbol .statement)).language meaning) :
    ∃ trees, Statements ts trees := by
  refine mem_many_induction (P := fun ts => ∃ trees, Statements ts trees) ⟨[], .nil⟩
    (fun us vs hus ih => ?_) h
  rcases hus with ⟨tree, htree⟩
  obtain ⟨trees, htrees⟩ := ih
  exact ⟨tree :: trees, .cons htree htrees⟩

/-- A part of a row, and a token behind it. -/
lemma mem_row_part {r : Rule} {rs : List Rule} {ts : List Token}
    (h : ts ∈ (Rule.row (r :: rs)).language meaning) :
    ∃ us vs, ts = us ++ vs ∧ us ∈ r.language meaning ∧ vs ∈ (Rule.row rs).language meaning := by
  obtain ⟨us, hus, vs, hvs, rfl⟩ := mem_row_cons.mp h
  exact ⟨us, vs, rfl, hus, hvs⟩

lemma mem_guard {rs : List Rule} {ts : List Token} (h : ts ∈ (Rule.row (.kind (.sign .openParen) ::
    .symbol .condition :: .kind (.sign .closeParen) :: rs)).language meaning) :
    ∃ us vs tree, ts = us ++ vs ∧ Guard us tree ∧ vs ∈ (Rule.row rs).language meaning := by
  obtain ⟨o, _, rfl, ho, h⟩ := mem_row_kind h
  obtain ⟨us, _, rfl, ⟨tree, htree⟩, h⟩ := mem_row_part h
  obtain ⟨c, vs, rfl, hc, h⟩ := mem_row_kind h
  exact ⟨o :: us ++ [c], vs, tree, by simp, .intro ho htree hc, h⟩

lemma mem_declaration {ts : List Token} (h : ts ∈ (rule .declaration).language meaning) :
    ts ∈ meaning .declaration := by
  obtain ⟨r, hr, h⟩ := mem_oneOf.mp h
  rcases List.mem_pair.mp hr with rfl | rfl
  all_goals
    obtain ⟨_, _, rfl, ⟨t, type, rfl, ht⟩, hname⟩ := mem_row_part h
    obtain ⟨name, _, rfl, hn, h⟩ := mem_row_kind hname
  · obtain ⟨sign, _, rfl, hs, h⟩ := mem_row_kind h
    obtain ⟨us, _, rfl, ⟨value, hvalue⟩, h⟩ := mem_row_part h
    obtain ⟨semi, _, rfl, hsemi, h⟩ := mem_row_kind h
    obtain rfl := mem_row_nil.mp h
    exact ⟨_, .initialization ht hn hs hvalue hsemi⟩
  · obtain ⟨us, _, rfl, hus, h⟩ := mem_row_part h
    obtain ⟨semi, _, rfl, hsemi, h⟩ := mem_row_kind h
    obtain rfl := mem_row_nil.mp h
    obtain ⟨names, hnames⟩ := mem_commas nameLeaf? (fun h => by
      obtain ⟨t, hts, ht⟩ := mem_kind.mp h
      exact ⟨t, variableLeaf t, hts, by rw [nameLeaf?, if_pos ht]⟩) hus
    exact ⟨_, .declaration ht hn hnames hsemi⟩

lemma mem_print {ts : List Token} (h : ts ∈ (rule .print).language meaning) : ts ∈ meaning .print :=
  by
  obtain ⟨t, _, rfl, ht, h⟩ := mem_row_kind h
  obtain ⟨o, _, rfl, ho, h⟩ := mem_row_kind h
  obtain ⟨_, _, rfl, ⟨a, first, rfl, ha⟩, hmore⟩ := mem_row_part h
  obtain ⟨us, _, rfl, hus, h⟩ := mem_row_part hmore
  obtain ⟨c, _, rfl, hc, h⟩ := mem_row_kind h
  obtain ⟨semi, _, rfl, hsemi, h⟩ := mem_row_kind h
  obtain rfl := mem_row_nil.mp h
  obtain ⟨others, hothers⟩ := mem_commas contentLeaf? id hus
  exact ⟨_, .print ht ho ha hothers hc hsemi⟩

lemma mem_conditional {ts : List Token} (h : ts ∈ (rule .conditional).language meaning) :
    ts ∈ meaning .conditional := by
  obtain ⟨t, _, rfl, ht, h⟩ := mem_row_kind h
  obtain ⟨us, _, test, rfl, hg, h⟩ := mem_guard h
  obtain ⟨vs, _, rfl, ⟨yes, hyes⟩, h⟩ := mem_row_part h
  obtain ⟨ws, _, rfl, hws, h⟩ := mem_row_part h
  obtain rfl := mem_row_nil.mp h
  rw [List.append_nil]
  rcases hws with hnil | helse
  · obtain rfl := (Language.mem_one _).mp hnil
    rw [List.append_nil]
    exact ⟨_, .conditional ht hg hyes⟩
  · obtain ⟨e, _, rfl, he, h⟩ := mem_row_kind helse
    obtain ⟨ws, _, rfl, ⟨no, hno⟩, h⟩ := mem_row_part h
    obtain rfl := mem_row_nil.mp h
    rw [List.append_nil, ← List.append_assoc]
    exact ⟨_, .alternative ht hg hyes he hno⟩

lemma mem_program {ts : List Token} (h : ts ∈ (rule .program).language meaning) :
    ts ∈ meaning .program := by
  obtain ⟨p, _, rfl, hp, h⟩ := mem_row_kind h
  obtain ⟨name, _, rfl, hn, h⟩ := mem_row_kind h
  obtain ⟨o, _, rfl, ho, h⟩ := mem_row_kind h
  obtain ⟨c, _, rfl, hc, h⟩ := mem_row_kind h
  obtain ⟨b, _, rfl, hb, h⟩ := mem_row_kind h
  obtain ⟨ss, _, rfl, hss, h⟩ := mem_row_part h
  obtain ⟨_, _, rfl, ⟨e, semi, rfl, he, hsemi⟩, hend⟩ := mem_row_part h
  obtain ⟨close, _, rfl, hclose, h⟩ := mem_row_kind hend
  obtain rfl := mem_row_nil.mp h
  obtain ⟨trees, hs⟩ := mem_statements hss
  exact ⟨_, .intro hp hn ho hc hb hs he hsemi hclose⟩

/-- The phrases are closed under the rules. -/
lemma meaning_closed (s : Symbol) : ∀ ts ∈ (rule s).language meaning, ts ∈ meaning s := by
  intro ts h
  cases s with
  | program => exact mem_program h
  | terminate =>
      obtain ⟨e, _, rfl, he, h⟩ := mem_row_kind h
      obtain ⟨semi, _, rfl, hsemi, h⟩ := mem_row_kind h
      obtain rfl := mem_row_nil.mp h
      exact ⟨e, semi, rfl, he, hsemi⟩
  | declaration => exact mem_declaration h
  | type =>
      obtain ⟨t, rfl, ht⟩ := mem_oneOf_kinds [.scalar .int, .scalar .float, .scalar .char] h
      simp only [List.mem_cons, List.not_mem_nil, or_false] at ht
      rcases ht with ht | ht | ht <;> exact ⟨t, _, rfl, ht⟩
  | statement =>
      obtain ⟨r, hr, h⟩ := mem_oneOf.mp h
      simp only [List.mem_cons, List.not_mem_nil, or_false] at hr
      rcases hr with rfl | rfl | rfl | rfl | rfl | rfl
      · exact h.imp fun _ => .simple
      · exact h.imp fun _ => .simple
      · exact h.imp fun _ => .simple
      · exact h.imp fun _ => .simple
      · exact h
      · exact h
  | assignment =>
      obtain ⟨t, _, rfl, ht, h⟩ := mem_row_kind h
      obtain ⟨sign, _, rfl, hs, h⟩ := mem_row_kind h
      obtain ⟨us, _, rfl, ⟨value, hvalue⟩, h⟩ := mem_row_part h
      obtain ⟨semi, _, rfl, hsemi, h⟩ := mem_row_kind h
      obtain rfl := mem_row_nil.mp h
      exact ⟨_, .assignment ht hs hvalue hsemi⟩
  | print => exact mem_print h
  | argument =>
      obtain ⟨t, rfl, ht⟩ := mem_oneOf_kinds [.string, .identifier] h
      rcases List.mem_pair.mp ht with ht | ht <;>
        exact ⟨t, _, rfl, by simp only [contentLeaf?, ht]; rfl⟩
  | read =>
      obtain ⟨t, _, rfl, ht, h⟩ := mem_row_kind h
      obtain ⟨name, _, rfl, hn, h⟩ := mem_row_kind h
      obtain ⟨semi, _, rfl, hsemi, h⟩ := mem_row_kind h
      obtain rfl := mem_row_nil.mp h
      exact ⟨_, .read ht hn hsemi⟩
  | loop =>
      obtain ⟨t, _, rfl, ht, h⟩ := mem_row_kind h
      obtain ⟨us, _, test, rfl, hg, h⟩ := mem_guard h
      obtain ⟨vs, _, rfl, ⟨body, hbody⟩, h⟩ := mem_row_part h
      obtain rfl := mem_row_nil.mp h
      rw [List.append_nil]
      exact ⟨_, .loop ht hg hbody⟩
  | conditional => exact mem_conditional h
  | block =>
      obtain ⟨o, _, rfl, ho, h⟩ := mem_row_kind h
      obtain ⟨us, _, rfl, hus, h⟩ := mem_row_part h
      obtain ⟨c, _, rfl, hc, h⟩ := mem_row_kind h
      obtain rfl := mem_row_nil.mp h
      obtain ⟨trees, htrees⟩ := mem_statements hus
      exact ⟨_, .intro ho htrees hc⟩
  | condition => exact h
  | orCondition =>
      refine mem_joined .andCondition Conjunction id (fun {t} ht => ?_) h
      rcases List.mem_pair.mp ht with ht | ht <;> exact ⟨_, by simp only [joinCondition?, ht]; rfl⟩
  | andCondition =>
      refine mem_joined .comparison Comparison id (fun {t} ht => ?_) h
      rcases List.mem_pair.mp ht with ht | ht <;> exact ⟨_, by simp only [joinCondition?, ht]; rfl⟩
  | comparison =>
      obtain ⟨us, _, rfl, ⟨l, hl⟩, h⟩ := mem_row_part h
      obtain ⟨_, _, rfl, hop, h⟩ := mem_row_part h
      obtain ⟨vs, _, rfl, ⟨r, hr⟩, h⟩ := mem_row_part h
      obtain rfl := mem_row_nil.mp h
      obtain ⟨t, rfl, ht⟩ := mem_oneOf_kinds
        [.relation .less, .relation .lessEqual, .relation .greater,
        .relation .greaterEqual, .relation .equal, .relation .notEqual] hop
      obtain ⟨op, hkind⟩ : ∃ op, t.kind = .relation op := by
        simp only [List.mem_cons, List.not_mem_nil, or_false] at ht
        rcases ht with ht | ht | ht | ht | ht | ht <;> exact ⟨_, ht⟩
      rw [List.append_nil]
      exact ⟨_, .intro hl hkind hr⟩
  | expression =>
      refine mem_joined .term Term id (fun {t} ht => ?_) h
      rcases List.mem_pair.mp ht with ht | ht <;> exact ⟨_, by simp only [joinSum?, ht]; rfl⟩
  | term =>
      refine mem_joined .factor Operand id (fun {t} ht => ?_) h
      rcases List.mem_pair.mp ht with ht | ht <;> exact ⟨_, by simp only [joinTerm?, ht]; rfl⟩
  | factor =>
      obtain ⟨t, rfl, ht⟩ := mem_oneOf_kinds [.integer, .float, .identifier] h
      simp only [List.mem_cons, List.not_mem_nil, or_false] at ht
      rcases ht with ht | ht | ht <;> exact ⟨_, t, rfl, by simp only [operandLeaf?, ht]; rfl⟩

/-- **The kinds that `program` derives** are those of programs. -/
theorem derives_program (ts : List Token) :
    Derives (.symbol .program) (ts.map Token.kind) ↔ ∃ tree, Program ts tree :=
  ⟨fun h => h.mem_language meaning_closed rfl, fun ⟨_, h⟩ => h.derived⟩

end Imperativo.Grammar
