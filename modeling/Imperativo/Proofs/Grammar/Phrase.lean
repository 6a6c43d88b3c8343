import Imperativo.Grammar.Program
import Imperativo.Proofs.Grammar.Law

/-!
# Phrases

A phrase is a list of tokens that a part of the grammar derives, together with the tree that it
stands for.  The relations here have one rule for each alternative of the grammar and say nothing
about reading: no error, no look-ahead, no order in which alternatives are tried.  Statements
without blocks, and everything below them, come first; the statements of a block are a parameter of
the statements with blocks, as they are of the functions that read them.  What the operators of a
level are, and what nodes they become, is said once, in front of the relations.

What the readings need to know about the tokens of phrases is at the end: inside a statement without
blocks there is neither a brace nor a semicolon before its last token (`Simple.ends`), and a
condition in parentheses has none at all (`Guard.plain`).
-/

namespace Imperativo.Grammar.Phrase

/-! ## Operators -/

section Operators

variable {t : Token} {heading : Heading}

lemma joinTerm?_some (h : joinTerm? t = some heading) : ∃ op : Arithmetic,
    t.kind = .arithmetic op ∧ (op = .mul ∨ op = .div) ∧
      heading = ⟨.binary op, none, t.position⟩ := by
  unfold joinTerm? at h
  split at h <;> cases h
  · exact ⟨.mul, ‹_›, .inl rfl, rfl⟩
  · exact ⟨.div, ‹_›, .inr rfl, rfl⟩

lemma joinSum?_some (h : joinSum? t = some heading) : ∃ op : Arithmetic,
    t.kind = .arithmetic op ∧ (op = .add ∨ op = .sub) ∧
      heading = ⟨.binary op, none, t.position⟩ := by
  unfold joinSum? at h
  split at h <;> cases h
  · exact ⟨.add, ‹_›, .inl rfl, rfl⟩
  · exact ⟨.sub, ‹_›, .inr rfl, rfl⟩

lemma joinCondition?_some {tight : Bool} (h : joinCondition? tight t = some heading) :
    ∃ op : Connective, t.kind = .connective op ∧ op.isAnd = tight ∧
      heading = ⟨.combination, some op.spelling.toList, t.position⟩ := by
  unfold joinCondition? at h
  split at h
  · rename_i op hk
    split at h
    · cases h
      exact ⟨op, hk, ‹_›, rfl⟩
    · cases h
  · cases h

end Operators

/-! ## Expressions and conditions -/

/-- One token that is a leaf of the tree. -/
def Leaf (leaf? : Token → Option Tree) (ts : List Token) (tree : Tree) : Prop :=
  ∃ t, ts = [t] ∧ leaf? t = some tree

/-- Items of one level, joined from the left by the operators of that level. -/
inductive Chain (join? : Token → Option Heading) (Item : List Token → Tree → Prop) :
    List Token → Tree → Prop
  | item {ts tree} (h : Item ts tree) : Chain join? Item ts tree
  | join {ts us op heading l r} (hl : Chain join? Item ts l) (hop : join? op = some heading)
      (hr : Item us r) : Chain join? Item (ts ++ op :: us) (.node heading [l, r])

/-- A number or a variable. -/
def Operand : List Token → Tree → Prop := Leaf operandLeaf?

/-- Operands joined by multiplications and divisions. -/
def Term : List Token → Tree → Prop := Chain joinTerm? Operand

/-- Terms joined by additions and subtractions. -/
def Expression : List Token → Tree → Prop := Chain joinSum? Term

/-- Two expressions with a relation between them. -/
inductive Comparison : List Token → Tree → Prop
  | intro {us vs l r t op} (hl : Expression us l) (ht : t.kind = .relation op)
      (hr : Expression vs r) :
      Comparison (us ++ t :: vs) (.node ⟨.comparison, some op.spelling.toList, t.position⟩ [l, r])

/-- Comparisons joined by the tighter connectives. -/
def Conjunction : List Token → Tree → Prop := Chain (joinCondition? true) Comparison

/-- Conjunctions joined by the looser connectives. -/
def Condition : List Token → Tree → Prop := Chain (joinCondition? false) Conjunction

/-- A condition in parentheses. -/
inductive Guard : List Token → Tree → Prop
  | intro {o us c tree} (ho : o.kind = .sign .openParen) (h : Condition us tree)
      (hc : c.kind = .sign .closeParen) : Guard (o :: us ++ [c]) tree

/-! ## Statements -/

/-- Leaves, each behind a comma. -/
inductive More (leaf? : Token → Option Tree) : List Token → List Tree → Prop
  | nil : More leaf? [] []
  | cons {comma t us leaf leaves} (hc : comma.kind = .sign .comma) (ht : leaf? t = some leaf)
      (h : More leaf? us leaves) : More leaf? (comma :: t :: us) (leaf :: leaves)

/-- A statement without blocks. -/
inductive Simple : List Token → Tree → Prop
  | initialization {type t name sign us value semi} (ht : t.kind = .scalar type)
      (hn : name.kind = .identifier)
      (hs : sign.kind = .assign) (h : Expression us value) (hsemi : semi.kind = .sign .semicolon) :
      Simple (t :: name :: sign :: us ++ [semi]) (.node ⟨.initialization, none, t.position⟩
        [.leaf .scalar type.spelling.toList t.position, variableLeaf name, value])
  | declaration {type t name us names semi} (ht : t.kind = .scalar type)
      (hn : name.kind = .identifier)
      (h : More nameLeaf? us names) (hsemi : semi.kind = .sign .semicolon) :
      Simple (t :: name :: us ++ [semi]) (.node ⟨.declaration, none, t.position⟩
        (.leaf .scalar type.spelling.toList t.position :: variableLeaf name :: names))
  | assignment {t sign us value semi} (ht : t.kind = .identifier) (hs : sign.kind = .assign)
      (h : Expression us value) (hsemi : semi.kind = .sign .semicolon) :
      Simple (t :: sign :: us ++ [semi])
        (.node ⟨.assignment, some (t.text?.getD []), t.position⟩ [value])
  | print {t o a us first others c semi} (ht : t.kind = .word .imprimir)
      (ho : o.kind = .sign .openParen)
      (ha : contentLeaf? a = some first) (h : More contentLeaf? us others)
      (hc : c.kind = .sign .closeParen) (hsemi : semi.kind = .sign .semicolon) :
      Simple (t :: o :: a :: us ++ [c, semi]) (.node ⟨.print, none, t.position⟩ (first :: others))
  | read {t name semi} (ht : t.kind = .word .leer) (hn : name.kind = .identifier)
      (hsemi : semi.kind = .sign .semicolon) :
      Simple [t, name, semi] (.node ⟨.read, none, t.position⟩ [variableLeaf name])

section Blocks

variable (Inside : List Token → List Tree → Prop)

/-- A block, what stands in it being related to its statements by `Inside`. -/
inductive Block : List Token → Tree → Prop
  | intro {o us c trees} (ho : o.kind = .sign .openBrace) (h : Inside us trees)
      (hc : c.kind = .sign .closeBrace) : Block (o :: us ++ [c]) (blockNode (us ++ [c]) trees)

/-- A statement. -/
inductive Statement : List Token → Tree → Prop
  | simple {ts tree} (h : Simple ts tree) : Statement ts tree
  | loop {t us vs test body} (ht : t.kind = .word .mientras) (hg : Guard us test)
      (hb : Block Inside vs body) :
      Statement (t :: us ++ vs) (.node ⟨.loop, none, t.position⟩ [test, body])
  | conditional {t us vs test yes} (ht : t.kind = .word .si) (hg : Guard us test)
      (hb : Block Inside vs yes) :
      Statement (t :: us ++ vs) (.node ⟨.conditional, none, t.position⟩ [test, yes])
  | alternative {t us vs e ws test yes no} (ht : t.kind = .word .si) (hg : Guard us test)
      (hy : Block Inside vs yes) (he : e.kind = .word .sino) (hn : Block Inside ws no) :
      Statement (t :: us ++ vs ++ e :: ws) (.node ⟨.alternative, none, t.position⟩ [test, yes, no])

end Blocks

/-- Statements one after another, to any depth of blocks. -/
inductive Statements : List Token → List Tree → Prop
  | nil : Statements [] []
  | simple {ts us tree trees} (h : Simple ts tree) (hs : Statements us trees) :
      Statements (ts ++ us) (tree :: trees)
  | loop {t gs o bs c us test body trees} (ht : t.kind = .word .mientras) (hg : Guard gs test)
      (ho : o.kind = .sign .openBrace) (hb : Statements bs body) (hc : c.kind = .sign .closeBrace)
      (hs : Statements us trees) :
      Statements ((t :: gs ++ (o :: bs ++ [c])) ++ us)
        (.node ⟨.loop, none, t.position⟩ [test, blockNode (bs ++ [c]) body] :: trees)
  | conditional {t gs o bs c us test body trees} (ht : t.kind = .word .si) (hg : Guard gs test)
      (ho : o.kind = .sign .openBrace) (hb : Statements bs body) (hc : c.kind = .sign .closeBrace)
      (hs : Statements us trees) :
      Statements ((t :: gs ++ (o :: bs ++ [c])) ++ us)
        (.node ⟨.conditional, none, t.position⟩ [test, blockNode (bs ++ [c]) body] :: trees)
  | alternative {t gs o bs c e o' bs' c' us test yes no trees} (ht : t.kind = .word .si)
      (hg : Guard gs test)
      (ho : o.kind = .sign .openBrace) (hb : Statements bs yes) (hc : c.kind = .sign .closeBrace)
      (he : e.kind = .word .sino) (ho' : o'.kind = .sign .openBrace) (hb' : Statements bs' no)
      (hc' : c'.kind = .sign .closeBrace) (hs : Statements us trees) :
      Statements ((t :: gs ++ (o :: bs ++ [c]) ++ e :: (o' :: bs' ++ [c'])) ++ us)
        (.node ⟨.alternative, none, t.position⟩
          [test, blockNode (bs ++ [c]) yes, blockNode (bs' ++ [c']) no] :: trees)

lemma Statements.cons {ts us : List Token} {tree : Tree} {trees : List Tree}
    (h : Statement Statements ts tree)
    (hs : Statements us trees) : Statements (ts ++ us) (tree :: trees) := by
  cases h with
  | simple h => exact .simple h hs
  | loop ht hg hb => obtain ⟨ho, hb, hc⟩ := hb; exact .loop ht hg ho hb hc hs
  | conditional ht hg hb => obtain ⟨ho, hb, hc⟩ := hb; exact .conditional ht hg ho hb hc hs
  | alternative ht hg hy he hn =>
      rcases hy with ⟨ho, hb, hc⟩
      rcases hn with ⟨ho', hb', hc'⟩
      exact .alternative ht hg ho hb hc he ho' hb' hc' hs

/-- A whole program: the heading, what its body comes to by `Inside`, the end. -/
inductive ProgramOf (Inside : List Token → List Tree → Prop) : List Token → Tree → Prop
  | intro {p name o c b ss trees e semi close} (hp : p.kind = .word .programa)
      (hn : name.kind = .identifier)
      (ho : o.kind = .sign .openParen) (hc : c.kind = .sign .closeParen)
      (hb : b.kind = .sign .openBrace)
      (hs : Inside ss trees) (he : e.kind = .word .terminar) (hsemi : semi.kind = .sign .semicolon)
      (hclose : close.kind = .sign .closeBrace) :
      ProgramOf Inside (p :: name :: o :: c :: b :: ss ++ [e, semi, close])
        (.node ⟨.program, some (name.text?.getD []), p.position⟩
          [blockNode (ss ++ [e]) trees, .node ⟨.terminate, none, e.position⟩ []])

/-- A program of the grammar. -/
abbrev Program : List Token → Tree → Prop := ProgramOf Statements

/-! ## Boundaries

Semicolons and braces are the boundaries of statements.  They are what the parser looks for after a
broken statement, so what matters of a phrase there is where it has them.
-/

/-- The signs at which statements begin and end. -/
def isBoundary : Kind → Bool
  | .sign .semicolon | .sign .openBrace | .sign .closeBrace => true
  | _ => false

/-- Tokens without a boundary among them. -/
def Plain (ts : List Token) : Prop := ∀ t ∈ ts, isBoundary t.kind = false

@[simp] lemma plain_nil : Plain [] := by simp [Plain]

@[simp] lemma plain_cons (t : Token) (ts : List Token) :
    Plain (t :: ts) ↔ isBoundary t.kind = false ∧ Plain ts := by simp [Plain]

@[simp] lemma plain_append (ts us : List Token) : Plain (ts ++ us) ↔ Plain ts ∧ Plain us := by
  simp only [Plain, List.mem_append]
  exact ⟨fun h => ⟨fun t ht => h t (.inl ht), fun t ht => h t (.inr ht)⟩,
    fun h t ht => ht.elim (h.1 t) (h.2 t)⟩

lemma isBoundary_of_operandLeaf? {t : Token} {leaf : Tree} (h : operandLeaf? t = some leaf) :
    isBoundary t.kind = false := by
  unfold operandLeaf? at h
  split at h <;> simp_all [isBoundary]

lemma isBoundary_of_nameLeaf? {t : Token} {leaf : Tree} (h : nameLeaf? t = some leaf) :
    isBoundary t.kind = false := by
  unfold nameLeaf? at h
  split at h <;> simp_all [isBoundary]

lemma isBoundary_of_contentLeaf? {t : Token} {leaf : Tree} (h : contentLeaf? t = some leaf) :
    isBoundary t.kind = false := by
  unfold contentLeaf? at h
  split at h <;> simp_all [isBoundary]

lemma isBoundary_of_joinTerm? {t : Token} {heading : Heading} (h : joinTerm? t = some heading) :
    isBoundary t.kind = false := by
  obtain ⟨op, hk, -⟩ := joinTerm?_some h
  rw [hk]
  rfl

lemma isBoundary_of_joinSum? {t : Token} {heading : Heading} (h : joinSum? t = some heading) :
    isBoundary t.kind = false := by
  obtain ⟨op, hk, -⟩ := joinSum?_some h
  rw [hk]
  rfl

lemma isBoundary_of_joinCondition? {tight : Bool} {t : Token} {heading : Heading}
    (h : joinCondition? tight t = some heading) : isBoundary t.kind = false := by
  obtain ⟨op, hk, -⟩ := joinCondition?_some h
  rw [hk]
  rfl

lemma Leaf.plain {leaf? : Token → Option Tree}
    (hleaf : ∀ {t leaf}, leaf? t = some leaf → isBoundary t.kind = false)
    {ts : List Token} {tree : Tree} (h : Leaf leaf? ts tree) : Plain ts := by
  rcases h with ⟨t, rfl, ht⟩
  simp [hleaf ht]

lemma Chain.plain {join? : Token → Option Heading} {Item : List Token → Tree → Prop}
    (hjoin : ∀ {t heading}, join? t = some heading → isBoundary t.kind = false)
    (hitem : ∀ {ts tree}, Item ts tree → Plain ts) {ts : List Token} {tree : Tree}
    (h : Chain join? Item ts tree) :
    Plain ts := by
  induction h with
  | item h => exact hitem h
  | join _ hop hr ih => simp [ih, hjoin hop, hitem hr]

lemma Expression.plain {ts : List Token} {tree : Tree} (h : Expression ts tree) : Plain ts :=
  Chain.plain isBoundary_of_joinSum?
    (Chain.plain isBoundary_of_joinTerm? (Leaf.plain isBoundary_of_operandLeaf?)) h

lemma Comparison.plain {ts : List Token} {tree : Tree} (h : Comparison ts tree) : Plain ts := by
  rcases h with ⟨hl, ht, hr⟩
  simp [hl.plain, hr.plain, ht, isBoundary]

lemma Condition.plain {ts : List Token} {tree : Tree} (h : Condition ts tree) : Plain ts :=
  Chain.plain isBoundary_of_joinCondition?
    (Chain.plain isBoundary_of_joinCondition? Comparison.plain) h

lemma Guard.plain {ts : List Token} {tree : Tree} (h : Guard ts tree) : Plain ts := by
  rcases h with ⟨ho, h, hc⟩
  simp [h.plain, ho, hc, isBoundary]

lemma More.plain {leaf? : Token → Option Tree}
    (hleaf : ∀ {t leaf}, leaf? t = some leaf → isBoundary t.kind = false)
    {ts : List Token} {trees : List Tree} (h : More leaf? ts trees) : Plain ts := by
  induction h with
  | nil => exact plain_nil
  | cons hc ht _ ih => simp +decide [hc, hleaf ht, ih]

/-- A statement without blocks has one boundary, the semicolon at its end. -/
lemma Simple.ends {ts : List Token} {tree : Tree} (h : Simple ts tree) :
    ∃ us semi, ts = us ++ [semi] ∧ Plain us ∧ semi.kind = .sign .semicolon := by
  cases h with
  | @initialization _ t name sign us _ semi ht hn hs h hsemi =>
      exact ⟨t :: name :: sign :: us, semi, rfl, by simp [ht, hn, hs, isBoundary, h.plain], hsemi⟩
  | @declaration _ t name us _ semi ht hn h hsemi =>
      exact ⟨t :: name :: us, semi, rfl,
        by simp [ht, hn, isBoundary, h.plain isBoundary_of_nameLeaf?], hsemi⟩
  | @assignment t sign us _ semi ht hs h hsemi =>
      exact ⟨t :: sign :: us, semi, rfl, by simp [ht, hs, isBoundary, h.plain], hsemi⟩
  | @print t o a us _ _ c semi ht ho ha h hc hsemi =>
      refine ⟨t :: o :: a :: us ++ [c], semi, by simp, ?_, hsemi⟩
      simp +decide [ht, ho, hc, isBoundary_of_contentLeaf? ha, h.plain isBoundary_of_contentLeaf?]
  | @read t name semi ht hn hsemi =>
      exact ⟨[t, name], semi, rfl, by simp [ht, hn, isBoundary], hsemi⟩

end Imperativo.Grammar.Phrase
