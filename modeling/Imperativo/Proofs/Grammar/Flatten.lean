import Imperativo.Proofs.Grammar.Acceptance

/-!
# Trees written back as tokens

`Tree.flatten` writes a tree as the tokens of the grammar: the operands with their operator in
between, the parts of a statement with its words and signs around them.  There are no parentheses in
expressions, and none are written.

* **`Program.spelled`** — a program of the grammar is spelled by what its tree is written as.

A lexeme is what is left of a token when its place is forgotten, and with it all that a tree does
not keep: whether a number was written as an integer, and whether what is printed is a string or a
name.
-/

namespace Imperativo

/-! ## Lexemes -/

/-- What a tree tells of a token: its kind if that has one spelling only, and otherwise its text. -/
inductive Lexeme
  | fixed (k : Kind)
  | name (s : Text)
  | content (s : Text)
  | number (s : Text)
  deriving DecidableEq, Repr

/-- What a token of a kind carries: names and strings a text, literals their value, fixed kinds
nothing. -/
inductive Value.OfKind : Kind → Option Value → Prop
  | identifier (s : Text) : OfKind .identifier (some (.text s))
  | string (s : Text) : OfKind .string (some (.text s))
  | character (c : Char) : OfKind .character (some (.character c))
  | integer {n : Int} (h : -2 ^ 63 ≤ n ∧ n < 2 ^ 63) : OfKind .integer (some (.integer n))
  | float (x : Binary64) : OfKind .float (some (.float x))
  | fixed {k : Kind} (h : k.spelling?.isSome = true) : OfKind k none

/-- The token carries what tokens of its kind carry. -/
def Token.Genuine (t : Token) : Prop := Value.OfKind t.kind t.value

/-- The token is one of those that the lexeme stands for. -/
def Lexeme.Fits : Lexeme → Token → Prop
  | .fixed k, t => t.kind = k ∧ t.value = none
  | .name s, t => t.kind = .identifier ∧ t.value = some (.text s)
  | .content s, t => (t.kind = .identifier ∨ t.kind = .string) ∧ t.value = some (.text s)
  | .number s, t => (t.kind = .integer ∨ t.kind = .float) ∧ t.Genuine ∧ t.valueText = s

/-- The tokens are a spelling of the lexemes. -/
def Spelled (ls : List Lexeme) (ts : List Token) : Prop := List.Forall₂ Lexeme.Fits ls ts

@[simp] lemma spelled_nil (ts : List Token) : Spelled [] ts ↔ ts = [] := List.forall₂_nil_left_iff

@[simp] lemma spelled_cons (l : Lexeme) (ls : List Lexeme) (ts : List Token) :
    Spelled (l :: ls) ts ↔ ∃ t us, l.Fits t ∧ Spelled ls us ∧ ts = t :: us :=
  List.forall₂_cons_left_iff

lemma spelled_singleton (l : Lexeme) (ts : List Token) :
    Spelled [l] ts ↔ ∃ t, l.Fits t ∧ ts = [t] := by simp

@[simp] lemma spelled_append (ls ms : List Lexeme) (ts : List Token) :
    Spelled (ls ++ ms) ts ↔ ∃ us vs, Spelled ls us ∧ Spelled ms vs ∧ ts = us ++ vs := by
  induction ls generalizing ts with
  | nil => simp
  | cons l ls ih =>
      rw [List.cons_append, spelled_cons]
      constructor
      · rintro ⟨t, ws, ht, hws, rfl⟩
        obtain ⟨us, vs, hus, hvs, rfl⟩ := (ih ws).mp hws
        exact ⟨t :: us, vs, (spelled_cons ..).mpr ⟨t, us, ht, hus, rfl⟩, hvs, rfl⟩
      · rintro ⟨_, vs, hls, hvs, rfl⟩
        obtain ⟨t, us, ht, hus, rfl⟩ := (spelled_cons ..).mp hls
        exact ⟨t, us ++ vs, ht, (ih _).mpr ⟨us, vs, hus, hvs, rfl⟩, rfl⟩

lemma Spelled.cons {l : Lexeme} {ls : List Lexeme} {t : Token} {ts : List Token} (ht : l.Fits t)
    (h : Spelled ls ts) : Spelled (l :: ls) (t :: ts) := List.Forall₂.cons ht h

lemma Spelled.append {ls ms : List Lexeme} {ts us : List Token} (h : Spelled ls ts)
    (hs : Spelled ms us) : Spelled (ls ++ ms) (ts ++ us) := List.rel_append h hs

/-! ## Writing trees -/

/-- The kind with a given spelling. -/
def Kind.ofSpelling? (s : Text) : Option Kind := Kind.all.find? fun k => k.spelling? = some s

lemma Kind.ofSpelling?_scalar (s : Scalar) : ofSpelling? s.spelling.toList = some (.scalar s) := by
  cases s <;> rfl

lemma Kind.ofSpelling?_connective (op : Connective) :
    ofSpelling? op.spelling.toList = some (.connective op) := by
  cases op <;> rfl

lemma Kind.ofSpelling?_relation (op : Relation) :
    ofSpelling? op.spelling.toList = some (.relation op) := by
  cases op <;> rfl

namespace Heading

/-- Lexemes between two signs. -/
def between (o c : Sign) (ls : List Lexeme) : List Lexeme :=
  .fixed (.sign o) :: ls ++ [.fixed (.sign c)]

/-- Lexemes in parentheses. -/
abbrev inParens : List Lexeme → List Lexeme := between .openParen .closeParen

/-- Lexemes in braces. -/
abbrev inBraces : List Lexeme → List Lexeme := between .openBrace .closeBrace

/-- Parts each behind a comma. -/
def behindCommas (parts : List (List Lexeme)) : List Lexeme :=
  parts.flatMap fun part => .fixed (.sign .comma) :: part

/-- The label as the fixed kind that it is the spelling of. -/
def spelled (h : Heading) : List Lexeme := ((h.label.bind Kind.ofSpelling?).map Lexeme.fixed).toList

/-- A node in writing, given its children in writing. -/
def write (h : Heading) (parts : List (List Lexeme)) : List Lexeme :=
  let label := h.label.getD []
  match h.kind, parts with
  | .program, [body, ending] =>
    .fixed (.word .programa) :: .name label :: inParens [] ++ inBraces (body ++ ending)
  | .block, statements => statements.flatten
  | .declaration, type :: first :: others =>
    type ++ (first ++ behindCommas others) ++ [.fixed (.sign .semicolon)]
  | .initialization, [type, name, value] =>
    type ++ (name ++ .fixed .assign :: value) ++ [.fixed (.sign .semicolon)]
  | .assignment, [value] => .name label :: .fixed .assign :: value ++ [.fixed (.sign .semicolon)]
  | .print, first :: others =>
    .fixed (.word .imprimir) :: inParens (first ++ behindCommas others) ++
      [.fixed (.sign .semicolon)]
  | .read, [name] => .fixed (.word .leer) :: name ++ [.fixed (.sign .semicolon)]
  | .loop, [test, body] => .fixed (.word .mientras) :: inParens test ++ inBraces body
  | .conditional, [test, yes] => .fixed (.word .si) :: inParens test ++ inBraces yes
  | .alternative, [test, yes, no] =>
    .fixed (.word .si) :: inParens test ++ inBraces yes ++ .fixed (.word .sino) :: inBraces no
  | .comparison, [left, right] => left ++ h.spelled ++ right
  | .combination, [left, right] => left ++ h.spelled ++ right
  | .binary op, [left, right] => left ++ [.fixed (.arithmetic op)] ++ right
  | .number, [] => [.number label]
  | .variable, [] => [.name label]
  | .content, [] => [.content label]
  | .scalar, [] => h.spelled
  | .terminate, [] => [.fixed (.word .terminar), .fixed (.sign .semicolon)]
  | _, _ => []

end Heading

mutual

/-- A tree in writing. -/
def Tree.flatten : Tree → List Lexeme
  | .node heading children => heading.write (Tree.flattenEach children)

/-- The trees of a list in writing. -/
def Tree.flattenEach : List Tree → List (List Lexeme)
  | [] => []
  | tree :: trees => tree.flatten :: Tree.flattenEach trees

end

namespace Tree

variable (p q : Position)

lemma flatten_scalar (type : Scalar) :
    (leaf .scalar type.spelling.toList p).flatten = [.fixed (.scalar type)] := by
  simp [leaf, flatten, flattenEach, Heading.write, Heading.spelled, Kind.ofSpelling?_scalar]

lemma flatten_binary (op : Arithmetic) (l r : Tree) :
    (node ⟨.binary op, none, p⟩ [l, r]).flatten =
      l.flatten ++ [.fixed (.arithmetic op)] ++ r.flatten := rfl

lemma flatten_comparison (op : Relation) (l r : Tree) :
    (node ⟨.comparison, some op.spelling.toList, p⟩ [l, r]).flatten =
      l.flatten ++ [.fixed (.relation op)] ++ r.flatten := by
  simp [flatten, flattenEach, Heading.write, Heading.spelled, Kind.ofSpelling?_relation]

lemma flatten_combination (op : Connective) (l r : Tree) :
    (node ⟨.combination, some op.spelling.toList, p⟩ [l, r]).flatten =
      l.flatten ++ [.fixed (.connective op)] ++ r.flatten := by
  simp [flatten, flattenEach, Heading.write, Heading.spelled, Kind.ofSpelling?_connective]

lemma flatten_initialization (type : Scalar) (name value : Tree) :
    (node ⟨.initialization, none, p⟩ [leaf .scalar type.spelling.toList q, name, value]).flatten =
      .fixed (.scalar type) :: (name.flatten ++ .fixed .assign :: value.flatten) ++
        [.fixed (.sign .semicolon)] := by
  change (leaf .scalar type.spelling.toList q).flatten ++ (_ ++ _) ++ _ = _
  rw [flatten_scalar, List.singleton_append]

lemma flatten_declaration (type : Scalar) (first : Tree) (others : List Tree) :
    (node ⟨.declaration, none, p⟩
        (leaf .scalar type.spelling.toList q :: first :: others)).flatten =
      .fixed (.scalar type) :: (first.flatten ++ Heading.behindCommas (flattenEach others)) ++
        [.fixed (.sign .semicolon)] := by
  change (leaf .scalar type.spelling.toList q).flatten ++ (_ ++ _) ++ _ = _
  rw [flatten_scalar, List.singleton_append]

lemma flatten_assignment (target : Text) (value : Tree) :
    (node ⟨.assignment, some target, p⟩ [value]).flatten =
      .name target :: .fixed .assign :: value.flatten ++ [.fixed (.sign .semicolon)] := rfl

lemma flatten_print (first : Tree) (others : List Tree) :
    (node ⟨.print, none, p⟩ (first :: others)).flatten = .fixed (.word .imprimir) ::
      Heading.inParens (first.flatten ++ Heading.behindCommas (flattenEach others)) ++
        [.fixed (.sign .semicolon)] := rfl

lemma flatten_read (name : Tree) :
    (node ⟨.read, none, p⟩ [name]).flatten =
      .fixed (.word .leer) :: name.flatten ++ [.fixed (.sign .semicolon)] := rfl

lemma flatten_loop (test body : Tree) :
    (node ⟨.loop, none, p⟩ [test, body]).flatten =
      .fixed (.word .mientras) :: Heading.inParens test.flatten ++
        Heading.inBraces body.flatten := rfl

lemma flatten_conditional (test yes : Tree) :
    (node ⟨.conditional, none, p⟩ [test, yes]).flatten =
      .fixed (.word .si) :: Heading.inParens test.flatten ++ Heading.inBraces yes.flatten := rfl

lemma flatten_alternative (test yes no : Tree) :
    (node ⟨.alternative, none, p⟩ [test, yes, no]).flatten =
      .fixed (.word .si) :: Heading.inParens test.flatten ++ Heading.inBraces yes.flatten ++
        .fixed (.word .sino) :: Heading.inBraces no.flatten := rfl

lemma flatten_block (trees : List Tree) :
    (node ⟨.block, none, p⟩ trees).flatten = (flattenEach trees).flatten := rfl

lemma flatten_terminate :
    (node ⟨.terminate, none, p⟩ []).flatten =
      [.fixed (.word .terminar), .fixed (.sign .semicolon)] := rfl

lemma flatten_program (name : Text) (body ending : Tree) :
    (node ⟨.program, some name, p⟩ [body, ending]).flatten =
      .fixed (.word .programa) :: .name name :: Heading.inParens [] ++
        Heading.inBraces (body.flatten ++ ending.flatten) := rfl

lemma flattenEach_cons (tree : Tree) (trees : List Tree) :
    (flattenEach (tree :: trees)).flatten = tree.flatten ++ (flattenEach trees).flatten := rfl

lemma behindCommas_cons (tree : Tree) (trees : List Tree) :
    Heading.behindCommas (flattenEach (tree :: trees)) =
      .fixed (.sign .comma) :: tree.flatten ++ Heading.behindCommas (flattenEach trees) := rfl

end Tree

/-! ## Tokens and their lexemes -/

namespace Token.Genuine

variable {t : Token}

lemma fits_fixed {k : Kind} (h : t.Genuine) (hk : t.kind = k) (hs : k.spelling?.isSome = true) :
    (Lexeme.fixed k).Fits t := by
  obtain ⟨kind, value, p⟩ := t
  obtain rfl : kind = k := hk
  refine ⟨rfl, ?_⟩
  cases h with
  | fixed => rfl
  | _ => cases hs

lemma text (h : t.Genuine) (hk : t.kind = .identifier ∨ t.kind = .string) :
    ∃ s, t.value = some (.text s) := by
  obtain ⟨kind, value, p⟩ := t
  rcases hk with rfl | rfl
  · cases h with
    | identifier s => exact ⟨s, rfl⟩
    | fixed hs => cases hs
  · cases h with
    | string s => exact ⟨s, rfl⟩
    | fixed hs => cases hs

lemma fits_name (h : t.Genuine) (hk : t.kind = .identifier) :
    (Lexeme.name (t.text?.getD [])).Fits t := by
  obtain ⟨s, hs⟩ := h.text (.inl hk)
  exact ⟨hk, by simp [hs, text?]⟩

lemma fits_content (h : t.Genuine) (hk : t.kind = .identifier ∨ t.kind = .string) :
    (Lexeme.content (t.text?.getD [])).Fits t := by
  obtain ⟨s, hs⟩ := h.text hk
  exact ⟨hk, by simp [hs, text?]⟩

lemma valueText_name (h : t.Genuine) (hk : t.kind = .identifier) : t.valueText = t.text?.getD [] :=
  by
  obtain ⟨s, hs⟩ := h.text (.inl hk)
  simp [hs, text?, valueText, Value.written]

end Token.Genuine

namespace Grammar.Phrase

/-! ## Phrases are spelled by what their trees are written as -/

/-- The tokens, if they carry what they should, are a spelling of the lexemes. -/
def Spells (ls : List Lexeme) (ts : List Token) : Prop := (∀ t ∈ ts, t.Genuine) → Spelled ls ts

section Spells

variable {ls ms : List Lexeme} {ts us : List Token} {t : Token}

lemma Spells.nil : Spells [] [] := fun _ => .nil

lemma Spells.append (h : Spells ls ts) (hs : Spells ms us) : Spells (ls ++ ms) (ts ++ us) :=
  fun hg =>
  (h fun t ht => hg t (List.mem_append_left _ ht)).append
    (hs fun t ht => hg t (List.mem_append_right _ ht))

lemma Spells.cons {l : Lexeme} (ht : t.Genuine → l.Fits t) (h : Spells ls ts) :
    Spells (l :: ls) (t :: ts) := fun hg =>
  Spelled.cons (ht (hg t List.mem_cons_self)) (h fun u hu => hg u (List.mem_cons_of_mem t hu))

lemma Spells.fixed {k : Kind} (hk : t.kind = k) (hs : k.spelling?.isSome = true)
    (h : Spells ls ts) : Spells (.fixed k :: ls) (t :: ts) := h.cons fun ht => ht.fits_fixed hk hs

lemma Spells.name (hk : t.kind = .identifier) (h : Spells ls ts) :
    Spells (.name (t.text?.getD []) :: ls) (t :: ts) := h.cons fun ht => ht.fits_name hk

end Spells

lemma spells_variableLeaf {t : Token} (hk : t.kind = .identifier) :
    Spells (variableLeaf t).flatten [t] := .name hk .nil

lemma spells_nameLeaf? {t : Token} {leaf : Tree} (h : nameLeaf? t = some leaf) :
    Spells leaf.flatten [t] := by
  unfold nameLeaf? at h
  split at h
  · cases h
    exact spells_variableLeaf ‹_›
  · cases h

lemma spells_contentLeaf? {t : Token} {leaf : Tree} (h : contentLeaf? t = some leaf) :
    Spells leaf.flatten [t] := by
  unfold contentLeaf? at h
  split at h
  · cases h
    exact Spells.nil.cons fun ht => ht.fits_content (.inr ‹_›)
  · cases h
    exact Spells.nil.cons fun ht => ht.fits_content (.inl ‹_›)
  · cases h

lemma spells_operandLeaf? {t : Token} {leaf : Tree} (h : operandLeaf? t = some leaf) :
    Spells leaf.flatten [t] := by
  unfold operandLeaf? at h
  split at h
  · cases h
    exact Spells.nil.cons fun ht => ⟨.inl ‹_›, ht, rfl⟩
  · cases h
    exact Spells.nil.cons fun ht => ⟨.inr ‹_›, ht, rfl⟩
  · cases h
    refine Spells.nil.cons fun ht => ?_
    rw [Option.getD_some, ht.valueText_name ‹_›]
    exact ht.fits_name ‹_›
  · cases h

/-- The operator stands between what its two sides are written as. -/
def Joins (join? : Token → Option Heading) : Prop :=
  ∀ {op heading}, join? op = some heading → ∃ x : Lexeme, (op.Genuine → x.Fits op) ∧
    ∀ l r : Tree, (Tree.node heading [l, r]).flatten = l.flatten ++ [x] ++ r.flatten

lemma joins_joinTerm? : Joins joinTerm? := by
  intro op heading h
  obtain ⟨x, hk, -, rfl⟩ := joinTerm?_some h
  exact ⟨_, fun ht => ht.fits_fixed hk rfl, Tree.flatten_binary _ x⟩

lemma joins_joinSum? : Joins joinSum? := by
  intro op heading h
  obtain ⟨x, hk, -, rfl⟩ := joinSum?_some h
  exact ⟨_, fun ht => ht.fits_fixed hk rfl, Tree.flatten_binary _ x⟩

lemma joins_joinCondition? (tight : Bool) : Joins (joinCondition? tight) := by
  intro op heading h
  obtain ⟨x, hk, -, rfl⟩ := joinCondition?_some h
  exact ⟨_, fun ht => ht.fits_fixed hk rfl, Tree.flatten_combination _ x⟩

lemma Chain.spells {join? : Token → Option Heading} {Item : List Token → Tree → Prop}
    (hjoin : Joins join?)
    (hitem : ∀ {ts tree}, Item ts tree → Spells tree.flatten ts) {ts : List Token} {tree : Tree}
    (h : Chain join? Item ts tree) : Spells tree.flatten ts := by
  induction h with
  | item h => exact hitem h
  | join _ hop hr ih =>
      obtain ⟨x, hx, hwrite⟩ := hjoin hop
      rw [hwrite, List.append_assoc]
      exact ih.append ((hitem hr).cons hx)

lemma Expression.spells {ts : List Token} {tree : Tree} (h : Expression ts tree) :
    Spells tree.flatten ts := by
  refine Chain.spells joins_joinSum? (fun h => Chain.spells joins_joinTerm? (fun h => ?_) h) h
  rcases h with ⟨t, rfl, ht⟩
  exact spells_operandLeaf? ht

lemma Condition.spells {ts : List Token} {tree : Tree} (h : Condition ts tree) :
    Spells tree.flatten ts := by
  refine Chain.spells (joins_joinCondition? false)
    (fun h => Chain.spells (joins_joinCondition? true) (fun h => ?_) h) h
  rcases h with ⟨hl, ht, hr⟩
  rw [Tree.flatten_comparison, List.append_assoc]
  exact hl.spells.append (hr.spells.fixed ht rfl)

lemma Guard.spells {ts : List Token} {tree : Tree} (h : Guard ts tree) :
    Spells (Heading.inParens tree.flatten) ts := by
  rcases h with ⟨ho, h, hc⟩
  exact .append (h.spells.fixed ho rfl) (Spells.nil.fixed hc rfl)

lemma More.spells {leaf? : Token → Option Tree}
    (hleaf : ∀ {t leaf}, leaf? t = some leaf → Spells leaf.flatten [t]) {ts : List Token}
    {trees : List Tree}
    (h : More leaf? ts trees) : Spells (Heading.behindCommas (Tree.flattenEach trees)) ts := by
  induction h with
  | nil => exact .nil
  | cons hc ht _ ih => exact Spells.append ((hleaf ht).fixed hc rfl) ih

lemma Simple.spells {ts : List Token} {tree : Tree} (h : Simple ts tree) : Spells tree.flatten ts :=
  by
  cases h with
  | initialization ht hn hs h hsemi =>
      rw [Tree.flatten_initialization]
      refine .append (.fixed ht rfl ?_) (.fixed hsemi rfl .nil)
      exact .name hn (h.spells.fixed hs rfl)
  | declaration ht hn h hsemi =>
      rw [Tree.flatten_declaration]
      refine .append (.fixed ht rfl ?_) (.fixed hsemi rfl .nil)
      exact .name hn (h.spells spells_nameLeaf?)
  | assignment ht hs h hsemi =>
      rw [Tree.flatten_assignment]
      exact .append (.name ht (h.spells.fixed hs rfl)) (.fixed hsemi rfl .nil)
  | @print t o a us _ _ c semi ht ho ha h hc hsemi =>
      have hts : t :: o :: a :: us ++ [c, semi] = t :: (o :: ([a] ++ us) ++ [c]) ++ [semi] := by
        simp
      rw [Tree.flatten_print, hts]
      refine .append (.fixed ht rfl (.append (.fixed ho rfl ?_) (.fixed hc rfl .nil)))
        (.fixed hsemi rfl .nil)
      exact (spells_contentLeaf? ha).append (h.spells spells_contentLeaf?)
  | read ht hn hsemi =>
      rw [Tree.flatten_read]
      exact .fixed ht rfl (.name hn (.fixed hsemi rfl .nil))

/-- A block in braces. -/
lemma spells_block {o c : Token} {us ts : List Token} {trees : List Tree}
    (ho : o.kind = .sign .openBrace)
    (h : Spells (Tree.flattenEach trees).flatten us) (hc : c.kind = .sign .closeBrace) :
    Spells (Heading.inBraces (blockNode ts trees).flatten) (o :: us ++ [c]) :=
  .append (.fixed ho rfl h) (.fixed hc rfl .nil)

lemma Statements.spells {ts : List Token} {trees : List Tree} (h : Statements ts trees) :
    Spells (Tree.flattenEach trees).flatten ts := by
  induction h with
  | nil => exact .nil
  | simple h _ ih => exact h.spells.append ih
  | loop ht hg ho _ hc _ ihb ih =>
      exact .append (.append (hg.spells.fixed ht rfl) (spells_block ho ihb hc)) ih
  | conditional ht hg ho _ hc _ ihb ih =>
      exact .append (.append (hg.spells.fixed ht rfl) (spells_block ho ihb hc)) ih
  | alternative ht hg ho _ hc he ho' _ hc' _ ihb ihb' ih =>
      exact .append (.append (.append (hg.spells.fixed ht rfl) (spells_block ho ihb hc))
        (.fixed he rfl (spells_block ho' ihb' hc'))) ih

/-- **A program of the grammar is spelled by its tree** in writing. -/
theorem Program.spelled {ts : List Token} {tree : Tree} (h : Program ts tree)
    (hts : ∀ t ∈ ts, t.Genuine) : Spelled tree.flatten ts := by
  refine (?_ : Spells tree.flatten ts) hts
  cases h with
  | @intro p name o c b ss trees e semi close hp hn ho hc hb hs he hsemi hclose =>
      have hts : p :: name :: o :: c :: b :: ss ++ [e, semi, close] =
          p :: name :: [o, c] ++ (b :: (ss ++ [e, semi]) ++ [close]) := by simp
      rw [hts]
      refine .append (.fixed hp rfl (.name hn (.fixed ho rfl (.fixed hc rfl .nil)))) ?_
      exact .append (.fixed hb rfl (hs.spells.append (.fixed he rfl (.fixed hsemi rfl .nil))))
        (.fixed hclose rfl .nil)

end Grammar.Phrase

end Imperativo
