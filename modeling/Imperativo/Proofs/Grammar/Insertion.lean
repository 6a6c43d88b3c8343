import Imperativo.Proofs.Grammar.Parsing

/-!
# Inserting broken pieces into a program

`Inserted` relates the statements of a list to the same statements with broken pieces put between
them, before the first or behind the last, in blocks of any depth.

* **`parse_inserted`** — the parser finds the same tree, places apart, and has one entry in its log
  for each piece, in their order and each at a token of its piece.

Both lists are taken apart at once: the original one as statements, the other one as padded
statements whose trees differ in nothing but their places (`Inserted.trees`).
-/

namespace Imperativo.Grammar

open Phrase

/-! ## Insertion -/

/-- The second list is the first one, a list of statements, with the pieces inserted; `body` says
whether it is the body of the program. -/
inductive Inserted : Bool → List Token → List (List Token) → List Token → Prop
  | nil {body} : Inserted body [] [] []
  | piece {body p us ps us'} (hp : BrokenPiece body p) (hs : Inserted body us ps us') :
      Inserted body us (p :: ps) (p ++ us')
  | simple {body ts tree us ps us'} (h : Simple ts tree) (hs : Inserted body us ps us') :
      Inserted body (ts ++ us) ps (ts ++ us')
  | loop {body t gs test o bs qs bs' c us ps us'} (ht : t.kind = .word .mientras)
      (hg : Guard gs test) (ho : o.kind = .sign .openBrace) (hb : Inserted false bs qs bs')
      (hc : c.kind = .sign .closeBrace) (hs : Inserted body us ps us') :
      Inserted body ((t :: gs ++ (o :: bs ++ [c])) ++ us) (qs ++ ps)
        ((t :: gs ++ (o :: bs' ++ [c])) ++ us')
  | conditional {body t gs test o bs qs bs' c us ps us'} (ht : t.kind = .word .si)
      (hg : Guard gs test) (ho : o.kind = .sign .openBrace) (hb : Inserted false bs qs bs')
      (hc : c.kind = .sign .closeBrace) (hs : Inserted body us ps us') :
      Inserted body ((t :: gs ++ (o :: bs ++ [c])) ++ us) (qs ++ ps)
        ((t :: gs ++ (o :: bs' ++ [c])) ++ us')
  | alternative {body t gs test o bs qs bs' c e o₂ cs qs₂ cs' c₂ us ps us'}
      (ht : t.kind = .word .si)
      (hg : Guard gs test) (ho : o.kind = .sign .openBrace) (hb : Inserted false bs qs bs')
      (hc : c.kind = .sign .closeBrace) (he : e.kind = .word .sino)
      (ho₂ : o₂.kind = .sign .openBrace)
      (hb₂ : Inserted false cs qs₂ cs') (hc₂ : c₂.kind = .sign .closeBrace)
      (hs : Inserted body us ps us') :
      Inserted body ((t :: gs ++ (o :: bs ++ [c]) ++ e :: (o₂ :: cs ++ [c₂])) ++ us)
      (qs ++ qs₂ ++ ps) ((t :: gs ++ (o :: bs' ++ [c]) ++ e :: (o₂ :: cs' ++ [c₂])) ++ us')

/-- The second list is the first one, a program, with the pieces inserted into its body. -/
inductive InsertedProgram : List Token → List (List Token) → List Token → Prop
  | intro {p name o c b ss ps ss' e semi close} (hp : p.kind = .word .programa)
      (hn : name.kind = .identifier)
      (ho : o.kind = .sign .openParen) (hc : c.kind = .sign .closeParen)
      (hb : b.kind = .sign .openBrace)
      (hs : Inserted true ss ps ss') (he : e.kind = .word .terminar)
      (hsemi : semi.kind = .sign .semicolon) (hclose : close.kind = .sign .closeBrace) :
      InsertedProgram (p :: name :: o :: c :: b :: ss ++ [e, semi, close]) ps
        (p :: name :: o :: c :: b :: ss' ++ [e, semi, close])

/-! ## The trees -/

lemma bare_blockNode (ts : List Token) (trees : List Tree) :
    (blockNode ts trees).bare = .node ⟨.block, none, Position.start⟩ (Tree.bareEach trees) := rfl

/-- With pieces inserted the statements have the same trees, places apart. -/
lemma Inserted.trees {body : Bool} {ts ts' : List Token} {ps : List (List Token)}
    (h : Inserted body ts ps ts') :
    ∃ trees trees', Statements ts trees ∧ Padded body ps ts' trees' ∧
    Tree.bareEach trees' = Tree.bareEach trees := by
  induction h with
  | nil => exact ⟨[], [], .nil, .nil, rfl⟩
  | piece hp _ ih =>
      obtain ⟨trees, trees', hs, hs', heq⟩ := ih
      exact ⟨trees, trees', hs, .piece hp hs', heq⟩
  | @simple _ _ tree _ _ _ h _ ih =>
      obtain ⟨trees, trees', hs, hs', heq⟩ := ih
      exact ⟨tree :: trees, tree :: trees', .simple h hs, .simple h hs',
        by simp only [Tree.bareEach, heq]⟩
  | loop ht hg ho _ hc _ ihb ih =>
      obtain ⟨inner, inner', hb, hb', hinner⟩ := ihb
      obtain ⟨trees, trees', hs, hs', heq⟩ := ih
      refine ⟨_, _, .loop ht hg ho hb hc hs, .loop ht hg ho hb' hc hs', ?_⟩
      simp only [Tree.bareEach, Tree.bare, heq, bare_blockNode, hinner]
  | conditional ht hg ho _ hc _ ihb ih =>
      obtain ⟨inner, inner', hb, hb', hinner⟩ := ihb
      obtain ⟨trees, trees', hs, hs', heq⟩ := ih
      refine ⟨_, _, .conditional ht hg ho hb hc hs, .conditional ht hg ho hb' hc hs', ?_⟩
      simp only [Tree.bareEach, Tree.bare, heq, bare_blockNode, hinner]
  | alternative ht hg ho _ hc he ho₂ _ hc₂ _ ihb ihb₂ ih =>
      obtain ⟨inner, inner', hb, hb', hinner⟩ := ihb
      obtain ⟨inner₂, inner₂', hb₂, hb₂', hinner₂⟩ := ihb₂
      obtain ⟨trees, trees', hs, hs', heq⟩ := ih
      refine ⟨_, _, .alternative ht hg ho hb hc he ho₂ hb₂ hc₂ hs,
        .alternative ht hg ho hb' hc he ho₂ hb₂' hc₂ hs', ?_⟩
      simp only [Tree.bareEach, Tree.bare, heq, bare_blockNode, hinner, hinner₂]

lemma InsertedProgram.trees {ts ts' : List Token} {ps : List (List Token)}
    (h : InsertedProgram ts ps ts') :
    ∃ tree tree', Program ts tree ∧ ProgramOf (Padded true ps) ts' tree' ∧
    tree'.bare = tree.bare := by
  rcases h with ⟨hp, hn, ho, hc, hb, hs, he, hsemi, hclose⟩
  obtain ⟨trees, trees', hss, hss', heq⟩ := hs.trees
  refine ⟨_, _, .intro hp hn ho hc hb hss he hsemi hclose,
    .intro hp hn ho hc hb hss' he hsemi hclose, ?_⟩
  simp only [Tree.bare, Tree.bareEach, bare_blockNode, heq]

/-! ## The log -/

/-- The diagnostic blames the piece: it is a grammar error that reading survives, and it stands at a
token of the piece. -/
def Blames (p : List Token) (d : Diagnostic) : Prop :=
  (∃ fault, d.cause = .grammar fault ∧ fault ≠ .unexpectedEnd) ∧ ∃ t ∈ p, d.At t.position

lemma StopsIn.blames {p : List Token} {s : Stop} (h : StopsIn p s) (last : Position) :
    Blames p (s.diagnostic last) := by
  rcases h with ⟨hfault, t, ht, more, hrest⟩
  obtain ⟨hcause, hat⟩ := Stop.diagnostic_cons hrest last
  exact ⟨⟨s.fault, hcause, hfault⟩, t, ht, hat⟩

/-- **A broken statement costs itself and one diagnostic.**  With broken pieces inserted into a
program, the parser gives the tree of the program, places apart, and its log has one entry for each
piece, in their order, each of them blaming its piece. -/
theorem parse_inserted {ts ts' : List Token} {ps : List (List Token)}
    (h : InsertedProgram ts ps ts') :
    ∃ tree tree', Program ts tree ∧ ((Parser.ofTokens ts).parse .program).tree = some tree ∧
      ((Parser.ofTokens ts').parse .program).tree = some tree' ∧ tree'.bare = tree.bare ∧
        List.Forall₂ Blames ps ((Parser.ofTokens ts').parse .program).log.entries := by
  obtain ⟨tree, tree', hprogram, hpadded, hbare⟩ := h.trees
  obtain ⟨stops, hrun, hstops⟩ := program_padded hpadded
  have htree : (Entry.program.run ts).outcome.toOption = some tree := by
    rw [Entry.run, program_complete hprogram]
    rfl
  have htree' : (Entry.program.run ts').outcome.toOption = some tree' := by
    rw [Entry.run, hrun]
    rfl
  refine ⟨tree, tree', hprogram, htree, htree', hbare, ?_⟩
  rw [Parser.parse_entries, Entry.run, hrun, List.forall₂_map_right_iff]
  exact hstops.imp fun _ _ hs => hs.blames _

/-- A name in front of a semicolon is a broken piece. -/
lemma brokenPiece_name (body : Bool) :
    BrokenPiece body [Kind.identifier.token, (Kind.sign .semicolon).token] where
  ends := ⟨[Kind.identifier.token], _, rfl, by simp [Kind.token, isBoundary], rfl⟩
  noStatement tree h := by
    generalize hp : [Kind.identifier.token, (Kind.sign .semicolon).token] = p at h
    have hhead : ∀ {t us w}, t.kind = .word w → p ≠ t :: us := by
      rintro t us w ht rfl
      rw [← (List.cons.inj hp).1] at ht
      cases ht
    cases h with
    | simple h => cases h <;> simp_all [Kind.token]
    | loop ht => exact hhead ht rfl
    | conditional ht => exact hhead ht rfl
    | alternative ht => exact hhead ht rfl
  notElse := by simp [Kind.token]
  notTerminate _ := by simp [Kind.token]

/-- `mientras (x < x) { x; }` costs one error and leaves an empty loop. -/
theorem parse_inserted_in_loop :
    let header : List Token := [.word .programa, .identifier, .sign .openParen, .sign .closeParen,
      .sign .openBrace, .word .mientras, .sign .openParen, .identifier, .relation .less,
      .identifier, .sign .closeParen, .sign .openBrace].map Kind.token
    let footer : List Token := [.sign .closeBrace, .word .terminar, .sign .semicolon,
      .sign .closeBrace].map Kind.token
    let piece : List Token := [.identifier, .sign .semicolon].map Kind.token
    InsertedProgram (header ++ footer) [piece] (header ++ piece ++ footer) ∧
      ∃ tree tree', Program (header ++ footer) tree ∧
        ((Parser.ofTokens (header ++ footer)).parse .program).tree = some tree ∧
        ((Parser.ofTokens (header ++ piece ++ footer)).parse .program).tree = some tree' ∧
        tree'.bare = tree.bare ∧
        List.Forall₂ Blames [piece]
          ((Parser.ofTokens (header ++ piece ++ footer)).parse .program).log.entries := by
  intro header footer piece
  have hvalue : Expression [Kind.identifier.token] _ := .item (.item ⟨_, rfl, rfl⟩)
  have hguard : Guard ([.sign .openParen, .identifier, .relation .less, .identifier,
      .sign .closeParen].map Kind.token) _ :=
    .intro rfl (.item (.item (.intro hvalue rfl hvalue))) rfl
  have hloop : Inserted true _ _ _ :=
    .loop (t := (Kind.word .mientras).token) (o := (Kind.sign .openBrace).token)
      (c := (Kind.sign .closeBrace).token) rfl hguard rfl (.piece (brokenPiece_name false) .nil)
      rfl .nil
  have hinserted : InsertedProgram (header ++ footer) [piece] (header ++ piece ++ footer) :=
    .intro (p := (Kind.word .programa).token) rfl rfl rfl rfl rfl hloop rfl rfl rfl
  exact ⟨hinserted, parse_inserted hinserted⟩

end Imperativo.Grammar
