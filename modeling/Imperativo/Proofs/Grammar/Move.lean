import Imperativo.Proofs.Grammar.Parsing
import Imperativo.Proofs.Tree.Move

/-!
# The parser copies places

Wherever the tokens are moved to, the parser comes to the same tree and stops for the same reasons,
with everything moved as the tokens are: it looks at kinds and values, and only copies places.  One
part of the grammar after another does so if both do, so each part is settled by its equation, the
readings (`Moves`) before the runs (`MovesRun`).

* **`program_move`** — the program read from tokens that are moved is the program, moved.

The one place that is not copied from a token is that of a block in front of no token.  No tree has
such a block, because reading stops behind it.
-/

namespace Imperativo.Grammar

variable {α β : Type} {g : Position → Position}

/-! ## Readings -/

/-- The stop, with the tokens from there on moved by `g`. -/
def Stop.move (g : Position → Position) (s : Stop) : Stop :=
  { s with rest := s.rest.map (Token.move g) }

/-- The outcome with its value moved by `m`, or with its stop moved by `g`. -/
def moveOutcome (g : Position → Position) (m : α → α) : Except Stop α → Except Stop α
  | .ok x => .ok (m x)
  | .error s => .error (s.move g)

@[simp] lemma toOption_moveOutcome (m : α → α) (r : Except Stop α) :
    (moveOutcome g m r).toOption = r.toOption.map m := by
  cases r <;> rfl

/-- The diagnostic of a stop that is moved says the same, wherever it is placed. -/
lemma diagnostic_move (s : Stop) (last last' : Position) :
    ((s.move g).diagnostic last').cause = (s.diagnostic last).cause ∧
      ((s.move g).diagnostic last').message = (s.diagnostic last).message := by
  obtain ⟨e, fault, rest⟩ := s
  cases rest with
  | nil => exact ⟨rfl, rfl⟩
  | cons t rest => exact ⟨rfl, by cases e <;> rfl⟩

/-- A value moved by `m`, with the tokens behind it moved by `g`. -/
def moveBehind (g : Position → Position) (m : α → α) : α × List Token → α × List Token :=
  Prod.map m (List.map (Token.move g))

/-- What `f'` reads from the tokens moved by `g` is what `f` reads from the tokens, moved. -/
def Moves (g : Position → Position) (m : α → α) (f f' : List Token → Reading α) : Prop :=
  ∀ ts, f' (ts.map (Token.move g)) = moveOutcome g (moveBehind g m) (f ts)

lemma moves_pure (m : α → α) (x : α) :
    Moves g m (fun ts => .ok (x, ts)) (fun ts => .ok (m x, ts)) := fun _ => rfl

/-- Of what is read second it matters only what it makes of the value that the first comes to. -/
lemma readThen_move {m : α → α} {n : β → β} {f f' : List Token → Reading α}
    {k k' : α → List Token → Reading β} {ts : List Token}
    (hf : f' (ts.map (Token.move g)) = moveOutcome g (moveBehind g m) (f ts))
    (hk : ∀ {x rest}, f ts = .ok (x, rest) →
      k' (m x) (rest.map (Token.move g)) = moveOutcome g (moveBehind g n) (k x rest)) :
    readThen f' k' (ts.map (Token.move g)) = moveOutcome g (moveBehind g n) (readThen f k ts) := by
  cases h : f ts with
  | error s => rw [readThen_error h, readThen_error (by rw [hf, h]; rfl)]; rfl
  | ok p => rw [readThen_ok h, readThen_ok (by rw [hf, h]; rfl)]; exact hk h

lemma Moves.readThen {m : α → α} {n : β → β} {f f' : List Token → Reading α}
    {k k' : α → List Token → Reading β} (hf : Moves g m f f')
    (hk : ∀ x, Moves g n (k x) (k' (m x))) : Moves g n (readThen f k) (readThen f' k') :=
  fun ts => readThen_move (hf ts) fun _ => hk _ _

lemma moves_expect (k : Kind) (e : Expectation) :
    Moves g (Token.move g) (expect k e) (expect k e) := by
  intro ts
  cases ts with
  | nil => rfl
  | cons t rest =>
      by_cases ht : t.kind = k
      · rw [List.map_cons, expect_ok ht, expect_ok ((t.kind_move g).trans ht)]
        rfl
      · rw [List.map_cons, expect_error ht, expect_error (by rwa [t.kind_move g])]
        rfl

/-- The leaf of a token that is moved is the leaf of the token, moved. -/
def MovesLeaf (g : Position → Position) (leaf? : Token → Option Tree) : Prop :=
  ∀ t : Token, leaf? (t.move g) = (leaf? t).map (Tree.move g)

lemma moves_leafRead {leaf? : Token → Option Tree} (hleaf : MovesLeaf g leaf?) (e : Expectation) :
    Moves g (Tree.move g) (leafRead leaf? e) (leafRead leaf? e) := by
  intro ts
  cases ts with
  | nil => rfl
  | cons t rest =>
      rw [List.map_cons, leafRead, leafRead, hleaf t]
      cases leaf? t <;> rfl

lemma moves_moreLeaves {leaf? : Token → Option Tree} (hleaf : MovesLeaf g leaf?)
    (e : Expectation) :
    Moves g (List.map (Tree.move g)) (moreLeaves leaf? e) (moreLeaves leaf? e) := by
  intro ts
  induction hn : ts.length using Nat.strong_induction_on generalizing ts with
  | _ n ih =>
      cases ts with
      | nil => rfl
      | cons t rest =>
          by_cases ht : t.kind = .sign .comma
          · rw [List.map_cons, moreLeaves_comma ht, moreLeaves_comma ((t.kind_move g).trans ht)]
            refine readThen_move (moves_leafRead hleaf e rest) fun {leaf behind} hread => ?_
            have hlt := length_of_leafRead hread
            exact readThen_move (ih _ (by rw [← hn, List.length_cons]; omega) behind rfl)
              fun _ => rfl
          · rw [List.map_cons, moreLeaves_other ht,
              moreLeaves_other (by rwa [t.kind_move g])]
            rfl

/-! ## Expressions and conditions -/

/-- The heading that a moved token joins by is the heading of the token, moved. -/
def MovesJoin (g : Position → Position) (join? : Token → Option Heading) : Prop :=
  ∀ t : Token, join? (t.move g) = (join? t).map (Heading.move g)

lemma moves_chain {join? : Token → Option Heading} {item : Production} (hjoin : MovesJoin g join?)
    (hitem : Moves g (Tree.move g) item.read item.read) :
    Moves g (Tree.move g) (chain join? item).read (chain join? item).read := by
  rw [chain_read]
  refine hitem.readThen fun l ts => ?_
  induction hn : ts.length using Nat.strong_induction_on generalizing l ts with
  | _ n ih =>
      cases ts with
      | nil => rw [List.map_nil, chainFrom, chainFrom]; rfl
      | cons t rest =>
          have ht := hjoin t
          cases h : join? t with
          | none =>
              rw [h] at ht
              rw [List.map_cons, chainFrom_none h, chainFrom_none ht]
              rfl
          | some heading =>
              rw [h] at ht
              rw [List.map_cons, chainFrom_some h, chainFrom_some ht]
              refine readThen_move (hitem rest) fun {r behind} hread => ?_
              have hlt := item.shortens hread
              have hjoined := ih _ (by rw [← hn, List.length_cons]; omega)
                (.node heading [l, r]) behind rfl
              rwa [Tree.move_node] at hjoined

lemma movesLeaf_operandLeaf? : MovesLeaf g operandLeaf? := by
  intro t
  unfold operandLeaf?
  rw [t.kind_move]
  split <;> rfl

lemma movesJoin_joinTerm? : MovesJoin g joinTerm? := by
  intro t
  unfold joinTerm?
  rw [t.kind_move]
  split <;> rfl

lemma movesJoin_joinSum? : MovesJoin g joinSum? := by
  intro t
  unfold joinSum?
  rw [t.kind_move]
  split <;> rfl

lemma movesJoin_joinCondition? (tight : Bool) : MovesJoin g (joinCondition? tight) := by
  intro t
  unfold joinCondition?
  rw [t.kind_move]
  split
  · split <;> rfl
  · rfl

lemma moves_expression : Moves g (Tree.move g) expression.read expression.read :=
  moves_chain movesJoin_joinSum? (moves_chain movesJoin_joinTerm?
    (moves_leafRead movesLeaf_operandLeaf? .operand))

lemma moves_value (missing : Expectation) :
    Moves g (Tree.move g) (value missing).read (value missing).read := by
  change Moves g (Tree.move g) (valueRead missing) (valueRead missing)
  intro ts
  cases ts with
  | nil => rfl
  | cons t rest =>
      have hexpression := moves_expression (g := g) (t :: rest)
      rw [List.map_cons] at hexpression ⊢
      unfold valueRead
      simp only [t.kind_move]
      split
      · exact hexpression
      · exact hexpression
      · exact hexpression
      · rfl
      · rfl

lemma moves_relationRead :
    Moves g (Prod.map (Token.move g) id) relationRead relationRead := by
  intro ts
  cases ts with
  | nil => rfl
  | cons t rest =>
      rw [List.map_cons]
      unfold relationRead
      simp only [t.kind_move]
      split <;> rfl

lemma moves_withoutRelation (tree : Tree) :
    Moves g (Tree.move g) (withoutRelation tree) (withoutRelation (tree.move g)) := by
  intro ts
  cases ts with
  | nil => rfl
  | cons t rest =>
      rw [List.map_cons]
      unfold withoutRelation refuseRelation
      simp only [t.kind_move]
      cases t.kind <;> rfl

lemma moves_comparison : Moves g (Tree.move g) comparison.read comparison.read := by
  rw [comparison_read]
  exact (moves_value _).readThen fun l => moves_relationRead.readThen fun x =>
    (moves_value _).readThen fun r => moves_withoutRelation (comparisonTree l x r)

lemma moves_condition : Moves g (Tree.move g) condition.read condition.read := by
  have hdisjunction : Moves g (Tree.move g) disjunction.read disjunction.read :=
    moves_chain (movesJoin_joinCondition? false)
      (moves_chain (movesJoin_joinCondition? true) moves_comparison)
  intro ts
  simp only [condition_read, hdisjunction ts]
  cases disjunction.read ts <;> rfl

lemma moves_guarded (owner : Word) : Moves g (Tree.move g) (guarded owner) (guarded owner) := by
  rw [guarded_eq]
  exact (moves_expect _ _).readThen fun _ => moves_condition.readThen fun test =>
    (moves_expect _ _).readThen fun _ => moves_pure _ test

/-! ## Statements without blocks, and the heading -/

lemma movesLeaf_nameLeaf? : MovesLeaf g nameLeaf? := by
  intro t
  unfold nameLeaf?
  rw [t.kind_move]
  split <;> rfl

lemma movesLeaf_contentLeaf? : MovesLeaf g contentLeaf? := by
  intro t
  unfold contentLeaf?
  rw [t.kind_move]
  split <;> rfl

lemma moves_finishWith (e : Expectation) (tree : Tree) :
    Moves g (Tree.move g) (finishWith e tree) (finishWith e (tree.move g)) := by
  rw [finishWith_eq, finishWith_eq]
  exact (moves_expect _ _).readThen fun _ => moves_pure _ tree

lemma moves_finishNames (tree : Tree) :
    Moves g (Tree.move g) (finishNames tree) (finishNames (tree.move g)) := by
  intro ts
  cases ts with
  | nil => rfl
  | cons t rest =>
      have hfinish := moves_finishWith (g := g) .declarationSemicolon tree (t :: rest)
      rw [List.map_cons] at hfinish ⊢
      cases ht : t.kind with
      | assign =>
          simp only [finishNames, refuseBehindNames, t.kind_move, ht]
          rfl
      | identifier =>
          simp only [finishNames, refuseBehindNames, t.kind_move, ht]
          rfl
      | _ =>
          rw [finishNames_of_ok (by simp only [refuseBehindNames, t.kind_move, ht]),
            finishNames_of_ok (by simp only [refuseBehindNames, ht])]
          exact hfinish

lemma moves_behindName (type : Scalar) (t name : Token) :
    Moves g (Tree.move g) (behindName type t name)
      (behindName type (t.move g) (name.move g)) := by
  intro ts
  cases ts with
  | nil => rfl
  | cons sign rest =>
      rw [List.map_cons, behindName, behindName, sign.kind_move]
      split
      · exact (moves_value _).readThen (fun v => moves_finishWith _
          (initializationTree type t name v)) rest
      · refine (moves_moreLeaves movesLeaf_nameLeaf? _).readThen (fun names => ?_) (sign :: rest)
        have hnames := moves_finishNames (g := g) (declarationTree type t name names)
        rwa [declarationTree, Tree.move_node] at hnames

lemma moves_declaration (type : Scalar) (t : Token) :
    Moves g (Tree.move g) (declaration type t) (declaration type (t.move g)) := by
  rw [declaration_eq, declaration_eq]
  exact (moves_expect _ _).readThen fun name => moves_behindName type t name

lemma moves_assignment (t : Token) :
    Moves g (Tree.move g) (assignment t) (assignment (t.move g)) := by
  rw [assignment_eq, assignment_eq]
  exact (moves_expect _ _).readThen fun _ => (moves_value _).readThen fun v => moves_finishWith _
    (.node ⟨.assignment, some (t.text?.getD []), t.position⟩ [v])

lemma moves_print (t : Token) : Moves g (Tree.move g) (print t) (print (t.move g)) := by
  rw [print_eq, print_eq]
  refine (moves_expect _ _).readThen fun _ =>
    (moves_leafRead movesLeaf_contentLeaf? _).readThen fun first =>
      (moves_moreLeaves movesLeaf_contentLeaf? _).readThen fun others =>
        (moves_expect _ _).readThen fun _ => ?_
  have hfinish := moves_finishWith (g := g) .printSemicolon
    (.node ⟨.print, none, t.position⟩ (first :: others))
  rwa [Tree.move_node] at hfinish

lemma moves_read (t : Token) : Moves g (Tree.move g) (read t) (read (t.move g)) := by
  rw [read_eq, read_eq]
  exact (moves_expect _ _).readThen fun name => moves_finishWith _
    (.node ⟨.read, none, t.position⟩ [variableLeaf name])

lemma moves_heading : Moves g id heading heading := by
  rw [heading_eq]
  exact (moves_expect _ _).readThen fun _ => (moves_expect _ _).readThen fun name =>
    (moves_expect _ _).readThen fun _ => (moves_expect _ _).readThen fun _ =>
      (moves_expect _ _).readThen fun _ => moves_pure id _

/-! ## Runs -/

/-- The run with its value moved by `m`, and its stops moved by `g`. -/
def Run.move (g : Position → Position) (m : α → α) (r : Run α) : Run α :=
  ⟨r.passed.map (Stop.move g), moveOutcome g m r.outcome⟩

/-- What `f` does with the tokens moved by `g` is what it does with the tokens, moved. -/
def MovesRun (g : Position → Position) (m : α → α) (f f' : List Token → Run (α × List Token)) :
    Prop :=
  ∀ ts, f' (ts.map (Token.move g)) = (f ts).move g (moveBehind g m)

@[simp] lemma stops_move (m : α → α) (r : Run α) :
    (r.move g m).stops = r.stops.map (Stop.move g) := by
  rw [Run.stops, Run.stops, Run.move]
  cases r.outcome with
  | ok x => rfl
  | error s => simp [moveOutcome]

lemma ofReading_move (m : α → α) (r : Except Stop α) :
    Run.ofReading (moveOutcome g m r) = (Run.ofReading r).move g m := by
  cases r <;> rfl

lemma Moves.inOneGo {m : α → α} {f f' : List Token → Reading α} (hf : Moves g m f f') :
    MovesRun g m (inOneGo f) (inOneGo f') := by
  intro ts
  rw [Grammar.inOneGo, hf ts, ofReading_move]
  rfl

lemma passOver_move (s : Stop) : Run.passOver (s.move g) = (Run.passOver s).move g id := by
  obtain ⟨e, fault, rest⟩ := s
  cases rest <;> rfl

/-- Of the second run it matters only what it makes of the value that the first comes to. -/
lemma bind_move {m : α → α} {n : β → β} {r r' : Run α} {k k' : α → Run β} (hr : r' = r.move g m)
    (hk : ∀ {x}, r.outcome = .ok x → k' (m x) = (k x).move g n) :
    (r' >>= k') = (r >>= k).move g n := by
  subst hr
  change Run.andThen _ _ = (Run.andThen _ _).move g n
  cases h : r.outcome with
  | error s =>
      simp only [Run.andThen, Run.move, h, moveOutcome]
  | ok x =>
      simp only [Run.andThen, Run.move, h, moveOutcome, hk h, List.map_append]

/-! ## Statements with blocks -/

lemma resynchronizeAt_move (depth : Nat) (ts : List Token) :
    (resynchronizeAt depth (ts.map (Token.move g))).2 =
      (resynchronizeAt depth ts).2.map (Token.move g) := by
  fun_induction resynchronizeAt depth ts with
  | case1 => rfl
  | _ => simp_all [resynchronizeAt]

lemma misplaced_move (ts : List Token) : misplaced (ts.map (Token.move g)) = misplaced ts := by
  cases ts with
  | nil => rfl
  | cons t rest => cases rest <;> rfl

lemma endsStatements_move (body : Bool) (ts : List Token) :
    endsStatements body (ts.map (Token.move g)) = endsStatements body ts := by
  cases ts <;> rfl

lemma otherwiseFollows_move (ts : List Token) :
    otherwiseFollows (ts.map (Token.move g)) = otherwiseFollows ts := by
  cases ts <;> rfl

/-- A block that starts in front of a token is moved with it. -/
lemma blockNode_move {ts : List Token} (h : ts ≠ []) (trees : List Tree) :
    blockNode (ts.map (Token.move g)) (trees.map (Tree.move g)) =
      (blockNode ts trees).move g := by
  obtain ⟨t, rest, rfl⟩ := List.exists_cons_of_ne_nil h
  rw [blockNode, blockNode, Tree.move_node]
  rfl

lemma Shrinks.ne_nil {f : List Token → Reading α} (hf : Shrinks f) {ts rest : List Token} {x : α}
    (h : f ts = .ok (x, rest)) (hrest : rest ≠ []) : ts ≠ [] := by
  rintro rfl
  have hsuffix := hf []
  rw [h] at hsuffix
  exact hrest (List.suffix_nil.mp hsuffix)

section Blocks

variable {inside : BlockReader}

lemma movesRun_block (hin : MovesRun g (List.map (Tree.move g)) inside inside)
    (hshrinks : Shrinks (eventually inside)) (owner : Word) :
    MovesRun g (Tree.move g) (block inside owner) (block inside owner) := by
  intro ts
  refine bind_move ((moves_expect _ _).inOneGo ts) fun {x} _ => ?_
  refine bind_move (hin x.2) fun {y} htrees => ?_
  refine bind_move ((moves_expect _ _).inOneGo y.2) fun {z} hclose => ?_
  -- the brace that was read behind the statements stands behind the place of the block
  have hrest : y.2 ≠ [] := by
    intro hnil
    rw [hnil] at hclose
    cases hclose
  have hblock := blockNode_move (g := g) (hshrinks.ne_nil htrees hrest) y.1
  change Run.done (blockNode _ _, _) = _
  rw [hblock]
  rfl

lemma movesRun_loop (hin : MovesRun g (List.map (Tree.move g)) inside inside)
    (hshrinks : Shrinks (eventually inside)) (t : Token) :
    MovesRun g (Tree.move g) (loop inside t) (loop inside (t.move g)) :=
  fun ts => bind_move ((moves_guarded _).inOneGo ts) fun {x} _ =>
    bind_move (movesRun_block hin hshrinks _ x.2) fun _ => rfl

lemma movesRun_otherwise (hin : MovesRun g (List.map (Tree.move g)) inside inside)
    (hshrinks : Shrinks (eventually inside)) (t : Token) (test yes : Tree) :
    MovesRun g (Tree.move g) (otherwise inside t test yes)
      (otherwise inside (t.move g) (test.move g) (yes.move g)) := by
  intro ts
  unfold otherwise
  rw [otherwiseFollows_move, ← List.map_drop]
  split
  · exact bind_move (movesRun_block hin hshrinks _ _) fun _ => rfl
  · rfl

lemma movesRun_statement (hin : MovesRun g (List.map (Tree.move g)) inside inside)
    (hshrinks : Shrinks (eventually inside)) :
    MovesRun g (Tree.move g) (statement inside) (statement inside) := by
  intro ts
  cases ts with
  | nil => rfl
  | cons t rest =>
      have hmisplaced := misplaced_move (g := g) (t :: rest)
      rw [List.map_cons] at hmisplaced ⊢
      unfold statement
      simp only [t.kind_move, hmisplaced]
      split
      · exact (moves_declaration _ t).inOneGo rest
      · exact (moves_assignment t).inOneGo rest
      · exact (moves_print t).inOneGo rest
      · exact (moves_read t).inOneGo rest
      · exact movesRun_loop hin hshrinks t rest
      · exact bind_move ((moves_guarded _).inOneGo rest) fun {x} _ =>
          bind_move (movesRun_block hin hshrinks _ x.2) fun {y} _ =>
            movesRun_otherwise hin hshrinks t x.1 y.1 y.2
      · rfl

lemma movesRun_turn (hin : MovesRun g (List.map (Tree.move g)) inside inside)
    (hshrinks : Shrinks (eventually inside)) :
    MovesRun g (List.map (Tree.move g)) (turn inside) (turn inside) := by
  intro ts
  have hstatement := movesRun_statement hin hshrinks ts
  rw [turn, hstatement, turn]
  cases h : (statement inside ts).outcome with
  | ok p =>
      rw [recovered_ok h, recovered_ok (by rw [Run.move, h]; rfl)]
      rfl
  | error s =>
      have hmoved : ((statement inside ts).move g (moveBehind g (Tree.move g))).outcome =
          .error (s.move g) := by rw [Run.move, h]; rfl
      by_cases hs : s.rest = []
      · rw [recovered_fatal h hs, recovered_fatal hmoved (by simpa [Stop.move] using hs)]
        rfl
      · rw [recovered_broken h hs, recovered_broken hmoved (by simpa [Stop.move] using hs)]
        have hresume := resynchronizeAt_move (g := g) 0 s.rest
        simp only [Run.move, moveOutcome, moveBehind, List.map_append, Prod.map]
        rw [resynchronize, resynchronize, ← hresume]
        rfl

end Blocks

lemma movesRun_statementsWithin (turns : Nat) (body : Bool) :
    MovesRun g (List.map (Tree.move g)) (statementsWithin turns body)
      (statementsWithin turns body) := by
  induction turns generalizing body with
  | zero => exact fun ts => rfl
  | succ turns ih =>
      intro ts
      have hends := endsStatements_move (g := g) body ts
      cases h : endsStatements body ts with
      | true =>
          rw [statementsWithin_ends h, statementsWithin_ends (hends.trans h)]
          rfl
      | false =>
          rw [statementsWithin_goesOn h, statementsWithin_goesOn (hends.trans h)]
          refine bind_move (movesRun_turn (ih false) (shrinks_statementsWithin _ _) ts)
            fun {x} _ => bind_move (ih body x.2) fun {y} _ => ?_
          change Run.done (_, _) = Run.done (_, _)
          rw [List.map_append]
          rfl

lemma movesRun_statements (body : Bool) :
    MovesRun g (List.map (Tree.move g)) (statements body) (statements body) := by
  intro ts
  rw [statements, statements, List.length_map]
  exact movesRun_statementsWithin _ _ ts

/-! ## Programs -/

lemma behindOpenBrace_move (ts : List Token) :
    behindOpenBrace (ts.map (Token.move g)) =
      moveOutcome g (List.map (Token.move g)) (behindOpenBrace ts) := by
  fun_induction behindOpenBrace ts with
  | case1 => rfl
  | case2 t rest ht => rw [List.map_cons, behindOpenBrace, t.kind_move, if_pos ht]; rfl
  | case3 t rest ht ih => rw [List.map_cons, behindOpenBrace, t.kind_move, if_neg ht, ih]

lemma behindCloseBrace_move (depth : Nat) (ts : List Token) :
    behindCloseBrace depth (ts.map (Token.move g)) =
      moveOutcome g (List.map (Token.move g)) (behindCloseBrace depth ts) := by
  fun_induction behindCloseBrace depth ts with
  | case1 => rfl
  | _ => simp_all [behindCloseBrace, moveOutcome]

lemma movesRun_opening : MovesRun g id opening opening := by
  intro ts
  have hheading := moves_heading (g := g) ts
  unfold opening
  cases h : heading ts with
  | ok p => simp only [hheading, h]; rfl
  | error s =>
      simp only [hheading, h]
      refine bind_move (passOver_move s) fun _ => bind_move ?_ fun _ => rfl
      rw [← ofReading_move, ← behindOpenBrace_move]
      rfl

lemma terminateSemicolon_move (ts : List Token) :
    terminateSemicolon (ts.map (Token.move g)) =
      (terminateSemicolon ts).move g (List.map (Token.move g)) := by
  have hexpect := moves_expect (g := g) (.sign .semicolon) .terminateSemicolon ts
  unfold terminateSemicolon
  cases h : expect (.sign .semicolon) .terminateSemicolon ts with
  | ok p => simp only [hexpect, h]; rfl
  | error s =>
      simp only [hexpect, h]
      refine bind_move (passOver_move s) fun _ => ?_
      have hresume := resynchronizeAt_move (g := g) 0 s.rest
      change Run.done (resynchronizeAt 0 _).2 = Run.done _
      rw [resynchronize, ← hresume]
      rfl

lemma movesRun_terminate : MovesRun g (List.map (Tree.move g)) terminate terminate := by
  intro ts
  have hexpect := moves_expect (g := g) (.word .terminar) .terminate ts
  unfold terminate
  cases h : expect (.word .terminar) .terminate ts with
  | ok p =>
      simp only [hexpect, h]
      exact bind_move (terminateSemicolon_move p.2) fun _ => rfl
  | error s =>
      simp only [hexpect, h]
      exact bind_move (passOver_move s) fun _ => rfl

lemma closing_move (ts : List Token) :
    closing (ts.map (Token.move g)) = (closing ts).move g (List.map (Token.move g)) := by
  have hexpect := moves_expect (g := g) (.sign .closeBrace) .closeAfterTerminate ts
  unfold closing
  cases h : expect (.sign .closeBrace) .closeAfterTerminate ts with
  | ok p => simp only [hexpect, h]; rfl
  | error s =>
      simp only [hexpect, h]
      refine bind_move (passOver_move s) fun _ => ?_
      rw [← ofReading_move, ← behindCloseBrace_move]
      rfl

lemma trailing_move (ts : List Token) :
    trailing (ts.map (Token.move g)) = (trailing ts).move g id := by
  cases ts <;> rfl

/-- **The program read from tokens that are moved is the program, moved**, and so is every stop on
the way. -/
theorem program_move (ts : List Token) :
    program (ts.map (Token.move g)) = (program ts).move g (Tree.move g) := by
  cases ts with
  | nil => rfl
  | cons t us =>
      refine bind_move (movesRun_opening (t :: us)) fun {x} _ => ?_
      refine bind_move (movesRun_statements true x.2) fun {y} htrees => ?_
      refine bind_move (movesRun_terminate y.2) fun {z} hend => ?_
      refine bind_move (closing_move z.2) fun {w} _ => ?_
      refine bind_move (trailing_move w) fun _ => ?_
      -- the end of the program was read or reported, so it is not the end of the input
      have hrest : y.2 ≠ [] := by
        intro hnil
        rw [hnil] at hend
        cases hend
      have hstart : x.2 ≠ [] := (shrinks_statements true).ne_nil htrees hrest
      have hblock := blockNode_move (g := g) hstart y.1
      change Run.done (Tree.node _ (blockNode _ _ :: _)) = Run.done _
      rw [Tree.move_node, List.map_cons, hblock]
      rfl

end Imperativo.Grammar
