import Imperativo.Proofs.Building.Statement
import Imperativo.Proofs.Grammar.Parsing
import Imperativo.Proofs.Tree.PostOrder

/-!
# Programs are built as they are read

The heading and the end of a program add no nodes, so what a parse builds is its tree.

* **`parse_ast`** — the numbered nodes of a parse are its tree, sealed.
* **`parse_postOrdered`** — so they are listed child first, and nothing is left in the arena of
  statements that were rolled back.
-/

namespace Imperativo

open Grammar

namespace Building

variable {α γ : Type}

lemma outcome_bind (r : Run α) (f : α → Run γ) :
    (r >>= f).outcome = Except.bind r.outcome fun x => (f x).outcome := by
  change (Run.andThen r f).outcome = _
  unfold Run.andThen
  cases r.outcome <;> rfl

lemma builds_terminate : BuildsTrees terminate (eventually Grammar.terminate) := by
  intro ts a
  rw [terminate, eventually, Grammar.terminate]
  cases expect (.word .terminar) .terminate ts with
  | error s =>
      simp only [outcome_bind]
      exact follows_ofReading (List.prefix_refl _) fun _ => .ok ⟨rfl, .nil a⟩
  | ok p =>
      obtain ⟨t, rest⟩ := p
      simp only [outcome_bind]
      refine follows_ofReading (List.prefix_refl _) fun _ => ?_
      exact follows_addNode (.nil a) _ fun hnode => .ok ⟨rfl, hnode⟩

/-- One tree was added. -/
abbrev Planted (a : Arena) (tree : Tree) (id : Nat) (b : Arena) : Prop := Grove a [tree] [id] b

lemma follows_program (ts : List Token) (a : Arena) :
    Follows a (Planted a) (Grammar.program ts).outcome (program ts a) := by
  unfold program Grammar.program
  simp only [outcome_bind]
  refine follows_ofReading (List.prefix_refl _) fun {x} _ => ?_
  obtain ⟨name, start⟩ := x
  refine (builds_statements true).bind (List.prefix_refl _) fun {_ us _ _} _ hrow => ?_
  refine follows_addNode hrow _ fun {_ _} hbody => ?_
  refine builds_terminate.bind hbody.keeps fun {_ vs _ _} _ hterminator => ?_
  have hchildren := hbody.append hterminator
  refine follows_ofReading hchildren.keeps fun {ws} _ => ?_
  refine follows_ofReading hchildren.keeps fun _ => ?_
  exact .ok (hchildren.node _)

lemma follows_all {part : Part Nat} {p : Production} (h : BuildsTree part p.read) (ts : List Token)
    (a : Arena) : Follows a (Planted a) (readAll p ts).outcome (all part ts a) := by
  have hread : (readAll p ts).outcome = Except.bind (p.read ts) fun x =>
      if x.2.isEmpty then .ok x.1 else .error (.before .endOfExpression x.2) := by
    unfold readAll
    split <;> rename_i hp <;> rw [hp] <;> rfl
  rw [hread]
  refine h.bind (List.prefix_refl _) fun {tree rest id c} _ hrow => ?_
  cases rest with
  | nil => exact .ok hrow
  | cons t more => exact .error hrow.keeps

lemma follows_entry (entry : Entry) (ts : List Token) (a : Arena) :
    Follows a (Planted a) (entry.run ts).outcome (entry.build ts a) := by
  cases entry with
  | program => exact follows_program ts a
  | expression => exact follows_all builds_expression ts a
  | condition => exact follows_all builds_condition ts a

end Building

open Building

/-- **The numbered nodes of a parse are its tree.** -/
theorem parse_ast (ts : List Token) (entry : Entry) : ((Parser.ofTokens ts).parse entry).ast? =
    ((Parser.ofTokens ts).parse entry).tree.map Tree.seal := by
  have h := follows_entry entry ts Arena.empty
  rw [Parser.parse_tree]
  change ast? (entry.build ts) = _
  rw [ast?]
  generalize (entry.run ts).outcome = r at h
  generalize entry.build ts Arena.empty = result at h
  cases h with
  | ok h => exact congrArg some h.finish
  | error h => rfl

/-- **A finished tree is listed child first, and is all that its arena has.** -/
theorem parse_postOrdered (ts : List Token) (entry : Entry) (ast : Ast)
    (h : ((Parser.ofTokens ts).parse entry).ast? = some ast) :
    PostOrdered ast ∧ ∃ tree, ((Parser.ofTokens ts).parse entry).tree = some tree ∧
      ast = tree.seal := by
  rw [parse_ast, Option.map_eq_some_iff] at h
  obtain ⟨tree, htree, rfl⟩ := h
  exact ⟨postOrdered_seal tree, tree, htree, rfl⟩

/-- Of `mientras (x < x) { leer; leer x; }` the loop stays with one statement; of
`si (x < x) { leer x; } sino x;` nothing does. -/
theorem parse_postOrdered_rolled_back :
    let ts : List Token := [.word .programa, .identifier, .sign .openParen, .sign .closeParen,
      .sign .openBrace, .word .mientras, .sign .openParen, .identifier, .relation .less, .identifier,
      .sign .closeParen, .sign .openBrace, .word .leer, .sign .semicolon, .word .leer, .identifier,
      .sign .semicolon, .sign .closeBrace, .word .si, .sign .openParen, .identifier, .relation .less,
      .identifier, .sign .closeParen, .sign .openBrace, .word .leer, .identifier, .sign .semicolon,
      .sign .closeBrace, .word .sino, .identifier, .sign .semicolon, .word .terminar,
      .sign .semicolon, .sign .closeBrace].map Kind.token
    let node (kind : NodeKind) (label : Option Text) (children : List Nat) : Node :=
      ⟨⟨kind, label, Position.start⟩, children⟩
    let ast : Ast := ⟨[node .variable (some []) [], node .variable (some []) [],
      node .comparison (some ['<']) [0, 1], node .variable (some []) [], node .read none [3],
      node .block none [4], node .loop none [2, 5], node .block none [6], node .terminate none [],
      node .program (some []) [7, 8]], 9⟩
    ((Parser.ofTokens ts).parse .program).ast? = some ast ∧ PostOrdered ast ∧
      ∃ tree, ((Parser.ofTokens ts).parse .program).tree = some tree ∧ ast = tree.seal := by
  intro ts node ast
  have h : ((Parser.ofTokens ts).parse .program).ast? = some ast := by decide +kernel
  exact ⟨h, parse_postOrdered ts .program ast h⟩

end Imperativo
