import Imperativo.Proofs.Building.Program
import Imperativo.Proofs.Grammar.Labels
import Imperativo.Proofs.Source.Values
import Imperativo.Proofs.Tree.Outline

/-!
# The outline of a program determines its tree

Every label in the tree of a program is what one of its tokens says (`parse_labelled`), and no token
says anything that has a newline in it.  So the outline of such a tree can be read back, whatever
else the names and the quoted texts of the program have in them: blanks in front, colons, carriage
returns, or nothing at all.

* **`outline_determines`** — trees of programs that have one outline differ in their places only.
-/

namespace Imperativo

open Grammar

variable {case : KeywordCase} {source : Text}

lemma newline_notMem_label {t : Token} {kind : NodeKind} {label : Text}
    (ht : t ∈ (tokenize case source).1) (h : t.Labels kind label) : '\n' ∉ label := by
  have hvalue := newline_notMem_valueText ht
  have htext := newline_notMem_text? ht
  cases h with
  | number => exact hvalue
  | operand => exact hvalue
  | name => exact htext
  | content => exact htext
  | assignment => exact htext
  | program => exact htext
  | @scalar type => exact newline_notMem_spelling (.scalar type)
  | @comparison op => exact newline_notMem_spelling (.relation op)
  | @combination op => exact newline_notMem_spelling (.connective op)

mutual

lemma Tree.Everywhere.levels {p : Heading → Prop} (level : Nat) :
    ∀ {tree : Tree}, tree.Everywhere p → ∀ v ∈ tree.levels level, p v.2
  | .node heading children, .node h hchildren => by
      rw [Tree.levels]
      exact List.forall_mem_cons.mpr ⟨h, Tree.Everywhere.levelsAll (level + 1) hchildren⟩

lemma Tree.Everywhere.levelsAll {p : Heading → Prop} (level : Nat) :
    ∀ {trees : List Tree}, (∀ tree ∈ trees, tree.Everywhere p) →
      ∀ v ∈ Tree.levelsAll level trees, p v.2
  | [], _ => by simp [Tree.levelsAll]
  | tree :: trees, h => by
      rw [List.forall_mem_cons] at h
      rw [Tree.levelsAll]
      exact List.forall_mem_append.mpr
        ⟨Tree.Everywhere.levels level h.1, Tree.Everywhere.levelsAll level h.2⟩

end

/-- The labels in the tree of a program have no newlines. -/
lemma newline_notMem_labels {entry : Entry} {tree : Tree}
    (h : ((Parser.ofTokens (tokenize case source).1).parse entry).tree = some tree) (level : Nat) :
    ∀ v ∈ tree.levels level, ∀ label ∈ v.2.label, '\n' ∉ label := by
  intro v hv label hlabel
  obtain ⟨t, ht, hsays, -⟩ := (parse_labelled h).levels level v hv label hlabel
  exact newline_notMem_label ht hsays

/-- **The tree of a program is read back from its outline**, but for its places. -/
theorem readOutline_parse {entry : Entry} {ast : Ast}
    (h : ((Parser.ofTokens (tokenize case source).1).parse entry).ast? = some ast) :
    (readOutline ast.outline).map Tree.seal = some ast.bare := by
  rw [parse_ast, Option.map_eq_some_iff] at h
  obtain ⟨tree, htree, rfl⟩ := h
  rw [readOutline_seal (newline_notMem_labels htree 0), Option.map_some, Tree.seal_move]
  rfl

/-- **The outline determines the tree.**  The tree of a program, whatever it is read as, is read
back from its outline but for its places; and trees of two programs have the same outline exactly
when they have the same kinds, labels and children. -/
theorem outline_determines {case case' : KeywordCase} {source source' : Text}
    {entry entry' : Entry} {ast ast' : Ast}
    (h : ((Parser.ofTokens (tokenize case source).1).parse entry).ast? = some ast)
    (h' : ((Parser.ofTokens (tokenize case' source').1).parse entry').ast? = some ast') :
    (readOutline ast.outline).map Tree.seal = some ast.bare ∧
      (ast.outline = ast'.outline ↔ ast.bare = ast'.bare) := by
  have hread := readOutline_parse h
  have hread' := readOutline_parse h'
  refine ⟨hread, ?_, ?_⟩
  · intro houtline
    rw [houtline, hread'] at hread
    exact (Option.some.inj hread).symm
  · intro hbare
    rw [parse_ast, Option.map_eq_some_iff] at h h'
    obtain ⟨tree, -, rfl⟩ := h
    obtain ⟨tree', -, rfl⟩ := h'
    have hmove (tree : Tree) : (tree.move fun _ => Position.start).seal.outline =
        tree.seal.outline := outline_seal_move _ tree
    rw [← hmove tree, ← hmove tree', Tree.seal_move, Tree.seal_move]
    exact congrArg Ast.outline hbare

/-- Two layouts of a program that prints what looks like a line of an outline, and nothing. -/
theorem outline_determines_quoted :
    let source := "programa p()\x7bimprimir(\"  Read: x\",\"\");terminar;\x7d".toList
    let source' := "PROGRAMA p ( )\x7b\n imprimir (\"  Read: x\" , \"\" );\n terminar; \x7d".toList
    ∃ ast ast', ((Parser.ofTokens (tokenize .sensitive source).1).parse .program).ast? = some ast ∧
      ((Parser.ofTokens (tokenize .insensitive source').1).parse .program).ast? = some ast' ∧
      ast ≠ ast' ∧ ast.outline = ast'.outline ∧
      (readOutline ast.outline).map Tree.seal = some ast'.bare := by
  intro source source'
  let parsed : Option Ast := ((Parser.ofTokens (tokenize .sensitive source).1).parse .program).ast?
  let parsed' : Option Ast :=
    ((Parser.ofTokens (tokenize .insensitive source').1).parse .program).ast?
  have hsome : parsed.isSome = true ∧ parsed'.isSome = true := by decide +kernel
  have hsame : parsed ≠ parsed' ∧ parsed.map Ast.bare = parsed'.map Ast.bare := by decide +kernel
  obtain ⟨ast, h⟩ := Option.isSome_iff_exists.mp hsome.1
  obtain ⟨ast', h'⟩ := Option.isSome_iff_exists.mp hsome.2
  rw [h, h'] at hsame
  have hne : ast ≠ ast' := fun heq => hsame.1 (congrArg some heq)
  have hbare : ast.bare = ast'.bare := Option.some.inj hsame.2
  obtain ⟨hread, houtline⟩ := outline_determines h h'
  exact ⟨ast, ast', h, h', hne, houtline.mpr hbare, hbare ▸ hread⟩

end Imperativo
