import Imperativo.Tree.Arena

/-!
# Outlines

An outline has one line for each node of a tree, parents first: two blanks for each level below the
root, then what the node says.
-/

namespace Imperativo

namespace Ast

/-- One line of an outline, with its newline. -/
def outlineLine (ast : Ast) (depth id : Nat) : Text :=
  List.replicate (2 * depth) ' ' ++ ast.label id ++ ['\n']

/-- The outline of a tree. -/
def outline (ast : Ast) : Text := ast.preorder.flatMap fun (depth, id) => ast.outlineLine depth id

end Ast

end Imperativo
