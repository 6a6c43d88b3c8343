import Imperativo.Tree.Arena

/-!
# Trees as graphs

A tree becomes a directed graph with one vertex for each visit of a node, numbered parents first,
and one edge from parent to child, which carries the child's place among its siblings.  A node that
is used twice has two vertices.  The written form is a `digraph` in the DOT language, with the
quotes and backslashes of labels escaped.

* `Graph.addChildren` — adds what is below a vertex.
* `Graph.ofAst` — the graph of a tree.
* `Graph.dot` — the graph in the DOT language.
-/

namespace Imperativo

/-- An edge from a parent to its child, with the child's place among the siblings. -/
structure Edge where
  source : Nat
  target : Nat
  place : Nat
  deriving DecidableEq, Repr

/-- The labels of the vertices, in order of their numbers, and the edges. -/
structure Graph where
  labels : List Text
  edges : List Edge
  deriving DecidableEq, Repr

namespace Graph

/-- The number of vertices, which is the number that the next one gets. -/
def size (g : Graph) : Nat := g.labels.length

/-- The graph with one vertex more and the edge that leads to it. -/
def sprout (g : Graph) (label : Text) (source place : Nat) : Graph :=
  ⟨g.labels ++ [label], g.edges ++ [⟨source, g.size, place⟩]⟩

/-- The graph with what is below node `id`, whose vertex is `vertex`: for each child a vertex and
the edge to it, and at once what is below the child. -/
def addChildren (ast : Ast) (id vertex : Nat) (g : Graph) : Graph :=
  match ast.node? id with
  | none => g
  | some node =>
    node.children.zipIdx.foldl
      (fun g (child, place) =>
        if _h : child < id then
          addChildren ast child g.size (g.sprout (ast.label child) vertex place)
        else g) g
termination_by id

/-- The graph of a tree. -/
def ofAst (ast : Ast) : Graph :=
  match ast.node? ast.root with
  | none => ⟨[], []⟩
  | some node => addChildren ast ast.root 0 ⟨[node.heading.text], []⟩

/-! ## The written form -/

/-- A character inside a quoted label. -/
def escapeChar (c : Char) : Text :=
  if c = '"' then ['\\', '"']
  else if c = '\\' then ['\\', '\\']
  else if c = '\n' then ['\\', 'l']
  else [c]

/-- A label as it stands between quotes. -/
def escape (label : Text) : Text := label.flatMap escapeChar

/-- The line of the vertex with number `i`. -/
def vertexLine (i : Nat) (label : Text) : Text :=
  "    ".toList ++ Text.ofNat i ++ " [ label = \"".toList ++ escape label ++ "\" ]\n".toList

/-- The line of an edge. -/
def edgeLine (e : Edge) : Text :=
  "    ".toList ++ Text.ofNat e.source ++ " -> ".toList ++ Text.ofNat e.target ++ " [ ]\n".toList

/-- The graph in the DOT language: a line for each vertex, then a line for each edge. -/
def dot (g : Graph) : Text :=
  "digraph \x7b\n".toList ++ (g.labels.zipIdx.flatMap fun (label, i) => vertexLine i label) ++
    g.edges.flatMap edgeLine ++ "\x7d\n".toList

end Graph

end Imperativo
