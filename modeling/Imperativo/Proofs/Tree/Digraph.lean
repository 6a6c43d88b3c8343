import Imperativo.Proofs.Text.Reading
import Imperativo.Proofs.Tree.Renderings

/-!
# Graphs are read back from their written form

In a quoted label the quotes and the backslashes have a backslash in front of them, and a newline is
written as a backslash and a letter.  Read from left to right that is never ambiguous: behind a
backslash there is one character, which says what is meant, and a quote without a backslash is the
one that closes the label (`readQuoted_escape`).  So a label does not end before its end, and, as
nothing that is written for it has a newline, not in another line.  Each line is read on its own, as
a vertex or as an edge (`readVertex`, `readEdge`), and is never both.

* **`read_dot`** — the lines of a written graph are its vertices and edges.
* **`dot_of_tree`** — the written graph of a tree has the labels of the walk, and no other graph is
  written like it.
-/

namespace Imperativo

namespace Graph

/-! ## Reading -/

/-- The numbers of the vertices with their labels. -/
def vertices (g : Graph) : List (Nat × Text) := g.labels.zipIdx.map Prod.swap

/-- The vertices that the edges lead from and to. -/
def links (g : Graph) : List (Nat × Nat) := g.edges.map fun e => (e.source, e.target)

/-- The character that is meant by the one behind a backslash. -/
def meant (c : Char) : Char := if c = 'l' then '\n' else c

/-- What is quoted up to the closing quote, and what stands behind that. -/
def readQuoted : Text → Option (Text × Text)
  | [] => none
  | [c] => if c = '"' then some ([], []) else none
  | c :: d :: rest =>
    if c = '"' then some ([], d :: rest)
    else if c = '\\' then (readQuoted rest).map fun (label, behind) => (meant d :: label, behind)
    else (readQuoted (d :: rest)).map fun (label, behind) => (c :: label, behind)

/-- The number and the label of a vertex, read from its line. -/
def readVertex (line : Text) : Option (Nat × Text) := do
  let numbered ← line.dropPrefix? "    ".toList
  let (i, behind) ← Text.readNumber numbered
  let quoted ← behind.dropPrefix? " [ label = \"".toList
  let (label, rest) ← readQuoted quoted
  if rest = " ]".toList then some (i, label) else none

/-- The vertices that an edge leads from and to, read from its line. -/
def readEdge (line : Text) : Option (Nat × Nat) := do
  let numbered ← line.dropPrefix? "    ".toList
  let (source, behind) ← Text.readNumber numbered
  let numbered ← behind.dropPrefix? " -> ".toList
  let (target, rest) ← Text.readNumber numbered
  if rest = " [ ]".toList then some (source, target) else none

/-! ## Labels -/

variable (i : Nat) (label : Text) (e : Edge) (g : Graph)

lemma readQuoted_escapeChar (c : Char) (rest : Text) : readQuoted (escapeChar c ++ rest) =
    (readQuoted rest).map fun (label, behind) => (c :: label, behind) := by
  by_cases hquote : c = '"'
  · simp [hquote, escapeChar, readQuoted, meant]
  by_cases hbackslash : c = '\\'
  · simp [hbackslash, escapeChar, readQuoted, meant]
  by_cases hnewline : c = '\n'
  · simp [hnewline, escapeChar, readQuoted, meant]
  have hself : escapeChar c = [c] := by simp [escapeChar, hquote, hbackslash, hnewline]
  cases rest with
  | nil => simp [hself, readQuoted, hquote]
  | cons d rest => simp [hself, readQuoted, hquote, hbackslash]

/-- **A quoted label is read up to the quote that closes it.** -/
theorem readQuoted_escape (behind : Text) :
    readQuoted (escape label ++ '"' :: behind) = some (label, behind) := by
  induction label with
  | nil => cases behind <;> simp [escape, readQuoted]
  | cons c label ih =>
      have hcons : escape (c :: label) = escapeChar c ++ escape label := by simp [escape]
      rw [hcons, List.append_assoc, readQuoted_escapeChar, ih]
      rfl

lemma newline_notMem_escape : '\n' ∉ escape label := by
  simp only [escape, List.mem_flatMap, not_exists, not_and]
  intro c _
  simp only [escapeChar]
  split
  · decide
  split
  · decide
  split
  · decide
  · rename_i hnewline
    simpa using Ne.symm hnewline

/-! ## Lines -/

/-- The line of a vertex, without its newline. -/
def vertexRow : Text :=
  "    ".toList ++ Text.ofNat i ++ " [ label = \"".toList ++ escape label ++ "\" ]".toList

/-- The line of an edge, without its newline. -/
def edgeRow : Text :=
  "    ".toList ++ Text.ofNat e.source ++ " -> ".toList ++ Text.ofNat e.target ++ " [ ]".toList

/-- The lines of a written graph. -/
def rows : List Text :=
  "digraph \x7b".toList :: (g.vertices.map fun v => vertexRow v.1 v.2) ++
    (g.edges.map edgeRow ++ ["\x7d".toList])

lemma vertexLine_eq : vertexLine i label = vertexRow i label ++ ['\n'] := by
  have hend : "\" ]\n".toList = "\" ]".toList ++ ['\n'] := by simp
  unfold vertexLine vertexRow
  simp only [hend, List.append_assoc]

lemma edgeLine_eq : edgeLine e = edgeRow e ++ ['\n'] := by
  have hend : " [ ]\n".toList = " [ ]".toList ++ ['\n'] := by simp
  unfold edgeLine edgeRow
  simp only [hend, List.append_assoc]

lemma dot_eq : g.dot = Text.written g.rows := by
  have hvertices : (g.labels.zipIdx.flatMap fun v => vertexLine v.2 v.1) =
      Text.written (g.vertices.map fun v => vertexRow v.1 v.2) := by
    simp only [Text.written, vertices, List.flatMap_map, vertexLine_eq, Prod.fst_swap,
      Prod.snd_swap]
  have hedges : g.edges.flatMap edgeLine = Text.written (g.edges.map edgeRow) := by
    simp only [Text.written, List.flatMap_map, ← edgeLine_eq]
  have hfirst : "digraph \x7b\n".toList = Text.written ["digraph \x7b".toList] := by
    simp [Text.written]
  have hlast : "\x7d\n".toList = Text.written ["\x7d".toList] := by simp [Text.written]
  unfold dot rows
  rw [hvertices, hedges, hfirst, hlast]
  simp only [← Text.written_append, List.singleton_append, List.append_assoc]

/-- No line has a newline, and none ends with a carriage return. -/
lemma rows_plain : ∀ row ∈ g.rows, '\n' ∉ row ∧ Text.dropReturn row = row := by
  have hvertex (v : Nat × Text) : '\n' ∉ vertexRow v.1 v.2 := by
    unfold vertexRow
    simp only [List.mem_append, Text.newline_notMem_ofNat, newline_notMem_escape, or_false]
    decide
  have hedge (e : Edge) : '\n' ∉ edgeRow e := by
    unfold edgeRow
    simp only [List.mem_append, Text.newline_notMem_ofNat, or_false]
    decide
  unfold rows
  simp only [List.mem_append, List.mem_cons, List.mem_map, List.not_mem_nil, or_false]
  rintro row ((rfl | ⟨v, -, rfl⟩) | ⟨e, -, rfl⟩ | rfl)
  · decide
  · exact ⟨hvertex v, Text.dropReturn_append _ (by decide) (by decide)⟩
  · exact ⟨hedge e, Text.dropReturn_append _ (by decide) (by decide)⟩
  · decide

/-- **The lines of a written graph.** -/
theorem lines_dot : Text.lines g.dot = g.rows := by
  rw [dot_eq, Text.lines_written fun row hrow => (g.rows_plain row hrow).1]
  exact (List.map_congr_left fun row hrow => (g.rows_plain row hrow).2).trans (List.map_id _)

/-! ## Reading lines -/

lemma dropPrefix?_append (front behind : Text) :
    (front ++ behind).dropPrefix? front = some behind :=
  List.dropPrefix?_append_of_beq behind (by simp)

lemma readVertex_vertexRow : readVertex (vertexRow i label) = some (i, label) := by
  have hlabel : readQuoted (escape label ++ "\" ]".toList) = some (label, " ]".toList) :=
    readQuoted_escape label _
  unfold readVertex vertexRow
  simp only [List.append_assoc, dropPrefix?_append, Option.bind_eq_bind, Option.bind_some]
  rw [Text.readNumber_ofNat i (by simp)]
  simp only [Option.bind_some, dropPrefix?_append, hlabel, if_true]

lemma readEdge_edgeRow : readEdge (edgeRow e) = some (e.source, e.target) := by
  unfold readEdge edgeRow
  simp only [List.append_assoc, dropPrefix?_append, Option.bind_eq_bind, Option.bind_some]
  rw [Text.readNumber_ofNat e.source (by simp)]
  simp only [Option.bind_some, dropPrefix?_append]
  rw [Text.readNumber_ofNat e.target (by simp)]
  simp only [Option.bind_some, if_true]

/-- The line of an edge is not that of a vertex. -/
lemma readVertex_edgeRow : readVertex (edgeRow e) = none := by
  unfold readVertex edgeRow
  simp only [List.append_assoc, dropPrefix?_append, Option.bind_eq_bind, Option.bind_some]
  rw [Text.readNumber_ofNat e.source (by simp)]
  rfl

/-- The line of a vertex is not that of an edge, whatever its label is. -/
lemma readEdge_vertexRow : readEdge (vertexRow i label) = none := by
  unfold readEdge vertexRow
  simp only [List.append_assoc, dropPrefix?_append, Option.bind_eq_bind, Option.bind_some]
  rw [Text.readNumber_ofNat i (by simp)]
  rfl

/-- **A written graph is read back.**  The lines that are read as vertices are the vertices in
order, and those that are read as edges are the edges in order. -/
theorem read_dot : (Text.lines g.dot).filterMap readVertex = g.vertices ∧
    (Text.lines g.dot).filterMap readEdge = g.links := by
  have hends : readVertex "digraph \x7b".toList = none ∧ readVertex "\x7d".toList = none ∧
      readEdge "digraph \x7b".toList = none ∧ readEdge "\x7d".toList = none := by decide
  obtain ⟨hvertexFirst, hvertexLast, hedgeFirst, hedgeLast⟩ := hends
  rw [lines_dot]
  unfold rows
  constructor
  · simp only [List.filterMap_append, List.filterMap_cons, hvertexFirst, hvertexLast,
      List.filterMap_map, Function.comp_def, readVertex_vertexRow, readVertex_edgeRow]
    simp
  · simp only [List.filterMap_append, List.filterMap_cons, hedgeFirst, hedgeLast,
      List.filterMap_map, Function.comp_def, readEdge_vertexRow, readEdge_edgeRow]
    simp [links]

/-! ## Trees -/

/-- The vertices of the graph of a tree have the labels of the nodes of the walk. -/
lemma vertices_ofAst {ast : Ast} (hfirst : ChildFirst ast.nodes) (hroot : ast.root < ast.size) :
    (ofAst ast).vertices = ast.preorder.zipIdx.map fun v => (v.2, ast.label v.1.2) := by
  have hlabels : (ofAst ast).labels = ast.preorder.map fun v => ast.label v.2 := by
    symm
    rw [← List.forall₂_eq_eq_eq, List.forall₂_map_left_iff]
    refine (draws_ofAst hfirst hroot).labels.imp ?_
    rintro ⟨depth, id⟩ label ⟨node, hnode, rfl⟩
    rw [Ast.label, hnode]
  rw [vertices, hlabels, List.zipIdx_map, List.map_map]
  rfl

/-- **The written graph of a tree loses nothing.**  Between its first and its last line it has one
line for each vertex and then one for each edge, in order; the label that is read from the line of a
vertex is what the node says that is visited under this number, whatever characters it has; and a
graph that is written in the same way has the same vertices and the same edges. -/
theorem dot_of_tree (ast : Ast) (hfirst : ChildFirst ast.nodes) (hroot : ast.root < ast.size) :
    let g := ofAst ast
    (Text.lines g.dot).length = g.vertices.length + g.links.length + 2 ∧
    (∃ vertexLines edgeLines, Text.lines g.dot =
        "digraph \x7b".toList :: vertexLines ++ (edgeLines ++ ["\x7d".toList]) ∧
      vertexLines.map readVertex =
        ast.preorder.zipIdx.map (fun v => some (v.2, ast.label v.1.2)) ∧
      edgeLines.map readEdge = g.links.map some) ∧
    ∀ g' : Graph, g'.dot = g.dot → g'.vertices = g.vertices ∧ g'.links = g.links := by
  intro g
  have hvertices : g.vertices = ast.preorder.zipIdx.map fun v => (v.2, ast.label v.1.2) :=
    vertices_ofAst hfirst hroot
  refine ⟨?_, ⟨g.vertices.map fun v => vertexRow v.1 v.2, g.edges.map edgeRow, ?_, ?_, ?_⟩, ?_⟩
  · rw [lines_dot]
    simp only [rows, links, List.length_append, List.length_cons, List.length_map, List.length_nil]
    omega
  · exact g.lines_dot
  · rw [hvertices]
    simp only [List.map_map, Function.comp_def, readVertex_vertexRow]
  · simp only [links, List.map_map, Function.comp_def, readEdge_edgeRow]
  · intro g' hdot
    rw [← g'.read_dot.1, ← g'.read_dot.2, hdot]
    exact g.read_dot

/-- Labels with quotes, backslashes and newlines in them, one of which looks like the end of a label
and the line of an edge. -/
theorem dot_of_tree_quotes :
    let leaf label : Node := ⟨⟨.content, some label, ⟨1, 1⟩⟩, []⟩
    let ast : Ast := ⟨[leaf "\\l".toList, leaf "a\" ]\n    0 -> 0 [ ]".toList,
      ⟨⟨.print, none, ⟨1, 1⟩⟩, [0, 1]⟩], 2⟩
    ChildFirst ast.nodes ∧ ast.root < ast.size ∧ (Text.lines (ofAst ast).dot).length = 7 ∧
      ∀ g' : Graph, g'.dot = (ofAst ast).dot → g'.vertices = (ofAst ast).vertices ∧
        g'.links = (ofAst ast).links := by
  intro leaf ast
  have hfirst : ChildFirst ast.nodes := by decide
  have hroot : ast.root < ast.size := by decide
  obtain ⟨hlength, -, hsame⟩ := dot_of_tree ast hfirst hroot
  refine ⟨hfirst, hroot, ?_, hsame⟩
  have hleaf (depth id : Nat) {label : Text} (h : ast.node? id = some (leaf label))
      {ids : List Nat} {order : List (Nat × Nat)} (hbehind : ast.Unfolds depth ids order) :
      ast.Unfolds depth (id :: ids) ((depth, id) :: order) :=
    Ast.Unfolds.cons h .nil hbehind
  have hunfolds : ast.Unfolds 0 [2] [(0, 2), (1, 0), (1, 1)] :=
    @Ast.Unfolds.cons _ 0 2 [] _ [(1, 0), (1, 1)] [] rfl
      (hleaf 1 0 rfl (hleaf 1 1 rfl .nil)) .nil
  have horder : ast.preorder = [(0, 2), (1, 0), (1, 1)] :=
    ((Ast.unfolds_iff hfirst hroot _).mp hunfolds).symm
  have hvertices : (ofAst ast).vertices.length = 3 := by simp [vertices_ofAst hfirst hroot, horder]
  have hedges := (draws_ofAst hfirst hroot).edges
  simp only [horder, List.length_cons, List.length_nil] at hedges
  rw [hlength, hvertices, links, List.length_map]
  omega

end Graph

end Imperativo
