import Imperativo.Grammar.Condition

/-!
# Statements without blocks

    declaration ::= TYPE IDENTIFIER '=' expression ';' | TYPE IDENTIFIER (',' IDENTIFIER)* ';'
    assignment  ::= IDENTIFIER '=' expression ';'
    print       ::= 'imprimir' '(' argument (',' argument)* ')' ';'
    argument    ::= STRING | IDENTIFIER
    read        ::= 'leer' IDENTIFIER ';'

Each of these is chosen by its first token, which the functions here take apart from the rest.
-/

namespace Imperativo.Grammar

/-- Reads a semicolon, after which a statement is complete. -/
def finishWith (e : Expectation) (tree : Tree) (ts : List Token) : Except Stop (Tree × List Token) := do
  let (_, rest) ← expect (.sign .semicolon) e ts
  return (tree, rest)

/-- The variable named by a token. -/
def variableLeaf (t : Token) : Tree := .leaf .variable (t.text?.getD []) t.position

/-- The variable that a token names, if it is a name. -/
def nameLeaf? (t : Token) : Option Tree :=
  if t.kind = .identifier then some (variableLeaf t) else none

/-- Reads further leaves, each behind a comma. -/
def moreLeaves (leaf? : Token → Option Tree) (e : Expectation) : List Token → Reading (List Tree)
  | [] => .ok ([], [])
  | t :: rest =>
    if t.kind = .sign .comma then
      match rest with
      | [] => .error (.before e [])
      | u :: behind =>
        match leaf? u with
        | none => .error (.before e (u :: behind))
        | some leaf =>
          match moreLeaves leaf? e behind with
          | .error s => .error s
          | .ok (leaves, left) => .ok (leaf :: leaves, left)
    else .ok ([], t :: rest)

/-- Stops in front of a token that shows a mistake in a list of declared names. -/
def refuseBehindNames (ts : List Token) : Except Stop Unit :=
  match ts with
  | [] => .ok ()
  | t :: _ =>
    match t.kind with
    | .assign => .error (.before .singleInitialization ts)
    | .identifier => .error (.before .commaBetweenNames ts)
    | _ => .ok ()

/-- Reads the declaration that the type token `t` opens. -/
def declaration (type : Scalar) (t : Token) (ts : List Token) : Except Stop (Tree × List Token) := do
  let scalar := Tree.leaf .scalar type.spelling.toList t.position
  let (name, rest) ← expect .identifier (.declaredName type) ts
  match rest with
  | sign :: behind =>
    if sign.kind = .assign then
      let (initial, behind) ← (value .declaredValue).read behind
      finishWith .declarationSemicolon
        (.node ⟨.initialization, none, t.position⟩ [scalar, variableLeaf name, initial]) behind
    else
      let (names, behind) ← moreLeaves nameLeaf? .nextName rest
      refuseBehindNames behind
      finishWith .declarationSemicolon
        (.node ⟨.declaration, none, t.position⟩ (scalar :: variableLeaf name :: names)) behind
  | [] => .error (.before .declarationSemicolon [])

/-- Reads the assignment to the variable that the token `t` names. -/
def assignment (t : Token) (ts : List Token) : Except Stop (Tree × List Token) := do
  let target := t.text?.getD []
  let (_, rest) ← expect .assign (.assignSign target) ts
  let (assigned, rest) ← (value .assignedValue).read rest
  finishWith .assignmentSemicolon (.node ⟨.assignment, some target, t.position⟩ [assigned]) rest

/-- What a print argument is: the contents of a string or the name of a variable. -/
def contentLeaf? (t : Token) : Option Tree :=
  match t.kind with
  | .string | .identifier => some (.leaf .content (t.text?.getD []) t.position)
  | _ => none

/-- Reads the print statement that the token `t` opens. -/
def print (t : Token) (ts : List Token) : Except Stop (Tree × List Token) := do
  let (_, rest) ← expect (.sign .openParen) .printOpenParen ts
  let (first, rest) ← leafRead contentLeaf? .printArgument rest
  let (others, rest) ← moreLeaves contentLeaf? .printArgument rest
  let (_, rest) ← expect (.sign .closeParen) .printCloseParen rest
  finishWith .printSemicolon (.node ⟨.print, none, t.position⟩ (first :: others)) rest

/-- Reads the read statement that the token `t` opens. -/
def read (t : Token) (ts : List Token) : Except Stop (Tree × List Token) := do
  let (name, rest) ← expect .identifier .readName ts
  finishWith .readSemicolon (.node ⟨.read, none, t.position⟩ [variableLeaf name]) rest

end Imperativo.Grammar
