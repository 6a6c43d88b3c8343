import Imperativo.Building.Expression
import Imperativo.Grammar.Block

/-!
# Building statements

A statement adds the nodes of its parts one by one and its own node last, so a broken one may have
added any number of them.  The list it stands in takes a mark in front of each statement, and rolls
the arena back to that mark when the statement is broken.

* `declaration`, `assignment`, `print`, `read` — the statements without blocks.
* `recovered` — keeps a statement, or rolls the arena back and passes over it.
* `statements` — the statements of a list.
-/

namespace Imperativo.Building

open Grammar

/-! ## Statements without blocks -/

/-- Reads a semicolon, then adds the node of the statement that it completes. -/
def finishWith (e : Expectation) (heading : Heading) (children : List Nat) :
    Part Nat := fun ts => do
  let (_, rest) ← ofReading (expect (.sign .semicolon) e ts)
  let id ← addNode heading children
  return (id, rest)

/-- Adds further leaves, each behind a comma. -/
def moreLeaves (leaf? : Token → Option Tree) (e : Expectation) : Part (List Nat)
  | [] => return ([], [])
  | t :: rest =>
    if t.kind = .sign .comma then
      match rest with
      | [] => throw (.before e [])
      | u :: behind =>
        match leaf? u with
        | none => throw (.before e (u :: behind))
        | some tree => do
          let id ← addLeaf tree
          let (ids, left) ← moreLeaves leaf? e behind
          return (id :: ids, left)
    else return ([], t :: rest)

/-- The declaration that the type token `t` opens. -/
def declaration (type : Scalar) (t : Token) : Part Nat := fun ts => do
  let scalar ← addLeaf (.leaf .scalar type.spelling.toList t.position)
  let (name, rest) ← ofReading (expect .identifier (.declaredName type) ts)
  let declared ← addLeaf (variableLeaf name)
  match rest with
  | sign :: behind =>
    if sign.kind = .assign then
      let (initial, behind) ← value .declaredValue behind
      finishWith .declarationSemicolon ⟨.initialization, none, t.position⟩
        [scalar, declared, initial] behind
    else
      let (names, behind) ← moreLeaves nameLeaf? .nextName rest
      ofReading (refuseBehindNames behind)
      finishWith .declarationSemicolon ⟨.declaration, none, t.position⟩
        (scalar :: declared :: names) behind
  | [] => throw (.before .declarationSemicolon [])

/-- The assignment to the variable that the token `t` names. -/
def assignment (t : Token) : Part Nat := fun ts => do
  let target := t.text?.getD []
  let (_, rest) ← ofReading (expect .assign (.assignSign target) ts)
  let (assigned, rest) ← value .assignedValue rest
  finishWith .assignmentSemicolon ⟨.assignment, some target, t.position⟩ [assigned] rest

/-- The print statement that the token `t` opens. -/
def print (t : Token) : Part Nat := fun ts => do
  let (_, rest) ← ofReading (expect (.sign .openParen) .printOpenParen ts)
  let (first, rest) ← leaf contentLeaf? .printArgument rest
  let (others, rest) ← moreLeaves contentLeaf? .printArgument rest
  let (_, rest) ← ofReading (expect (.sign .closeParen) .printCloseParen rest)
  finishWith .printSemicolon ⟨.print, none, t.position⟩ (first :: others) rest

/-- The read statement that the token `t` opens. -/
def read (t : Token) : Part Nat := fun ts => do
  let (name, rest) ← ofReading (expect .identifier .readName ts)
  let target ← addLeaf (variableLeaf name)
  finishWith .readSemicolon ⟨.read, none, t.position⟩ [target] rest

/-! ## Statements with blocks -/

/-- Adds the node of a list of statements that starts in front of `ts`. -/
def addBlock (ts : List Token) (ids : List Nat) : Builder Nat :=
  addNode ⟨.block, none, nextPosition ts⟩ ids

/-- A block of the statement that `owner` opens.  Its node is there before the brace that closes it
is looked for. -/
def block (inside : Part (List Nat)) (owner : Word) : Part Nat := fun ts => do
  let (_, start) ← ofReading (expect (.sign .openBrace) (.blockOpen owner) ts)
  let (ids, rest) ← inside start
  let id ← addBlock start ids
  let (_, rest) ← ofReading (expect (.sign .closeBrace) (.blockClose owner) rest)
  return (id, rest)

/-- The condition, in parentheses, of the statement that `owner` opens. -/
def guarded (owner : Word) : Part Nat := fun ts => do
  let (_, rest) ← ofReading (expect (.sign .openParen) (.conditionOpenParen owner) ts)
  let (test, rest) ← condition rest
  let (_, rest) ← ofReading (expect (.sign .closeParen) (.conditionCloseParen owner) rest)
  return (test, rest)

/-- The loop that the token `t` opens. -/
def loop (inside : Part (List Nat)) (t : Token) : Part Nat := fun ts => do
  let (test, rest) ← guarded .mientras ts
  let (body, rest) ← block inside .mientras rest
  let id ← addNode ⟨.loop, none, t.position⟩ [test, body]
  return (id, rest)

/-- The conditional that the token `t` opens, with its second block if it has one. -/
def conditional (inside : Part (List Nat)) (t : Token) : Part Nat := fun ts => do
  let (test, rest) ← guarded .si ts
  let (yes, rest) ← block inside .si rest
  if otherwiseFollows rest then
    let (no, rest) ← block inside .sino (rest.drop 1)
    let id ← addNode ⟨.alternative, none, t.position⟩ [test, yes, no]
    return (id, rest)
  else
    let id ← addNode ⟨.conditional, none, t.position⟩ [test, yes]
    return (id, rest)

/-- One statement, the statements of its blocks being built by `inside`. -/
def statement (inside : Part (List Nat)) : Part Nat
  | [] => throw (.before .statement [])
  | t :: rest =>
    match t.kind with
    | .scalar type => declaration type t rest
    | .identifier => assignment t rest
    | .word .imprimir => print t rest
    | .word .leer => read t rest
    | .word .mientras => loop inside t rest
    | .word .si => conditional inside t rest
    | _ => throw (.before (misplaced (t :: rest)) (t :: rest))

/-! ## Lists of statements -/

/-- Keeps the statement that was built.  A broken one is rolled back, whatever it has added, and
passed over unless the input has ended. -/
def recovered (b : Builder (Nat × List Token)) : Builder (List Nat × List Token) := fun arena =>
  match b arena with
  | .ok (id, rest) arena' => .ok ([id], rest) arena'
  | .error s arena' =>
    let arena'' := arena'.truncate arena.mark
    if s.isFatal then .error s arena'' else .ok ([], (resynchronize s.rest).2) arena''

/-- The statements up to the end of their list; as many turns as there are tokens suffice. -/
def statementsWithin : Nat → Bool → Part (List Nat)
  | 0, _, ts => return ([], ts)
  | turns + 1, body, ts => do
    if endsStatements body ts then return ([], ts)
    let (first, rest) ← recovered (statement (statementsWithin turns false) ts)
    let (others, rest) ← statementsWithin turns body rest
    return (first ++ others, rest)

/-- The statements of a block, or of the program when `body` holds, up to the end of their list. -/
def statements (body : Bool) : Part (List Nat) := fun ts => statementsWithin ts.length body ts

end Imperativo.Building
