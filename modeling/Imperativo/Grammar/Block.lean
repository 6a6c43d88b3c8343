import Imperativo.Grammar.Statement

/-!
# Blocks and lists of statements

    statement   ::= declaration | assignment | print | read | loop | conditional
    loop        ::= 'mientras' '(' condition ')' block
    conditional ::= 'si' '(' condition ')' block ('sino' block)?
    block       ::= open-brace statement* close-brace

A broken statement costs one error.  After it the tokens are passed over up to the next place where
a statement can start, and reading goes on there; only the end of the input is final.

* `resynchronize` — finds that place.
* `statement` — one statement, given how to read the statements of a block.
* `statements` — the statements up to the end of the list they belong to.
-/

namespace Imperativo.Grammar

/-! ## Passing over a broken statement -/

/-- Whether the parser is still looking for a place to go on. -/
inductive Mode
  | normal
  | panic
  deriving DecidableEq, Repr

/-- Passes over tokens with `depth` opened braces around them, through the semicolon or the brace
that ends the broken statement. -/
def resynchronizeAt (depth : Nat) : List Token → Mode × List Token
  | [] => (.panic, [])
  | t :: rest =>
    match t.kind with
    | .sign .openBrace => resynchronizeAt (depth + 1) rest
    | .sign .closeBrace =>
      match depth with
      | 0 => (.normal, t :: rest)
      | 1 => (.normal, rest)
      | outer + 2 => resynchronizeAt (outer + 1) rest
    | .sign .semicolon =>
      match depth with
      | 0 => (.normal, rest)
      | _ + 1 => resynchronizeAt depth rest
    | _ => resynchronizeAt depth rest

/-- The tokens from where reading can go on.  A semicolon ends the broken statement, and so does the
brace that closes a block of it; a closing brace that belongs to the surrounding block stays.  The
mode is normal again unless the input runs out first. -/
def resynchronize (ts : List Token) : Mode × List Token := resynchronizeAt 0 ts

/-! ## One statement -/

/-- How the statements of a block are read. -/
abbrev BlockReader := List Token → Run (List Tree × List Token)

/-- The node of a list of statements that starts in front of `ts`. -/
def blockNode (ts : List Token) (trees : List Tree) : Tree := .node ⟨.block, none, nextPosition ts⟩ trees

/-- Reads a block of the statement that `owner` opens. -/
def block (inside : BlockReader) (owner : Word) (ts : List Token) : Run (Tree × List Token) := do
  let (_, start) ← Run.ofReading (expect (.sign .openBrace) (.blockOpen owner) ts)
  let (trees, rest) ← inside start
  let (_, rest) ← Run.ofReading (expect (.sign .closeBrace) (.blockClose owner) rest)
  return (blockNode start trees, rest)

/-- Reads the condition, in parentheses, of the statement that `owner` opens. -/
def guarded (owner : Word) (ts : List Token) : Except Stop (Tree × List Token) := do
  let (_, rest) ← expect (.sign .openParen) (.conditionOpenParen owner) ts
  let (test, rest) ← condition.read rest
  let (_, rest) ← expect (.sign .closeParen) (.conditionCloseParen owner) rest
  return (test, rest)

/-- Reads the loop that the token `t` opens. -/
def loop (inside : BlockReader) (t : Token) (ts : List Token) : Run (Tree × List Token) := do
  let (test, rest) ← Run.ofReading (guarded .mientras ts)
  let (body, rest) ← block inside .mientras rest
  return (.node ⟨.loop, none, t.position⟩ [test, body], rest)

/-- Whether the next token is `sino`. -/
def otherwiseFollows : List Token → Bool
  | [] => false
  | t :: _ => t.kind == .word .sino

/-- Reads the conditional that the token `t` opens, with its second block if it has one. -/
def conditional (inside : BlockReader) (t : Token) (ts : List Token) : Run (Tree × List Token) := do
  let (test, rest) ← Run.ofReading (guarded .si ts)
  let (yes, rest) ← block inside .si rest
  if otherwiseFollows rest then
    let (no, rest) ← block inside .sino (rest.drop 1)
    return (.node ⟨.alternative, none, t.position⟩ [test, yes, no], rest)
  else
    return (.node ⟨.conditional, none, t.position⟩ [test, yes], rest)

/-- What is wrong with tokens that start no statement. -/
def misplaced : List Token → Expectation
  | [] => .statement
  | t :: rest =>
    match t.kind with
    | .integer | .float | .character | .string =>
      if (rest.head?.map Token.kind) = some .assign then .assignable else .statement
    | .word .sino => .elseBehindIf
    | .word .terminar => .terminateLast
    | _ => .statement

/-- Reads one statement, the statements of its blocks being read by `inside`. -/
def statement (inside : BlockReader) (ts : List Token) : Run (Tree × List Token) :=
  match ts with
  | [] => Run.stopped (.before .statement [])
  | t :: rest =>
    match t.kind with
    | .scalar type => Run.ofReading (declaration type t rest)
    | .identifier => Run.ofReading (assignment t rest)
    | .word .imprimir => Run.ofReading (print t rest)
    | .word .leer => Run.ofReading (read t rest)
    | .word .mientras => loop inside t rest
    | .word .si => conditional inside t rest
    | _ => Run.stopped (.before (misplaced (t :: rest)) (t :: rest))

/-! ## Lists of statements -/

/-- Whether a list of statements ends in front of `ts`: at the end of the input, at a closing brace
and, in the body of the program, at `terminar`. -/
def endsStatements (body : Bool) : List Token → Bool
  | [] => true
  | t :: _ => t.kind == .sign .closeBrace || (body && t.kind == .word .terminar)

/-- Keeps the statement that was read, or reports it as broken and passes over it. -/
def recovered (r : Run (Tree × List Token)) : Run (List Tree × List Token) :=
  match r.outcome with
  | .ok (tree, rest) => ⟨r.passed, .ok ([tree], rest)⟩
  | .error s => Run.andThen ⟨r.passed, .ok ()⟩ fun _ =>
      Run.andThen (Run.passOver s) fun _ => Run.done ([], (resynchronize s.rest).2)

/-- Reads statements up to the end of their list.  Every turn uses up a token, of this list or of a
block in it, so as many turns as there are tokens suffice. -/
def statementsWithin : Nat → Bool → BlockReader
  | 0, _, ts => Run.done ([], ts)
  | turns + 1, body, ts =>
    if endsStatements body ts then Run.done ([], ts)
    else do
      let (first, rest) ← recovered (statement (statementsWithin turns false) ts)
      let (others, rest) ← statementsWithin turns body rest
      return (first ++ others, rest)

/-- Reads the statements of a block, or of the program when `body` holds, up to the end of their
list. -/
def statements (body : Bool) (ts : List Token) : Run (List Tree × List Token) :=
  statementsWithin ts.length body ts

end Imperativo.Grammar
