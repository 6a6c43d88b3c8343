import Imperativo.Grammar.Block

/-!
# Programs

    program   ::= 'programa' IDENTIFIER '(' ')' open-brace statement* terminate close-brace
    terminate ::= 'terminar' ';'

A broken heading costs the name of the program, and reading goes on behind the first opening brace.
A program that is closed without `terminar` is reported and has no `terminar` node.  What follows
the end of the program is reported once and not read.

* `heading` — the heading up to the opening brace.
* `program` — a whole program.
-/

namespace Imperativo.Grammar

/-- Reads the heading of a program and gives its name. -/
def heading (ts : List Token) : Except Stop (Text × List Token) := do
  let (_, rest) ← expect (.word .programa) .programWord ts
  let (name, rest) ← expect .identifier .programName rest
  let (_, rest) ← expect (.sign .openParen) .programOpenParen rest
  let (_, rest) ← expect (.sign .closeParen) .programCloseParen rest
  let (_, rest) ← expect (.sign .openBrace) .bodyOpen rest
  return (name.text?.getD [], rest)

/-- The tokens behind the first opening brace. -/
def behindOpenBrace : List Token → Except Stop (List Token)
  | [] => .error (.before .bodyOpen [])
  | t :: rest => if t.kind = .sign .openBrace then .ok rest else behindOpenBrace rest

/-- The tokens behind the closing brace of the block around the first of `ts`, which is itself
inside `depth` further ones. -/
def behindCloseBrace (depth : Nat) : List Token → Except Stop (List Token)
  | [] => .error (.before .bodyClose [])
  | t :: rest =>
    match t.kind with
    | .sign .openBrace => behindCloseBrace (depth + 1) rest
    | .sign .closeBrace =>
      match depth with
      | 0 => .ok rest
      | outer + 1 => behindCloseBrace outer rest
    | _ => behindCloseBrace depth rest

/-- Reads the heading, or reports it and goes on behind the first opening brace without a name. -/
def opening (ts : List Token) : Run (Option Text × List Token) :=
  match heading ts with
  | .ok (name, rest) => Run.done (some name, rest)
  | .error s => do
    Run.passOver s
    let rest ← Run.ofReading (behindOpenBrace s.rest)
    return (none, rest)

/-- Reads the semicolon behind `terminar`, or reports that it is missing and passes over what stands
there. -/
def terminateSemicolon (ts : List Token) : Run (List Token) :=
  match expect (.sign .semicolon) .terminateSemicolon ts with
  | .ok (_, rest) => Run.done rest
  | .error s => do
    Run.passOver s
    return (resynchronize s.rest).2

/-- Reads `terminar;` and gives its node, or reports that it is missing. -/
def terminate (ts : List Token) : Run (List Tree × List Token) :=
  match expect (.word .terminar) .terminate ts with
  | .ok (t, rest) => do
    let rest ← terminateSemicolon rest
    return ([.node ⟨.terminate, none, t.position⟩ []], rest)
  | .error s => do
    Run.passOver s
    return ([], ts)

/-- Reads the brace that closes the program, or reports what stands there and goes on behind that
brace. -/
def closing (ts : List Token) : Run (List Token) :=
  match expect (.sign .closeBrace) .closeAfterTerminate ts with
  | .ok (_, rest) => Run.done rest
  | .error s => do
    Run.passOver s
    Run.ofReading (behindCloseBrace 0 s.rest)

/-- Reports the first token behind the end of the program. -/
def trailing : List Token → Run Unit
  | [] => Run.done ()
  | t :: rest => Run.passOver (.before .endOfProgram (t :: rest))

/-- Reads a whole program. -/
def program (ts : List Token) : Run Tree := do
  let (name, start) ← opening ts
  let (trees, rest) ← statements true start
  let (terminator, rest) ← terminate rest
  let rest ← closing rest
  trailing rest
  return .node ⟨.program, name, nextPosition ts⟩ (blockNode start trees :: terminator)

end Imperativo.Grammar
