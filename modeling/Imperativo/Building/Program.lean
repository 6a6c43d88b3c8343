import Imperativo.Building.Statement
import Imperativo.Grammar.Program

/-!
# Building programs

The heading and the end of a program have no nodes and are read as they are.  The node of the
statements is there before `terminar` is looked for, and the node of the program comes last of all.

* `program` — a whole program.
* `all` — all tokens as one part.
-/

namespace Imperativo.Building

open Grammar

/-- The node of `terminar;`, or none when it is missing. -/
def terminate : Part (List Nat) := fun ts =>
  match expect (.word .terminar) .terminate ts with
  | .ok (t, rest) => do
    let rest ← ofReading (terminateSemicolon rest).outcome
    let id ← addNode ⟨.terminate, none, t.position⟩ []
    return ([id], rest)
  | .error s => do
    ofReading (Run.passOver s).outcome
    return ([], ts)

/-- A whole program. -/
def program (ts : List Token) : Builder Nat := do
  let (name, start) ← ofReading (opening ts).outcome
  let (ids, rest) ← statements true start
  let body ← addBlock start ids
  let (terminator, rest) ← terminate rest
  let rest ← ofReading (closing rest).outcome
  ofReading (trailing rest).outcome
  addNode ⟨.program, name, nextPosition ts⟩ (body :: terminator)

/-- All tokens as one part; a token behind it is refused. -/
def all (part : Part Nat) (ts : List Token) : Builder Nat := do
  let (id, rest) ← part ts
  match rest with
  | [] => return id
  | t :: more => throw (.before .endOfExpression (t :: more))

/-- The numbered tree that a builder comes to on an arena of its own. -/
def ast? (b : Builder Nat) : Option Ast :=
  match b Arena.empty with
  | .ok root arena => some (arena.finish root)
  | .error _ _ => none

end Imperativo.Building
