import Imperativo.Building.Basic
import Imperativo.Grammar.Condition

/-!
# Building expressions and conditions

An operand is a leaf; a chain adds the node of an operator behind both of its sides, so a stop on
the right side leaves the nodes of the left one in the arena.

* `chain` — an item and the further ones joined to it.
* `expression`, `value`, `condition` — the parts with these names.
-/

namespace Imperativo.Building

open Grammar

/-! ## Leaves and chains -/

/-- Adds the leaf that one token is. -/
def leaf (leaf? : Token → Option Tree) (e : Expectation) : Part Nat
  | [] => throw (.before e [])
  | t :: rest =>
    match leaf? t with
    | some tree => do
      let id ← addLeaf tree
      return (id, rest)
    | none => throw (.before e (t :: rest))

/-- Joins further items to the one whose root is `left`.  Every turn uses up an operator, so as many
turns as there are tokens suffice. -/
def chainWithin (join? : Token → Option Heading) (item : Part Nat) : Nat → Nat → Part Nat
  | 0, left, ts => return (left, ts)
  | _ + 1, left, [] => return (left, [])
  | turns + 1, left, t :: rest =>
    match join? t with
    | none => return (left, t :: rest)
    | some heading => do
      let (right, behind) ← item rest
      let id ← addNode heading [left, right]
      chainWithin join? item turns id behind

/-- An item and the further ones joined to it. -/
def chain (join? : Token → Option Heading) (item : Part Nat) : Part Nat := fun ts => do
  let (left, rest) ← item ts
  chainWithin join? item rest.length left rest

/-! ## Expressions -/

/-- The number or variable that an operand is. -/
def operand : Part Nat := leaf operandLeaf? .operand

/-- Operands joined by multiplication and division. -/
def term : Part Nat := chain joinTerm? operand

/-- Terms joined by addition and subtraction. -/
def expression : Part Nat := chain joinSum? term

/-- An expression where `missing` names what is expected. -/
def value (missing : Expectation) : Part Nat
  | [] => throw (.before missing [])
  | t :: rest =>
    match t.kind with
    | .integer | .float | .identifier => expression (t :: rest)
    | .arithmetic op => throw (.before (.leftOperand op) (t :: rest))
    | _ => throw (.before missing (t :: rest))

/-! ## Conditions -/

/-- A comparison; a second relation is refused before the node of the first one is added. -/
def comparison : Part Nat := fun ts => do
  let (left, rest) ← value .leftExpression ts
  let ((t, op), rest) ← ofReading (relationRead rest)
  let (right, rest) ← value .rightExpression rest
  ofReading (refuseRelation rest)
  let id ← addNode ⟨.comparison, some op.spelling.toList, t.position⟩ [left, right]
  return (id, rest)

/-- Comparisons that must all hold. -/
def conjunction : Part Nat := chain (joinCondition? true) comparison

/-- Conjunctions one of which must hold. -/
def disjunction : Part Nat := chain (joinCondition? false) conjunction

/-- A condition; its stops are classed as malformed conditions. -/
def condition : Part Nat := fun ts =>
  (disjunction ts).adaptExcept fun s => { s with fault := .malformedCondition }

end Imperativo.Building
