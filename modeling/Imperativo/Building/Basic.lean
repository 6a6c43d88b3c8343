import Imperativo.Grammar.Reading
import Imperativo.Tree.Arena

/-!
# Building while reading

The numbered form of a tree grows while its tokens are read: each part of the grammar adds its nodes
to the arena as soon as it has read them, children before parents.  A part that stops leaves behind
the nodes that it has added so far, and whoever goes on after the stop has to roll the arena back.

* `Builder` — a part of the grammar that adds nodes to an arena.
* `ofReading`, `addNode`, `addLeaf` — read without adding anything, add a node.
-/

namespace Imperativo.Building

open Grammar

/-- A part of the grammar that works on an arena.  When it stops the arena is as it was then. -/
abbrev Builder (α : Type) := EStateM Stop Arena α

/-- What reads tokens, adds nodes for them and comes to the numbers of the roots. -/
abbrev Part (α : Type) := List Token → Builder (α × List Token)

/-- Reads something that has no nodes. -/
def ofReading {α : Type} : Except Stop α → Builder α
  | .ok x => pure x
  | .error s => throw s

/-- Adds a node and comes to its number. -/
def addNode (heading : Heading) (children : List Nat) : Builder Nat := do
  let (id, arena) := (← get).add ⟨heading, children⟩
  set arena
  return id

/-- Adds the node of a tree that is a leaf. -/
def addLeaf (leaf : Tree) : Builder Nat := addNode leaf.heading []

end Imperativo.Building
