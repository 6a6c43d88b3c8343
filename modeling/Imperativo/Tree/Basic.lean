import Imperativo.Position
import Imperativo.Token.Kind

/-!
# Syntax trees

A tree node has a kind, for some kinds a label, a place in the program, and children in order:

* a program is labelled with its name and has a block and a `terminar` node;
* a block has the statements;
* a declaration has a type and the variables, an initialization a type, a variable and an
  expression;
* an assignment is labelled with its variable and has an expression;
* a print statement has the contents to print, a read statement a variable;
* a loop and a conditional have a condition and a block, an alternative a condition and two blocks;
* a comparison is labelled with its relation and has two expressions, a combination is labelled with
  its connective and has two conditions, a binary operation has two expressions;
* numbers, variables, contents and types are labelled leaves.

`Tree` is the tree itself; the numbered form, in which nodes refer to one another, is an `Arena`.
-/

namespace Imperativo

/-- The kinds of tree nodes. -/
inductive NodeKind
  | program
  | block
  | declaration
  | initialization
  | assignment
  | print
  | content
  | read
  | loop
  | conditional
  | alternative
  | comparison
  | combination
  | number
  | variable
  | binary (op : Arithmetic)
  | terminate
  | scalar
  deriving DecidableEq, Repr

namespace NodeKind

/-- The name of a node kind in outlines and graphs. -/
def name : NodeKind → String
  | .program => "Program"
  | .block => "Statements"
  | .declaration => "Declaration"
  | .initialization => "DeclarationAssign"
  | .assignment => "Assignment"
  | .print => "Print"
  | .content => "Content"
  | .read => "Read"
  | .loop => "While"
  | .conditional => "If"
  | .alternative => "IfElse"
  | .comparison => "Condition"
  | .combination => "ConditionLogic"
  | .number => "Number"
  | .variable => "Variable"
  | .binary .add => "Add"
  | .binary .sub => "Sub"
  | .binary .mul => "Mul"
  | .binary .div => "Div"
  | .terminate => "Terminate"
  | .scalar => "Type"

/-- Every node kind, once. -/
def all : List NodeKind :=
  [.program, .block, .declaration, .initialization, .assignment, .print, .content, .read, .loop, .conditional,
   .alternative, .comparison, .combination, .number, .variable, .binary .add, .binary .sub, .binary .mul,
   .binary .div, .terminate, .scalar]

/-- The node kind with a given name. -/
def ofName? (name : String) : Option NodeKind := all.find? fun k => k.name == name

end NodeKind

/-- What a node says apart from its children. -/
structure Heading where
  kind : NodeKind
  label : Option Text
  position : Position
  deriving DecidableEq, Repr

/-- A heading in outlines and graphs: the kind, and the label behind a colon if there is one. -/
def Heading.text (h : Heading) : Text :=
  match h.label with
  | some label => h.kind.name.toList ++ ": ".toList ++ label
  | none => h.kind.name.toList

/-- A syntax tree: a heading over its children. -/
inductive Tree
  | node (heading : Heading) (children : List Tree)
  deriving Repr

namespace Tree

/-- The heading at the root. -/
def heading : Tree → Heading
  | .node heading _ => heading

/-- The subtrees right below the root. -/
def children : Tree → List Tree
  | .node _ children => children

/-- A labelled node without children. -/
def leaf (kind : NodeKind) (label : Text) (position : Position) : Tree :=
  .node ⟨kind, some label, position⟩ []

end Tree

end Imperativo
