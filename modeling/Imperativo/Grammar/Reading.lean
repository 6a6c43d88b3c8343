import Imperativo.Diagnostic.Basic
import Imperativo.Token.Basic
import Imperativo.Tree.Basic

/-!
# Readings

A part of the grammar reads tokens from the front of a list and comes to a value and the tokens
behind it, or it stops.  It always stops in front of the token it cannot use, so a stop is what was
expected there, together with the tokens from there on; with no token left the input has ended too
early.

* `Expectation` — everything the grammar can be waiting for, with its wording and its class of
  fault.
* `Stop` — where a reading stopped, and why.
* `Reading` — the outcome of a part that is read in one go.
* `Run` — the outcome of a part inside which broken statements are passed over.
* `Production` — a part of the grammar that uses up a token whenever it succeeds.
-/

namespace Imperativo.Grammar

/-! ## What the grammar waits for -/

/-- What can be expected at a token.  Blocks and conditions are named by the word that opens their
statement. -/
inductive Expectation
  | programWord
  | programName
  | programOpenParen
  | programCloseParen
  | bodyOpen
  | bodyClose
  | terminate
  | terminateSemicolon
  | closeAfterTerminate
  | endOfProgram
  | endOfExpression
  | declaredName (type : Scalar)
  | declaredValue
  | nextName
  | singleInitialization
  | commaBetweenNames
  | declarationSemicolon
  | assignSign (target : Text)
  | assignedValue
  | assignmentSemicolon
  | assignable
  | printOpenParen
  | printArgument
  | printCloseParen
  | printSemicolon
  | readName
  | readSemicolon
  | conditionOpenParen (owner : Word)
  | conditionCloseParen (owner : Word)
  | blockOpen (owner : Word)
  | blockClose (owner : Word)
  | statement
  | elseBehindIf
  | terminateLast
  | operand
  | leftOperand (op : Arithmetic)
  | leftExpression
  | relation
  | rightExpression
  | singleRelation (op : Relation)
  deriving DecidableEq, Repr

namespace Expectation

/-- The class of fault that a disappointed expectation is. -/
def fault : Expectation → GrammarFault
  | .terminate => .missingTerminate
  | .terminateSemicolon | .declarationSemicolon | .assignmentSemicolon | .printSemicolon | .readSemicolon =>
    .missingSemicolon
  | .declaredName _ | .declaredValue | .nextName | .singleInitialization | .commaBetweenNames =>
    .malformedDeclaration
  | .assignSign _ | .assignedValue | .assignable => .malformedAssignment
  | .printOpenParen | .printArgument | .printCloseParen => .malformedArguments
  | .conditionOpenParen _ | .conditionCloseParen _ | .leftExpression | .relation | .rightExpression
  | .singleRelation _ => .malformedCondition
  | .elseBehindIf => .danglingElse
  | .operand | .leftOperand _ => .missingOperand
  | _ => .unexpectedToken

/-- An expectation in words. -/
def phrase : Expectation → Text
  | .programWord => "expected 'programa' at the start of the program".toList
  | .programName => "expected identifier as the program name".toList
  | .programOpenParen => "expected '(' after the program name".toList
  | .programCloseParen => "expected ')' in the program header".toList
  | .bodyOpen => "expected '\x7b' to open the program body".toList
  | .bodyClose => "expected '\x7d' to close the program".toList
  | .terminate => "expected 'terminar;' before the end of the program".toList
  | .terminateSemicolon => "expected ';' after 'terminar'".toList
  | .closeAfterTerminate => "expected '\x7d' after 'terminar;'".toList
  | .endOfProgram => "after the end of the program".toList
  | .endOfExpression => "after the end of the expression".toList
  | .declaredName type => "expected identifier after ".toList ++ (Kind.scalar type).description
  | .declaredValue => "expected an expression after '=' in declaration".toList
  | .nextName => "expected identifier after ','".toList
  | .singleInitialization => "only a single variable can be initialized in a declaration".toList
  | .commaBetweenNames => "expected ',' between variable names".toList
  | .declarationSemicolon => "expected ';' after declaration".toList
  | .assignSign target => "expected '=' after '".toList ++ target ++ ['\'']
  | .assignedValue => "expected an expression after '='".toList
  | .assignmentSemicolon => "expected ';' after assignment".toList
  | .assignable => "only a variable can be assigned to".toList
  | .printOpenParen => "expected '(' after 'imprimir'".toList
  | .printArgument => "expected a string or a variable to print".toList
  | .printCloseParen => "expected ')' to close the 'imprimir' arguments".toList
  | .printSemicolon => "expected ';' after 'imprimir(...)'".toList
  | .readName => "expected identifier after 'leer'".toList
  | .readSemicolon => "expected ';' after 'leer'".toList
  | .conditionOpenParen owner => "expected '(' after ".toList ++ (Kind.word owner).description
  | .conditionCloseParen owner =>
    "expected ')' to close the ".toList ++ (Kind.word owner).description ++ " condition".toList
  | .blockOpen owner => "expected '\x7b' to open the ".toList ++ (Kind.word owner).description ++ " block".toList
  | .blockClose owner => "expected '\x7d' to close the ".toList ++ (Kind.word owner).description ++ " block".toList
  | .statement => "expected a statement".toList
  | .elseBehindIf => "'sino' must follow the block of a 'si'".toList
  | .terminateLast => "'terminar' may only end the program".toList
  | .operand => "expected a number or a variable as operand".toList
  | .leftOperand op => "missing left operand of ".toList ++ (Kind.arithmetic op).description
  | .leftExpression => "expected an expression on the left of the comparison".toList
  | .relation => "expected a comparison operator".toList
  | .rightExpression => "expected an expression on the right of the comparison".toList
  | .singleRelation op => "comparisons cannot be chained with ".toList ++ (Kind.relation op).description

/-- The message when `t` stands where something else is expected. -/
def messageAt (e : Expectation) (t : Token) : Text :=
  match e with
  | .endOfProgram | .endOfExpression => "unexpected ".toList ++ t.description ++ ' ' :: e.phrase
  | _ => e.phrase ++ ", found ".toList ++ t.description

/-- The message when the input ends where something is expected. -/
def messageAtEnd (e : Expectation) : Text :=
  (match e with
    | .operand => "expected a number or a variable".toList
    | _ => e.phrase) ++ ", found end of input".toList

end Expectation

/-! ## Stops -/

/-- A disappointed expectation, the class of fault it counts as, and the tokens from there on. -/
structure Stop where
  expectation : Expectation
  fault : GrammarFault
  rest : List Token
  deriving DecidableEq, Repr

namespace Stop

/-- The stop in front of `rest`, where `e` was expected. -/
def before (e : Expectation) (rest : List Token) : Stop := ⟨e, e.fault, rest⟩

/-- Whether the input has ended. -/
def isFatal (s : Stop) : Bool := s.rest.isEmpty

/-- The error of a stop, when `last` is the place to report if the input has ended. -/
def error (last : Position) (s : Stop) : GrammarError :=
  match s.rest with
  | t :: _ => ⟨s.fault, s.expectation.messageAt t, t.position⟩
  | [] => ⟨.unexpectedEnd, s.expectation.messageAtEnd, last⟩

end Stop

/-! ## Outcomes -/

/-- A value with the tokens behind it, or a stop. -/
abbrev Reading (α : Type) := Except Stop (α × List Token)

/-- An outcome together with the stops that were passed over on the way. -/
structure Run (α : Type) where
  passed : List Stop
  outcome : Except Stop α

namespace Run

/-- The run that comes to `x` without a stop. -/
def done {α : Type} (x : α) : Run α := ⟨[], .ok x⟩

/-- The run that stops at once. -/
def stopped {α : Type} (s : Stop) : Run α := ⟨[], .error s⟩

/-- A run and, unless it stops, another behind it; the stops that they pass over follow one
another. -/
def andThen {α β : Type} (r : Run α) (next : α → Run β) : Run β :=
  match r.outcome with
  | .error s => ⟨r.passed, .error s⟩
  | .ok x => ⟨r.passed ++ (next x).passed, (next x).outcome⟩

instance : Monad Run where
  pure := done
  bind := andThen

/-- The run that reads something in one go. -/
def ofReading {α : Type} : Except Stop α → Run α
  | .ok x => done x
  | .error s => stopped s

/-- Passes over a stop.  The end of the input cannot be passed over. -/
def passOver (s : Stop) : Run Unit :=
  match s.rest with
  | [] => stopped s
  | _ :: _ => ⟨[s], .ok ()⟩

/-- Every stop of a run: those that were passed over and, if the run stopped, the final one. -/
def stops {α : Type} (r : Run α) : List Stop :=
  match r.outcome with
  | .ok _ => r.passed
  | .error s => r.passed ++ [s]

end Run

/-! ## Productions -/

/-- A part of the grammar, with the promise that it uses up a token when it succeeds. -/
structure Production where
  read : List Token → Reading Tree
  shortens : ∀ {ts : List Token} {t : Tree} {rest : List Token}, read ts = .ok (t, rest) → rest.length < ts.length

/-- Reads one token of kind `k`. -/
def expect (k : Kind) (e : Expectation) : List Token → Reading Token
  | [] => .error (.before e [])
  | t :: rest => if t.kind = k then .ok (t, rest) else .error (.before e (t :: rest))

/-- The place of the next token. -/
def nextPosition : List Token → Position
  | [] => Position.start
  | t :: _ => t.position

/-- The place of the last token. -/
def lastPosition (ts : List Token) : Position := (ts.getLast?.map Token.position).getD Position.start

end Imperativo.Grammar
