import Imperativo.Position

/-!
# Diagnostics

A diagnostic says what is wrong and where.  Reading a program has two stages and each has its own
causes.  A lexical fault carries the text it rejects and its message follows from it; a grammar
fault is a class only, and its message is composed where the grammar finds it.

* `LexicalFault.message` — what a lexical fault says.
* `GrammarError` — a grammar fault with its message and place.
* `Diagnostic.text` — a diagnostic as one line.
* `Diagnostic.place` — the pair by which diagnostics are put in order.
-/

namespace Imperativo

/-- The two stages of reading a program. -/
inductive Stage
  | lexical
  | grammar
  deriving DecidableEq, Repr

/-- The name of a stage in reports. -/
def Stage.name : Stage → String
  | .lexical => "Lexical"
  | .grammar => "Syntax"

/-! ## Lexical faults -/

/-- Why a character literal is rejected. -/
inductive CharacterProblem
  | unterminated
  | empty
  | tooLong
  deriving DecidableEq, Repr

/-- The problem in words. -/
def CharacterProblem.text : CharacterProblem → String
  | .unterminated => "missing closing quote"
  | .empty => "empty literal"
  | .tooLong => "more than one character"

/-- A span of a program that is no lexeme, with the text that is rejected. -/
inductive LexicalFault
  | illegalCharacter (c : Char)
  | malformedNumber (lexeme : Text)
  | invalidIdentifier (lexeme : Text)
  | invalidCharacter (lexeme : Text) (problem : CharacterProblem)
  | invalidOperator (lexeme : Text)
  deriving DecidableEq, Repr

namespace LexicalFault

/-- The name of a lexical fault in reports. -/
def name : LexicalFault → String
  | .illegalCharacter _ => "IllegalChar"
  | .malformedNumber _ => "MalformedNumber"
  | .invalidIdentifier _ => "InvalidIdentifier"
  | .invalidCharacter _ _ => "InvalidCharLiteral"
  | .invalidOperator _ => "InvalidOperator"

/-- The text that a lexical fault rejects. -/
def payload : LexicalFault → Text
  | .illegalCharacter c => [c]
  | .malformedNumber lexeme => lexeme
  | .invalidIdentifier lexeme => lexeme
  | .invalidCharacter lexeme _ => lexeme
  | .invalidOperator lexeme => lexeme

/-- What a lexical fault says. -/
def message : LexicalFault → Text
  | .illegalCharacter c => "illegal character '".toList ++ [c, '\'']
  | .malformedNumber lexeme => "malformed number '".toList ++ lexeme ++ ['\'']
  | .invalidIdentifier lexeme =>
    "invalid identifier '".toList ++ lexeme ++ "': identifiers cannot start with a digit".toList
  | .invalidCharacter lexeme problem =>
    "invalid character literal ".toList ++ lexeme ++ ": ".toList ++ problem.text.toList
  | .invalidOperator lexeme => "invalid operator '".toList ++ lexeme ++ ['\'']

end LexicalFault

/-! ## Grammar faults -/

/-- The classes of grammar errors. -/
inductive GrammarFault
  | missingSemicolon
  | malformedArguments
  | malformedDeclaration
  | malformedAssignment
  | missingOperand
  | malformedCondition
  | danglingElse
  | missingTerminate
  | unexpectedToken
  | unexpectedEnd
  deriving DecidableEq, Repr

namespace GrammarFault

/-- The name of a grammar fault in reports. -/
def name : GrammarFault → String
  | .missingSemicolon => "MissingSemicolon"
  | .malformedArguments => "MalformedArguments"
  | .malformedDeclaration => "MalformedDeclaration"
  | .malformedAssignment => "MalformedAssignment"
  | .missingOperand => "MissingOperand"
  | .malformedCondition => "MalformedCondition"
  | .danglingElse => "DanglingElse"
  | .missingTerminate => "MissingTerminate"
  | .unexpectedToken => "UnexpectedToken"
  | .unexpectedEnd => "UnexpectedEndOfInput"

/-- A grammar fault in words. -/
def text : GrammarFault → String
  | .missingSemicolon => "missing ';'"
  | .malformedArguments => "malformed argument list"
  | .malformedDeclaration => "malformed declaration"
  | .malformedAssignment => "malformed assignment"
  | .missingOperand => "missing operand"
  | .malformedCondition => "malformed condition"
  | .danglingElse => "'sino' without a preceding 'si'"
  | .missingTerminate => "missing 'terminar'"
  | .unexpectedToken => "unexpected token"
  | .unexpectedEnd => "unexpected end of input"

/-- Every grammar fault, once. -/
def all : List GrammarFault :=
  [.missingSemicolon, .malformedArguments, .malformedDeclaration, .malformedAssignment, .missingOperand,
   .malformedCondition, .danglingElse, .missingTerminate, .unexpectedToken, .unexpectedEnd]

/-- The grammar fault with a given name in reports. -/
def ofName? (name : String) : Option GrammarFault := all.find? fun f => f.name == name

end GrammarFault

/-! ## Diagnostics -/

/-- What a diagnostic is about, by stage. -/
inductive Cause
  | lexical (fault : LexicalFault)
  | grammar (fault : GrammarFault)
  deriving DecidableEq, Repr

/-- The stage of a cause. -/
def Cause.stage : Cause → Stage
  | .lexical _ => .lexical
  | .grammar _ => .grammar

/-- The name of a cause in reports. -/
def Cause.name : Cause → String
  | .lexical fault => fault.name
  | .grammar fault => fault.name

/-- One message about a program.  The column may be unknown. -/
structure Diagnostic where
  cause : Cause
  line : Nat
  column : Option Nat
  message : Text
  deriving DecidableEq, Repr

/-- A grammar fault with its message and the place where it was found. -/
structure GrammarError where
  fault : GrammarFault
  message : Text
  position : Position
  deriving DecidableEq, Repr

namespace GrammarError

/-- Only the end of the input cannot be recovered from. -/
def isFatal (e : GrammarError) : Bool := e.fault == .unexpectedEnd

/-- The error on its own, as one line. -/
def text (e : GrammarError) : Text :=
  "Parse error at line ".toList ++ Text.ofNat e.position.line ++ ", column ".toList ++
    Text.ofNat e.position.column ++ ": ".toList ++ e.message

/-- The error as an entry of a log. -/
def diagnostic (e : GrammarError) : Diagnostic :=
  ⟨.grammar e.fault, e.position.line, some e.position.column, e.message⟩

end GrammarError

namespace Diagnostic

/-- The diagnostic of a lexical fault found at `p`. -/
def ofLexical (fault : LexicalFault) (p : Position) : Diagnostic :=
  ⟨.lexical fault, p.line, some p.column, fault.message⟩

/-- The stage that a diagnostic comes from. -/
def stage (d : Diagnostic) : Stage := d.cause.stage

/-- The lexical fault of a diagnostic, if it has one. -/
def lexicalFault? (d : Diagnostic) : Option LexicalFault :=
  match d.cause with
  | .lexical fault => some fault
  | .grammar _ => none

/-- The grammar fault of a diagnostic, if it has one. -/
def grammarFault? (d : Diagnostic) : Option GrammarFault :=
  match d.cause with
  | .lexical _ => none
  | .grammar fault => some fault

/-- Line and column, an unknown column counting as zero. -/
def place (d : Diagnostic) : Nat × Nat := (d.line, d.column.getD 0)

/-- Whether `d` stands at the place of `e` or before it. -/
def atOrBefore (d e : Diagnostic) : Bool :=
  d.line < e.line || (d.line == e.line && d.column.getD 0 ≤ e.column.getD 0)

/-- A diagnostic as one line. -/
def text (d : Diagnostic) : Text :=
  d.stage.name.toList ++ " error (".toList ++ d.cause.name.toList ++ ") at line ".toList ++ Text.ofNat d.line ++
    (match d.column with
      | some column => ", column ".toList ++ Text.ofNat column
      | none => []) ++
    ": ".toList ++ d.message

end Diagnostic

end Imperativo
