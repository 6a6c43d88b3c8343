import Imperativo.Building.Program
import Imperativo.Diagnostic.Log
import Imperativo.Token.Stream

/-!
# Parsing

A parser holds the tokens still to be read and the diagnostics so far.  It reads all its tokens as a
program, an expression or a condition, and comes to a log and, unless reading stopped, a tree, once
as it is meant and once as the numbered nodes that were added on the way.

* `Parser.ofTokens`, `Parser.ofSource` — a parser at the start of its tokens.
* `Entry.run`, `Entry.build` — what the tokens are read as.
* `Parser.parse` — reads everything.
-/

namespace Imperativo

open Grammar

/-- What a list of tokens can be read as. -/
inductive Entry
  | program
  | expression
  | condition
  deriving DecidableEq, Repr

/-- Reads all tokens as one production; a token behind it is not read. -/
def readAll (p : Production) (ts : List Token) : Run Tree :=
  match p.read ts with
  | .error s => Run.stopped s
  | .ok (tree, []) => Run.done tree
  | .ok (_, t :: rest) => Run.stopped (.before .endOfExpression (t :: rest))

/-- Reads all tokens as what the entry says. -/
def Entry.run : Entry → List Token → Run Tree
  | .program, ts => Grammar.program ts
  | .expression, ts => readAll Grammar.expression ts
  | .condition, ts => readAll Grammar.condition ts

/-- Builds the nodes of what the entry says. -/
def Entry.build : Entry → List Token → Building.Builder Nat
  | .program, ts => Building.program ts
  | .expression, ts => Building.all Building.expression ts
  | .condition, ts => Building.all Building.condition ts

/-- The tree of a list of tokens, if there is one, and the errors in the order in which they were
found.  The error of a final stop comes last; at the end of the input it is placed at the last
token. -/
def parseTokens (entry : Entry) (ts : List Token) : Option Tree × List GrammarError :=
  let run := entry.run ts
  (run.outcome.toOption, run.stops.map (Stop.error (lastPosition ts)))

/-- The tokens to be read, how reading goes, and the diagnostics so far. -/
structure Parser where
  tokens : List Token
  mode : Mode
  log : Log

/-- What parsing comes to: the tree, its numbered nodes and the log. -/
structure Outcome where
  tree : Option Tree
  ast? : Option Ast
  log : Log

namespace Parser

/-- A parser in front of its tokens. -/
def ofTokens (tokens : List Token) : Parser := ⟨tokens, .normal, Log.empty⟩

/-- A parser in front of the tokens of a program, with the lexical diagnostics in its log.  Capital
letters do not matter in reserved words. -/
def ofSource (source : Text) : Parser :=
  let (tokens, diagnostics) := tokenize .insensitive source
  ⟨tokens, .normal, Log.ofList diagnostics⟩

/-- Reads all tokens; the errors are recorded behind the diagnostics so far. -/
def parse (p : Parser) (entry : Entry) : Outcome :=
  let (tree, errors) := parseTokens entry p.tokens
  ⟨tree, Building.ast? (entry.build p.tokens),
    (errors.map GrammarError.diagnostic).foldl Log.push p.log⟩

end Parser

end Imperativo
