import Imperativo.Grammar.Parser

/-!
# Analysing programs

An analysis has the tokens of a program, its tree if it is closed, and one log with the diagnostics
of both stages in the order of their places.  An analyzer has its settings and counts its runs;
nothing else passes from one run to the next.

* `Analysis.ofSource` — the analysis of a program.
* `Analysis.exitCode` — the verdict as a number.
* `Analyzer.analyze`, `Analyzer.analyzeContents` — one run, on a text or on what a file holds.
-/

namespace Imperativo

/-- The settings of an analysis. -/
structure Settings where
  case : KeywordCase
  tabWidth : Nat
  deriving DecidableEq, Repr

namespace Settings

/-- Capital letters do not matter, and a tab reaches to the next multiple of four. -/
def standard : Settings := ⟨.insensitive, 4⟩

/-- The settings with another choice about capital letters. -/
def withCase (s : Settings) (case : KeywordCase) : Settings := { s with case := case }

/-- The settings with another tab width, which is at least one. -/
def withTabWidth (s : Settings) (width : Nat) : Settings := { s with tabWidth := max width 1 }

end Settings

/-- What is known about a program. -/
structure Analysis where
  tokens : List Token
  ast : Option Ast
  log : Log

namespace Analysis

/-- The analysis of a program. -/
def ofSource (case : KeywordCase) (source : Text) : Analysis :=
  let (tokens, diagnostics) := tokenize case source
  let outcome := (Parser.ofTokens tokens).parse .program
  ⟨tokens, outcome.ast?, (Log.ofList diagnostics).merge outcome.log⟩

/-- Whether there is a tree and nothing to report. -/
def isClean (a : Analysis) : Bool := a.ast.isSome && a.log.isEmpty

/-- Two without a tree, else one with diagnostics, else zero. -/
def exitCode (a : Analysis) : Nat :=
  if a.ast.isNone then 2 else if a.log.isEmpty then 0 else 1

end Analysis

/-! ## Repeated runs -/

/-- Settings, and how many runs there have been. -/
structure Analyzer where
  settings : Settings
  runs : Nat
  deriving DecidableEq, Repr

/-- Why a file cannot be analysed. -/
inductive FileProblem
  | missing
  | notText
  deriving DecidableEq, Repr

namespace Analyzer

/-- An analyzer that has not run yet. -/
def new (settings : Settings) : Analyzer := ⟨settings, 0⟩

/-- Analyses a program. -/
def analyze (a : Analyzer) (source : Text) : Analysis × Analyzer :=
  (Analysis.ofSource a.settings.case source, { a with runs := a.runs + 1 })

/-- Analyses the contents of a file, which must exist and be valid UTF-8; otherwise nothing is
run. -/
def analyzeContents (a : Analyzer) (contents : Option ByteArray) : Except FileProblem Analysis × Analyzer :=
  match contents with
  | none => (.error .missing, a)
  | some bytes =>
    match String.fromUTF8? bytes with
    | none => (.error .notText, a)
    | some source =>
      let (analysis, a) := a.analyze source.toList
      (.ok analysis, a)

end Analyzer

end Imperativo
