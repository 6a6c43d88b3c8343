import Imperativo.CommandLine.Options
import Imperativo.Report.Table
import Imperativo.Tree.Graph
import Imperativo.Tree.Outline

/-!
# Sessions

A session is one run of the program from the command line: an exit code, what is printed, and the
graph when it goes to a file.  With arguments that are not accepted, or a file that cannot be read,
nothing is printed.

* `Session.reports` — what is printed about an analysis.
* `Session.ofContents` — a session from accepted options and the contents of the file.
* `Session.run` — a session from the arguments.
-/

namespace Imperativo

/-- The outcome of one run from the command line. -/
structure Session where
  exitCode : Nat
  output : Text
  dotFile : Option Text
  deriving DecidableEq, Repr

namespace Session

/-- The line that stands for the outline when there is no tree. -/
def noTreeLine : Text := "No syntax tree: input ended before the program was closed.\n".toList

/-- What is printed about an analysis: the table of tokens and the table of diagnostics, each with
an empty line behind it, then the outline, then the graph, as far as they are asked for. -/
def reports (o : Options) (a : Analysis) : Text :=
  let standard := o.wantsStandardReports
  (if standard || o.has .tokens then Report.tokenTable a.tokens ++ ['\n'] else []) ++
    (if standard || o.has .diagnostics then Report.diagnosticTable a.log ++ ['\n'] else []) ++
    (if standard || o.has .tree then (a.ast.map Ast.outline).getD noTreeLine else []) ++
    (if o.has .dotStdout then (a.ast.map fun ast => (Graph.ofAst ast).dot).getD [] else [])

/-- The session with accepted options on a program. -/
def ofAnalysis (o : Options) (a : Analysis) : Session where
  exitCode := a.exitCode
  output := if o.has .tui then [] else reports o a
  dotFile := o.dot.bind fun _ => a.ast.map fun ast => (Graph.ofAst ast).dot

/-- A session that prints nothing. -/
def silent (exitCode : Nat) : Session := ⟨exitCode, [], none⟩

/-- The exit code when there are no options to run with. -/
def refusalCode : OptionsProblem → Nat
  | .help | .version => 0
  | _ => 2

/-- The session with accepted options on the contents of the file, which may be missing. -/
def ofContents (o : Options) (contents : Option ByteArray) : Session :=
  match ((Analyzer.new o.settings).analyzeContents contents).1 with
  | .error _ => silent 1
  | .ok analysis => ofAnalysis o analysis

/-- The session with the given arguments, where `contents` is what a file holds. -/
def run (arguments : List Text) (contents : Text → Option ByteArray) : Session :=
  match Options.parse arguments with
  | .error problem => silent (refusalCode problem)
  | .ok o => ofContents o (contents o.file)

end Session

end Imperativo
