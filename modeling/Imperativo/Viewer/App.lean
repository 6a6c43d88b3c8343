import Imperativo.Viewer.Pane
import Imperativo.Viewer.StatusBar

/-!
# The viewer

The viewer shows an analysis in four panes and a status bar.  Keys go to the focused pane: they move
its window, move the focus on or back, jump from a diagnostic to its line, or end the viewer.
Offsets are held to sixty-four bits; drawing brings them back into range.

* `App.ofSource` — the viewer of a program.
* `App.press` — the effect of a key.
* `App.drawIn`, `App.draw` — the whole screen, in panes of given sizes and in those of its layout, and
  the viewer afterwards.
-/

namespace Imperativo

/-- The pane that keys go to. -/
inductive Focus
  | source
  | tokens
  | tree
  | diagnostics
  deriving DecidableEq, Repr

/-- The next pane in turn. -/
def Focus.next : Focus → Focus
  | .source => .tokens
  | .tokens => .tree
  | .tree => .diagnostics
  | .diagnostics => .source

/-- The pane before in turn. -/
def Focus.back : Focus → Focus
  | .source => .diagnostics
  | .tokens => .source
  | .tree => .tokens
  | .diagnostics => .tree

/-- The keys of the keyboard. -/
inductive Key
  | up
  | down
  | left
  | right
  | pageUp
  | pageDown
  | home
  | last
  | tab
  | backTab
  | enter
  | escape
  | char (c : Char)
  deriving DecidableEq, Repr

/-- The keys that have names, with their names. -/
def Key.named : List (String × Key) :=
  [("Up", .up), ("Down", .down), ("Left", .left), ("Right", .right), ("PageUp", .pageUp), ("PageDown", .pageDown),
   ("Home", .home), ("End", .last), ("Tab", .tab), ("BackTab", .backTab), ("Enter", .enter), ("Esc", .escape)]

/-- The key with a given name; a single character names its own key. -/
def Key.ofName? (name : Text) : Option Key :=
  match Key.named.find? fun entry => entry.1.toList == name with
  | some (_, key) => some key
  | none =>
    match name with
    | [c] => some (.char c)
    | _ => none

/-- The scroll offset of each pane. -/
structure Offsets where
  source : Nat
  tokens : Nat
  tree : Nat
  diagnostics : Nat
  deriving DecidableEq, Repr

namespace Offsets

/-- Every pane at its start. -/
def zero : Offsets := ⟨0, 0, 0, 0⟩

/-- The offset of one pane. -/
def get (o : Offsets) : Focus → Nat
  | .source => o.source
  | .tokens => o.tokens
  | .tree => o.tree
  | .diagnostics => o.diagnostics

/-- The offsets with that of one pane replaced. -/
def set (o : Offsets) (f : Focus) (offset : Nat) : Offsets :=
  match f with
  | .source => { o with source := offset }
  | .tokens => { o with tokens := offset }
  | .tree => { o with tree := offset }
  | .diagnostics => { o with diagnostics := offset }

end Offsets

/-- The state of the viewer. -/
structure App where
  analysis : Analysis
  settings : Settings
  source : Text
  fileName : Text
  focus : Focus
  offsets : Offsets
  finished : Bool
  status : Text

namespace App

/-- The viewer of an analysis of `source`, at the start of everything, with the first error as its
message. -/
def ofAnalysis (settings : Settings) (source fileName : Text) (analysis : Analysis) : App where
  analysis := analysis
  settings := settings
  source := source
  fileName := fileName
  focus := .source
  offsets := Offsets.zero
  finished := false
  status :=
    match analysis.log.firstErrorText? with
    | some first => "First error: ".toList ++ first
    | none => "No errors found.".toList

/-- The viewer of a program. -/
def ofSource (settings : Settings) (source fileName : Text) : App :=
  ofAnalysis settings source fileName (Analysis.ofSource settings.case source)

/-! ## Keys -/

/-- The greatest offset. -/
def maxOffset : Nat := Nat.pow 2 64 - 1

/-- How far the page keys move. -/
def page : Nat := 10

/-- Changes the offset of the focused pane. -/
def scroll (app : App) (move : Nat → Nat) : App :=
  { app with offsets := app.offsets.set app.focus (move (app.offsets.get app.focus)) }

/-- Shows the line of the diagnostic at the top of its pane and makes it the message. -/
def jump (app : App) : App :=
  match app.analysis.log.entries[app.offsets.diagnostics]? with
  | none => app
  | some d =>
    { app with
      offsets := app.offsets.set .source (d.line - 1)
      status := d.text
      focus := .source }

/-- The effect of a key. -/
def press (app : App) : Key → App
  | .char c => if c = 'q' || c = 'Q' then { app with finished := true } else app
  | .escape => { app with finished := true }
  | .tab => { app with focus := app.focus.next }
  | .backTab => { app with focus := app.focus.back }
  | .up => app.scroll (· - 1)
  | .down => app.scroll fun offset => min (offset + 1) maxOffset
  | .pageUp => app.scroll (· - page)
  | .pageDown => app.scroll fun offset => min (offset + page) maxOffset
  | .home => app.scroll fun _ => 0
  | .last => app.scroll fun _ => maxOffset
  | .enter => if app.focus = .diagnostics then app.jump else app
  | .left => app
  | .right => app

/-! ## The screen -/

/-- The pane shown under each focus. -/
def pane (app : App) : Focus → Pane
  | .source => sourcePane app.settings app.source app.analysis.log
  | .tokens => tokensPane app.analysis.tokens
  | .tree => treePane app.analysis.ast
  | .diagnostics => diagnosticsPane app.analysis.log

/-- The width and height of a pane. -/
structure Size where
  width : Nat
  height : Nat
  deriving DecidableEq, Repr

/-- The sizes of the panes on a screen.  The last line is the status bar.  The source stands above
the diagnostics at the left, the tokens above the tree at the right. -/
def paneSize (width height : Nat) : Focus → Size
  | .source => ⟨share 55 width, share 70 (height - 1)⟩
  | .diagnostics => ⟨share 55 width, height - 1 - share 70 (height - 1)⟩
  | .tokens => ⟨width - share 55 width, share 45 (height - 1)⟩
  | .tree => ⟨width - share 55 width, height - 1 - share 45 (height - 1)⟩

/-- One pane, drawn in its size: its offset afterwards and its drawing. -/
def drawPane (app : App) (sizes : Focus → Size) (f : Focus) : Nat × Drawing :=
  (app.pane f).draw (app.focus == f) (sizes f).width (sizes f).height (app.offsets.get f)

/-- A screen with panes of given sizes, and the viewer with its offsets in range. -/
def drawIn (app : App) (sizes : Focus → Size) (width : Nat) : Drawing × App :=
  let (source, sourceDrawing) := app.drawPane sizes .source
  let (diagnostics, diagnosticsDrawing) := app.drawPane sizes .diagnostics
  let (tokens, tokensDrawing) := app.drawPane sizes .tokens
  let (tree, treeDrawing) := app.drawPane sizes .tree
  let bar := statusBar width 1 app.fileName app.status app.analysis.log.size app.analysis.ast.isSome
  (Drawing.beside (sourceDrawing ++ diagnosticsDrawing) (tokensDrawing ++ treeDrawing) ++ bar,
    { app with offsets := ⟨source, tokens, tree, diagnostics⟩ })

/-- The whole screen, and the viewer with its offsets in range. -/
def draw (app : App) (width height : Nat) : Drawing × App := app.drawIn (paneSize width height) width

end App

end Imperativo
