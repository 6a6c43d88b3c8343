import Imperativo.Analysis
import Imperativo.Viewer.Highlight

/-!
# Panes

A pane is a frame around a notice or around items, one a line, of which a window is shown.  Some
panes have a heading line above the window, which does not move.  The window starts at a scroll
offset; drawing first brings the offset back into range, so that the last page is full.

* `Pane.window`, `Pane.clamp`, `Pane.shown` — how many items fit, the offset in range, and the items
  that are shown.
* `Pane.draw` — the drawing and the offset afterwards.
* `sourcePane`, `tokensPane`, `treePane`, `diagnosticsPane` — the four panes of an analysis.
-/

namespace Imperativo

/-- A line, as a function of the width it is drawn in. -/
abbrev Line := Nat → Row

/-- What a pane shows. -/
inductive PaneContent
  | notice (text : Text) (style : Style)
  | items (heading : List Line) (lines : List Line)

/-- A titled pane. -/
structure Pane where
  title : Text
  content : PaneContent

namespace Pane

/-! ## Scrolling -/

/-- The lines inside the frame of a pane of `height` lines; at least one is counted. -/
def visibleLines (height : Nat) : Nat := max (height - 2) 1

/-- The number of items of a window below `heading` lines in a pane of `height` lines; at least one
is counted. -/
def window (height heading : Nat) : Nat := max (visibleLines height - heading) 1

/-- The offset brought back into range: at most the number of items that do not fit. -/
def clamp (offset total window : Nat) : Nat := if window < total then min offset (total - window) else 0

/-- The offset after drawing in a pane of `height` lines; a notice leaves it as it is. -/
def settledOffset (p : Pane) (height offset : Nat) : Nat :=
  match p.content with
  | .notice _ _ => offset
  | .items heading lines => clamp offset lines.length (window height heading.length)

/-- The items of the window that starts at `offset`, in a pane of `height` lines. -/
def shown (p : Pane) (height offset : Nat) : List Line :=
  match p.content with
  | .notice _ _ => []
  | .items heading lines => (lines.drop offset).take (window height heading.length)

/-! ## Drawing -/

/-- The style of the frame. -/
def frameStyle (focused : Bool) : Style :=
  if focused then (Style.ink Theme.focusedFrame).inBold else Style.ink Theme.frame

/-- The drawing of a pane, with a given offset that is in range. -/
def drawAt (p : Pane) (focused : Bool) (width height offset : Nat) : Drawing :=
  let inner := width - 2
  match p.content with
  | .notice text style =>
    Drawing.framed width height p.title (frameStyle focused) style [Row.fit inner style [⟨text, Style.plain⟩]]
  | .items heading _ =>
    Drawing.framed width height p.title (frameStyle focused) Style.plain
      ((heading ++ p.shown height offset).map fun line => line inner)

/-- The offset brought into range, and the drawing with it. -/
def draw (p : Pane) (focused : Bool) (width height offset : Nat) : Nat × Drawing :=
  let offset := p.settledOffset height offset
  (offset, p.drawAt focused width height offset)

end Pane

/-- A line of styled text. -/
def spansLine (spans : List Span) : Line := fun width => Row.fit width Style.plain spans

/-! ## The source -/

/-- A numbered line of a program.  A line with a diagnostic is marked and stands on a band. -/
def sourceLine (case : KeywordCase) (tabWidth : Nat) (marked : Bool) (number : Nat) (line : Text) : Line :=
  let style := if marked then (Style.ink Theme.error).inBold else Style.ink Theme.comment
  let mark := if marked then '✗' else ' '
  let spans := highlight case (expandTabs tabWidth line)
  spansLine (⟨(Text.ofNat number).leftpad 4 ' ' ++ [' '], style⟩ :: ⟨[mark, ' '], style⟩ ::
    (if marked then spans.map fun s => { s with style := s.style.on Theme.band } else spans))

/-- The lines that a diagnostic is about. -/
def markedLines (log : Log) : List Nat := log.entries.map Diagnostic.line

/-- The program, line by line. -/
def sourcePane (settings : Settings) (source : Text) (log : Log) : Pane where
  title := " Source ".toList
  content := .items [] ((Text.lines source).zipIdx.map fun (line, i) =>
    sourceLine settings.case settings.tabWidth ((markedLines log).contains (i + 1)) (i + 1) line)

/-! ## The tokens -/

/-- The style of the name of a kind. -/
def kindStyle : Kind → Style
  | .identifier => Style.ink Theme.text
  | .integer | .float => Style.ink Theme.number
  | .character | .string => Style.ink Theme.string
  | .scalar _ => Style.ink Theme.scalar
  | .connective _ => Style.ink Theme.operator
  | .word _ => Style.ink Theme.keyword
  | _ => Style.ink Theme.comment

/-- A line of three columns, fourteen cells, the rest and eight cells wide, with a blank cell
between neighbours. -/
def columnsLine (base : Style) (first second third : Span) : Line := fun width =>
  let cell (w : Nat) (s : Span) : Row := Row.fit w (s.style.above base) [⟨s.text, Style.plain⟩]
  cell 14 first ++ Row.blank 1 base ++ cell (width - 24) second ++ Row.blank 1 base ++ cell 8 third

/-- The heading line of the tokens. -/
def tokensHeading : Line :=
  let style := (Style.ink Theme.primary).inBold
  columnsLine style ⟨"KIND".toList, style⟩ ⟨"VALUE".toList, style⟩ ⟨"POS".toList, style⟩

/-- The line of a token: kind, value and place. -/
def tokenRow (t : Token) : Line :=
  columnsLine Style.plain ⟨t.kind.name.toList, kindStyle t.kind⟩ ⟨t.valueText, Style.plain⟩
    ⟨t.position.text, Style.ink Theme.comment⟩

/-- The tokens below a heading line. -/
def tokensPane (tokens : List Token) : Pane where
  title := " Tokens ".toList
  content :=
    if tokens.isEmpty then .notice "(no tokens)".toList (Style.ink Theme.comment)
    else .items [tokensHeading] (tokens.map tokenRow)

/-! ## The tree -/

/-- The line of a tree node: its kind and label, behind two blanks for each level.  A carriage
return at the end of the label belongs to the end of the line and is not shown. -/
def treeLine (depth : Nat) (h : Heading) : Line :=
  spansLine (⟨List.replicate (2 * depth) ' ', Style.plain⟩ :: ⟨h.kind.name.toList, Style.ink Theme.keyword⟩ ::
    match h.label with
    | none => []
    | some label => [⟨": ".toList, Style.ink Theme.comment⟩, ⟨Text.dropReturn label, Style.ink Theme.secondary⟩])

/-- The lines of the nodes of a tree, parents first. -/
def treeLines (ast : Ast) : List Line :=
  ast.preorder.filterMap fun (depth, id) => (ast.node? id).map fun node => treeLine depth node.heading

/-- The outline of the tree, or a notice that there is none. -/
def treePane (ast : Option Ast) : Pane where
  title := " Syntax Tree ".toList
  content :=
    match ast with
    | none => .notice "(no tree: input ended before the program was closed)".toList (Style.ink Theme.error)
    | some ast => .items [] (treeLines ast)

/-! ## The diagnostics -/

/-- The colour of a stage. -/
def stageColor : Stage → Color
  | .lexical => Theme.secondary
  | .grammar => Theme.error

/-- A place in writing, as far as it is known. -/
def placeText (d : Diagnostic) : Text :=
  match d.column with
  | some column => Text.ofNat d.line ++ ':' :: Text.ofNat column
  | none => Text.ofNat d.line

/-- The line of a diagnostic, behind one blank cell: kind, place and message. -/
def diagnosticRow (d : Diagnostic) : Line :=
  spansLine [⟨[' '], Style.plain⟩,
    ⟨d.cause.name.toList.rightpad 18 ' ', (Style.ink (stageColor d.stage)).inBold⟩,
    ⟨(placeText d).leftpad 7 ' ' ++ "  ".toList, Style.ink Theme.comment⟩,
    ⟨d.message, Style.ink Theme.text⟩]

/-- The entries of a log, or a notice that there are none. -/
def diagnosticsPane (log : Log) : Pane where
  title := " Diagnostics (".toList ++ Text.ofNat log.size ++ ") ".toList
  content :=
    if log.isEmpty then .notice "No errors found.".toList (Style.ink Theme.success)
    else .items [] (log.entries.map diagnosticRow)

end Imperativo
