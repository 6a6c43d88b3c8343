import Imperativo.Viewer.Style

/-!
# Drawing in cells

A drawing is a list of rows from top to bottom, a row a list of cells from left to right.
Everything is drawn by building rows of a known width and putting them beside and below one another.

* `Row.fit` — styled text as a row of a given width, cut or filled with blanks.
* `Row.fitRight` — the same, aligned to the right when it is short enough.
* `Drawing.framed` — a frame with a title around rows.
* `Drawing.beside` — two drawings side by side.
* `Row.runs` — a row as stretches of one style.
-/

namespace Imperativo

/-- A stretch of text in one style. -/
structure Span where
  text : Text
  style : Style
  deriving DecidableEq, Repr

/-- One cell of the screen. -/
structure Cell where
  char : Char
  style : Style
  deriving DecidableEq, Repr

/-- A line of cells. -/
abbrev Row := List Cell

/-- Rows from top to bottom. -/
abbrev Drawing := List Row

/-! ## Rows -/

/-- The cells of a stretch of text, over the style `base`: one for each character, newlines left
out. -/
def Span.cells (base : Style) (s : Span) : Row :=
  (s.text.filter fun c => c != '\n').map fun c => ⟨c, s.style.above base⟩

namespace Row

/-- Blank cells. -/
def blank (width : Nat) (style : Style) : Row := List.replicate width ⟨' ', style⟩

/-- A row of `width` cells that starts with `cells` and goes on with blanks. -/
def fill (width : Nat) (base : Style) (cells : Row) : Row :=
  let shown := cells.take width
  shown ++ blank (width - shown.length) base

/-- The cells of styled text, over the style `base`. -/
def cells (base : Style) (spans : List Span) : Row := spans.flatMap (Span.cells base)

/-- Styled text at the left of a row of `width` cells. -/
def fit (width : Nat) (base : Style) (spans : List Span) : Row := fill width base (cells base spans)

/-- Styled text at the right of a row of `width` cells, or at its left when it is too long. -/
def fitRight (width : Nat) (base : Style) (spans : List Span) : Row :=
  let written := cells base spans
  fill width base (blank (width - written.length) base ++ written)

/-- Joins a stretch with the ones behind it. -/
def join (c : Cell) : List Span → List Span
  | [] => [⟨[c.char], c.style⟩]
  | s :: rest => if s.style = c.style then ⟨c.char :: s.text, s.style⟩ :: rest else ⟨[c.char], c.style⟩ :: s :: rest

/-- A row as stretches of one style, neighbours having different ones. -/
def runs (row : Row) : List Span := row.foldr join []

/-- The characters of a row. -/
def text (row : Row) : Text := row.map Cell.char

end Row

/-! ## Drawings -/

namespace Drawing

/-- The first `height` rows, filled up with blank rows of `width` cells. -/
def fill (width height : Nat) (base : Style) (rows : Drawing) : Drawing :=
  let shown := rows.take height
  shown ++ List.replicate (height - shown.length) (Row.blank width base)

/-- The rows of two drawings of equal height, side by side. -/
def beside (left right : Drawing) : Drawing := List.zipWith (· ++ ·) left right

/-- The top line of a frame: corners, a line between them, and the title over its beginning. -/
def topLine (width : Nat) (title : Text) (style : Style) : Row :=
  let inner := width - 2
  let shown := title.take inner
  let line := shown ++ List.replicate (inner - shown.length) '─'
  (('┌' :: line ++ ['┐']).take width).map fun c => ⟨c, style⟩

/-- The bottom line of a frame. -/
def bottomLine (width : Nat) (style : Style) : Row :=
  (('└' :: List.replicate (width - 2) '─' ++ ['┘']).take width).map fun c => ⟨c, style⟩

/-- A line between the two sides of a frame. -/
def sideLine (width : Nat) (style : Style) (inside : Row) : Row :=
  let side : Cell := ⟨'│', style⟩
  (side :: inside ++ [side]).take width

/-- A frame of `width` by `height` cells in the given style, with a title, around rows that are two
cells narrower; rows that do not fit are left out.  Of a frame without room for both sides, or for
both lines, the left side and the top line are drawn. -/
def framed (width height : Nat) (title : Text) (style : Style) (base : Style) (rows : Drawing) : Drawing :=
  let inside := fill (width - 2) (height - 2) base rows
  ([topLine width title style] ++ inside.map (sideLine width style) ++ [bottomLine width style]).take height

end Drawing

end Imperativo
