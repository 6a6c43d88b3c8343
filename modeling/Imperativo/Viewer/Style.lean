import Imperativo.Text.Basic

/-!
# Styles

The colours and the weight in which the viewer writes.  A part of a style that is not given shows
what lies below it.

* `Style.above` — one style laid over another.
* `Theme` — the colours of the viewer, named for their use.
-/

namespace Imperativo

/-- A colour of the screen: the terminal's black, or an amount of red, green and blue. -/
inductive Color
  | black
  | rgb (red green blue : Nat)
  deriving DecidableEq, Repr

/-- How a cell of the screen is written. -/
structure Style where
  foreground : Option Color
  background : Option Color
  bold : Bool
  deriving DecidableEq, Repr

namespace Style

/-- No colour and no weight. -/
def plain : Style := ⟨none, none, false⟩

/-- A colour to write in. -/
def ink (c : Color) : Style := ⟨some c, none, false⟩

/-- The style in bold. -/
def inBold (s : Style) : Style := { s with bold := true }

/-- The style on a background. -/
def on (s : Style) (background : Color) : Style := { s with background := some background }

/-- The style `s` laid over `base`: what `s` leaves open is taken from `base`. -/
def above (s base : Style) : Style :=
  ⟨s.foreground.or base.foreground, s.background.or base.background, s.bold || base.bold⟩

end Style

/-! ## The colours of the viewer -/

namespace Theme

/-- Ordinary text. -/
def text : Color := .rgb 205 214 244

/-- Brackets, headings and names of files. -/
def primary : Color := .rgb 137 180 250

/-- Labels and lexical faults. -/
def secondary : Color := .rgb 250 179 135

/-- Comments, line numbers and places. -/
def comment : Color := .rgb 108 112 134

/-- Everything is in order. -/
def success : Color := .rgb 166 227 161

/-- Something is wrong. -/
def error : Color := .rgb 243 139 168

/-- Reserved words. -/
def keyword : Color := .rgb 137 180 250

/-- Strings and characters. -/
def string : Color := .rgb 250 179 135

/-- Numbers. -/
def number : Color := .rgb 250 179 135

/-- The frame of the pane that keys go to. -/
def focusedFrame : Color := .rgb 249 226 175

/-- The frame of any other pane. -/
def frame : Color := .rgb 108 112 134

/-- The background of marked lines and of the status bar. -/
def band : Color := .rgb 50 50 70

/-- Types. -/
def scalar : Color := .rgb 148 226 213

/-- Connectives written as words. -/
def operator : Color := .rgb 245 194 231

end Theme

end Imperativo
