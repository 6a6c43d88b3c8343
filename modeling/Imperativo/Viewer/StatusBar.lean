import Imperativo.Viewer.Canvas

/-!
# The status bar

One line on a band: at the left how the analysis went, the name of the file and a message, at the
right the keys.

* `share` — a share of a length, rounded.
* `statusBar` — the drawing.
-/

namespace Imperativo

/-- A share of a length in per cent, rounded to the nearest whole number, a half upwards. -/
def share (percent length : Nat) : Nat := (2 * length * percent + 100) / 200

/-- Text on the band. -/
def onBand (c : Color) (text : Text) : Span := ⟨text, (Style.ink c).on Theme.band⟩

/-- The name of a key. -/
def keySpan (text : String) : Span := ⟨text.toList, (Style.ink .black).on Theme.comment⟩

/-- How the analysis went: no tree, no errors, or how many. -/
def badge (hasTree : Bool) (errors : Nat) : Span :=
  let (text, color) :=
    if !hasTree then (" NO TREE ".toList, Theme.error)
    else if errors = 0 then (" OK ".toList, Theme.success)
    else (' ' :: Text.ofNat errors ++ " ERROR(S) ".toList, Theme.secondary)
  ⟨text, ((Style.ink .black).on color).inBold⟩

/-- The left half of the bar. -/
def statusSpans (fileName message : Text) (errors : Nat) (hasTree : Bool) : List Span :=
  [badge hasTree errors, onBand Theme.primary (' ' :: fileName ++ [' ']), onBand Theme.comment " | ".toList,
   onBand Theme.text (' ' :: message ++ [' '])]

/-- The line between two keys. -/
def keySeparator : List Span := [onBand Theme.comment "│".toList, onBand Theme.text " ".toList]

/-- The right half of the bar. -/
def keySpans : List Span :=
  [keySpan " ⇥ ", onBand Theme.text " focus ".toList] ++ keySeparator ++
    [keySpan " ↑/↓ ", onBand Theme.text " scroll ".toList] ++ keySeparator ++
    [keySpan " ↵ ", onBand Theme.text " go to line ".toList] ++ keySeparator ++
    [keySpan "q", onBand Theme.text " quit ".toList]

/-- The status bar.  Its text stands on the first line. -/
def statusBar (width height : Nat) (fileName message : Text) (errors : Nat) (hasTree : Bool) : Drawing :=
  let base := Style.plain.on Theme.band
  let left := share 50 width
  let line := Row.fit left base (statusSpans fileName message errors hasTree) ++
    Row.fitRight (width - left) base keySpans
  Drawing.fill width height base [line]

end Imperativo
