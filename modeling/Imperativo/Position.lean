import Imperativo.Text.Basic

/-!
# Positions in a program

A position is a line and a column, both counted from one; columns count characters.  The position
of a character is obtained by walking over the text in front of it: a newline opens the next line,
any other character moves one column on.
-/

namespace Imperativo

/-- A place in a program, as line and column. -/
structure Position where
  line : Nat
  column : Nat
  deriving DecidableEq, Repr, Inhabited

namespace Position

/-- The place of the first character of a program. -/
def start : Position := ⟨1, 1⟩

/-- The place behind the character `c`, when `c` stands at `p`. -/
def step (p : Position) (c : Char) : Position :=
  if c = '\n' then ⟨p.line + 1, 1⟩ else ⟨p.line, p.column + 1⟩

/-- The place behind `text`, when `text` starts at `p`. -/
def advance (p : Position) (text : Text) : Position := text.foldl step p

/-- A position in writing: line, colon, column. -/
def text (p : Position) : Text := Text.ofNat p.line ++ ':' :: Text.ofNat p.column

@[simp] theorem advance_nil (p : Position) : p.advance [] = p := rfl

@[simp] theorem advance_cons (p : Position) (c : Char) (t : Text) :
    p.advance (c :: t) = (p.step c).advance t := rfl

@[simp] theorem advance_append (p : Position) (s t : Text) :
    p.advance (s ++ t) = (p.advance s).advance t := List.foldl_append

end Position

end Imperativo
