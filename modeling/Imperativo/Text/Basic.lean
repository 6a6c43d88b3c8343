/-!
# Text

Programs, names and messages are lists of characters.  A column of a program counts characters, a
column of a table is padded by counting characters, and every scanner takes a maximal run from the
front of a list, so the list is the natural shape for all of them.

* `ofNat`, `ofInt` — numbers in decimal digits.
* `ofDigits` — the number that a run of digits spells.
* `lines` — the lines of a text, each without its line end.
* `isLetter`, `isWordStart`, `isWordChar` — the letters of names.
-/

namespace Imperativo

/-- A text is the list of its characters. -/
abbrev Text := List Char

namespace Text

/-! ## Numbers -/

/-- A natural number in decimal digits, without leading zeros. -/
def ofNat (n : Nat) : Text := Nat.toDigits 10 n

/-- An integer in decimal digits, with a minus sign in front when it is negative. -/
def ofInt : Int → Text
  | .ofNat n => ofNat n
  | .negSucc n => '-' :: ofNat (n + 1)

/-- The number that a run of decimal digits spells; leading zeros count for nothing. -/
def ofDigits (digits : Text) : Nat :=
  digits.foldl (fun n c => 10 * n + (c.toNat - '0'.toNat)) 0

/-! ## Lines -/

/-- Drops a carriage return that stands last. -/
def dropReturn (line : Text) : Text :=
  if line.getLast? = some '\r' then line.dropLast else line

/-- The lines of `text`, given the characters `line` already read of the first one.  A line ends at
a newline, together with a carriage return right before it; what follows the last newline is a line
of its own only when it holds a character, and keeps a carriage return at its end. -/
def linesAfter (line : Text) : Text → List Text
  | [] => if line.isEmpty then [] else [line]
  | '\n' :: rest => dropReturn line :: linesAfter [] rest
  | c :: rest => linesAfter (line ++ [c]) rest

/-- The lines of a text, each without its line end. -/
def lines (text : Text) : List Text := linesAfter [] text

/-- Texts one after another, with `separator` between neighbours. -/
def join (separator : Text) (texts : List Text) : Text := separator.intercalate texts

/-! ## The letters of names -/

/-- Names are built from the unaccented letters. -/
def isLetter (c : Char) : Bool := c.isAlpha

/-- A name starts with a letter or an underscore. -/
def isWordStart (c : Char) : Bool := isLetter c || c == '_'

/-- A name goes on with letters, digits and underscores. -/
def isWordChar (c : Char) : Bool := isWordStart c || c.isDigit

/-- The word with every unaccented capital letter made small. -/
def lower (word : Text) : Text := word.map Char.toLower

end Text

end Imperativo
