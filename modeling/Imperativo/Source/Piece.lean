import Imperativo.Diagnostic.Basic
import Imperativo.Token.Reserved
import Imperativo.Token.Basic

/-!
# The pieces of a program

A program is cut, from front to back and without gap or overlap, into pieces that are never empty.
A piece is blank, or it is one lexeme, or it is a fault: a span that is no lexeme and is reported.
Inside a rejected name or character literal, or right behind it, a comma or semicolon may stand; the
first one is kept, the piece ends with it, and so no end of a statement is lost.

Pieces know nothing of positions: what a piece is depends only on the text from its first character
on, and never on what stands behind the next newline.

* `Piece.first` — the piece at the front of a program that is not empty.
* `cut` — all pieces of a program.
-/

namespace Imperativo

/-- What a piece of a program is: nothing of interest, a lexeme, or a fault with the separator that
was kept from it. -/
inductive Content
  | blank
  | lexeme (kind : Kind) (value : Option Value)
  | fault (fault : LexicalFault) (separator : Option Sign)
  deriving DecidableEq, Repr

/-- A stretch of a program and what it is. -/
structure Piece where
  text : Text
  content : Content
  deriving DecidableEq, Repr

namespace Piece

/-! ## Classes of characters -/

/-- Blanks separate lexemes; a newline is one. -/
def isBlank (c : Char) : Bool := c == ' ' || c == '\t' || c == '\r' || c == '\n'

/-- A number is written with digits and points. -/
def isNumberChar (c : Char) : Bool := c.isDigit || c == '.'

/-- The characters that operators are made of. -/
def isOperatorChar (c : Char) : Bool :=
  c == '+' || c == '-' || c == '*' || c == '/' || c == '=' || c == '<' || c == '>' || c == '!' || c == '&' || c == '|'

/-- The sign that a character is, if it is one. -/
def sign? (c : Char) : Option Sign :=
  [.openParen, .closeParen, .openBrace, .closeBrace, .semicolon, .comma].find? fun s : Sign =>
    s.spelling.toList == [c]

/-- The separator that a character is, if it is one. -/
def separator? : Char → Option Sign
  | ',' => some .comma
  | ';' => some .semicolon
  | _ => none

/-- Whether a character separates statements or names. -/
def isSeparator (c : Char) : Bool := (separator? c).isSome

/-- Whether a character can stand inside a character literal. -/
def isCharacterInside (c : Char) : Bool := c != '\'' && c != '\n'

/-- Whether a character can stand inside a string. -/
def isStringInside (c : Char) : Bool := c != '"' && c != '\n'

/-! ## Rejected spans -/

/-- A fault of the single character `c`. -/
def illegal (c : Char) : Piece := ⟨[c], .fault (.illegalCharacter c) none⟩

/-- The piece that begins with the rejected `span`, when `behind` follows.  The first separator in
the span, or else right behind it, is kept and ends the piece. -/
def salvage (fault : LexicalFault) (span behind : Text) : Piece :=
  let reach := span ++ behind.take 1
  match reach.dropWhile fun c => !isSeparator c with
  | c :: _ => ⟨reach.takeWhile (fun c => !isSeparator c) ++ [c], .fault fault (separator? c)⟩
  | [] => ⟨span, .fault fault none⟩

/-! ## Lexemes -/

/-- A name or reserved word: a maximal run of word characters. -/
def word (case : KeywordCase) (c : Char) (rest : Text) : Piece :=
  let text := c :: rest.takeWhile Text.isWordChar
  match Reserved.lookup case text with
  | some kind => ⟨text, .lexeme kind none⟩
  | none => ⟨text, .lexeme .identifier (some (.text text))⟩

/-- The greatest integer that a literal can denote. -/
def maxInteger : Nat := Nat.pow 2 63 - 1

/-- A run of digits alone: an integer unless it is too large. -/
def integer (digits : Text) : Piece :=
  let n := Text.ofDigits digits
  if n ≤ maxInteger then ⟨digits, .lexeme .integer (some (.integer n))⟩
  else ⟨digits, .fault (.malformedNumber digits) none⟩

/-- A run of digits and, behind it, a run of digits and points that starts with a point: a decimal
fraction when the second run has one point and a digit behind it. -/
def decimal (whole run : Text) : Piece :=
  let fraction := run.drop 1
  if !fraction.isEmpty && fraction.all Char.isDigit then
    ⟨whole ++ run, .lexeme .float (some (.float (Binary64.ofDecimal whole fraction)))⟩
  else ⟨whole ++ run, .fault (.malformedNumber (whole ++ run)) none⟩

/-- What starts with the digit `c`: a number, or a name that is rejected because of that digit. -/
def number (c : Char) (rest : Text) : Piece :=
  let digits := c :: rest.takeWhile Char.isDigit
  let behind := rest.dropWhile Char.isDigit
  match behind with
  | [] => integer digits
  | d :: _ =>
    if d = '.' then decimal digits (behind.takeWhile isNumberChar)
    else if Text.isWordStart d then
      let span := digits ++ behind.takeWhile Text.isWordChar
      salvage (.invalidIdentifier span) span (behind.dropWhile Text.isWordChar)
    else integer digits

/-- What starts with a point: never a number. -/
def point (rest : Text) : Piece :=
  match rest with
  | [] => illegal '.'
  | d :: _ =>
    if d.isDigit then
      let run := '.' :: rest.takeWhile isNumberChar
      ⟨run, .fault (.malformedNumber run) none⟩
    else illegal '.'

/-- What starts with a single quote: a literal of one character, or a rejected one. -/
def character (rest : Text) : Piece :=
  let inside := rest.takeWhile isCharacterInside
  match rest.dropWhile isCharacterInside with
  | '\'' :: behind =>
    let span := '\'' :: inside ++ ['\'']
    match inside with
    | [c] => ⟨span, .lexeme .character (some (.character c))⟩
    | [] => salvage (.invalidCharacter span .empty) span behind
    | _ => salvage (.invalidCharacter span .tooLong) span behind
  | behind =>
    let span := '\'' :: inside
    salvage (.invalidCharacter span .unterminated) span behind

/-- What starts with a double quote: a string that is closed on its line, or an illegal quote. -/
def string (rest : Text) : Piece :=
  let inside := rest.takeWhile isStringInside
  match rest.dropWhile isStringInside with
  | '"' :: _ => ⟨'"' :: inside ++ ['"'], .lexeme .string (some (.text inside))⟩
  | _ => illegal '"'

/-- The kinds that are spelled with operator characters. -/
def operators : List Kind :=
  [.arithmetic .add, .arithmetic .sub, .arithmetic .mul, .arithmetic .div, .assign, .relation .equal,
   .relation .notEqual, .relation .less, .relation .lessEqual, .relation .greater, .relation .greaterEqual,
   .connective .andSign, .connective .orSign]

/-- The operator that a run of operator characters spells, if any. -/
def operator? (run : Text) : Option Kind := operators.find? fun k => k.spelling? == some run

/-- A maximal run of operator characters: it is one operator or one fault. -/
def operator (c : Char) (rest : Text) : Piece :=
  let run := c :: rest.takeWhile isOperatorChar
  match operator? run with
  | some kind => ⟨run, .lexeme kind none⟩
  | none =>
    match run with
    | [c] => illegal c
    | _ => ⟨run, .fault (.invalidOperator run) none⟩

/-- A comment: everything up to the end of the line. -/
def comment (rest : Text) : Piece := ⟨'#' :: rest.takeWhile (· != '\n'), .blank⟩

/-- The piece at the front of the program `c :: rest`. -/
def first (case : KeywordCase) (c : Char) (rest : Text) : Piece :=
  if isBlank c then ⟨[c], .blank⟩
  else if c = '#' then comment rest
  else if Text.isWordStart c then word case c rest
  else if c.isDigit then number c rest
  else if c = '.' then point rest
  else if c = '\'' then character rest
  else if c = '"' then string rest
  else
    match sign? c with
    | some s => ⟨[c], .lexeme (.sign s) none⟩
    | none => if isOperatorChar c then operator c rest else illegal c

end Piece

/-! ## Cutting a whole program -/

/-- The pieces of a program.  Each takes its first character and as many of the following ones as
its text has besides. -/
def cut (case : KeywordCase) : Text → List Piece
  | [] => []
  | c :: rest =>
    let piece := Piece.first case c rest
    piece :: cut case (rest.drop (piece.text.length - 1))
termination_by text => text.length
decreasing_by simp only [List.length_drop, List.length_cons]; omega

end Imperativo
