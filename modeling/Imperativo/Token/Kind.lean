import Imperativo.Text.Basic

/-!
# Kinds of tokens

A kind is either a class of spellings (names and literals) or one fixed spelling.  The fixed ones
are grouped by what they do: words of statements, scalar types, signs, and the three families of
operators.  A family is a type of its own, so a part of the grammar that takes any operator of a
family takes a value of that type.

* `Kind.spelling?` — the text of a fixed kind.
* `Kind.name` — the name in reports.
* `Kind.description` — the kind in messages.
* `Kind.all` — every kind once.
-/

namespace Imperativo

/-! ## Families with fixed spellings -/

/-- The words that open a program or a statement, or end one. -/
inductive Word
  | imprimir | leer | mientras | programa | si | sino | terminar
  deriving DecidableEq, Repr

/-- The types of variables. -/
inductive Scalar
  | int | float | char
  deriving DecidableEq, Repr

/-- The signs that bracket and separate. -/
inductive Sign
  | openParen | closeParen | openBrace | closeBrace | semicolon | comma
  deriving DecidableEq, Repr

/-- The operators of expressions. -/
inductive Arithmetic
  | add | sub | mul | div
  deriving DecidableEq, Repr

/-- The operators that join conditions, each in two spellings. -/
inductive Connective
  | andSign | andWord | orSign | orWord
  deriving DecidableEq, Repr

/-- The operators that compare two expressions. -/
inductive Relation
  | less | lessEqual | greater | greaterEqual | equal | notEqual
  deriving DecidableEq, Repr

/-- The text of a statement word. -/
def Word.spelling : Word → String
  | .imprimir => "imprimir"
  | .leer => "leer"
  | .mientras => "mientras"
  | .programa => "programa"
  | .si => "si"
  | .sino => "sino"
  | .terminar => "terminar"

/-- The text of a type. -/
def Scalar.spelling : Scalar → String
  | .int => "int"
  | .float => "float"
  | .char => "char"

/-- The text of a sign. -/
def Sign.spelling : Sign → String
  | .openParen => "("
  | .closeParen => ")"
  | .openBrace => "\x7b"
  | .closeBrace => "\x7d"
  | .semicolon => ";"
  | .comma => ","

/-- The text of an arithmetic operator. -/
def Arithmetic.spelling : Arithmetic → String
  | .add => "+"
  | .sub => "-"
  | .mul => "*"
  | .div => "/"

/-- The text of a connective. -/
def Connective.spelling : Connective → String
  | .andSign => "&&"
  | .andWord => "and"
  | .orSign => "||"
  | .orWord => "or"

/-- Whether a connective asks for both sides; the others ask for one. -/
def Connective.isAnd : Connective → Bool
  | .andSign | .andWord => true
  | .orSign | .orWord => false

/-- The text of a relation. -/
def Relation.spelling : Relation → String
  | .less => "<"
  | .lessEqual => "<="
  | .greater => ">"
  | .greaterEqual => ">="
  | .equal => "=="
  | .notEqual => "!="

/-! ## Kinds -/

/-- What sort of lexeme a token is. -/
inductive Kind
  | identifier
  | integer
  | float
  | character
  | string
  | word (w : Word)
  | scalar (s : Scalar)
  | sign (s : Sign)
  | assign
  | arithmetic (op : Arithmetic)
  | connective (op : Connective)
  | relation (op : Relation)
  deriving DecidableEq, Repr

namespace Kind

/-- The text of a kind that has only one; names and literals have none. -/
def spelling? : Kind → Option Text
  | .identifier | .integer | .float | .character | .string => none
  | .word w => some w.spelling.toList
  | .scalar s => some s.spelling.toList
  | .sign s => some s.spelling.toList
  | .assign => some "=".toList
  | .arithmetic op => some op.spelling.toList
  | .connective op => some op.spelling.toList
  | .relation op => some op.spelling.toList

/-- The name of a kind in reports. -/
def name : Kind → String
  | .identifier => "IDENTIFIER"
  | .integer => "INTEGER"
  | .float => "FLOAT_LITERAL"
  | .character => "CHAR_LITERAL"
  | .string => "STRING"
  | .word .imprimir => "IMPRIMIR"
  | .word .leer => "LEER"
  | .word .mientras => "MIENTRAS"
  | .word .programa => "PROGRAMA"
  | .word .si => "SI"
  | .word .sino => "SINO"
  | .word .terminar => "TERMINAR"
  | .scalar .int => "INT"
  | .scalar .float => "FLOAT"
  | .scalar .char => "CHAR"
  | .sign .openParen => "LPAREN"
  | .sign .closeParen => "RPAREN"
  | .sign .openBrace => "LBRACE"
  | .sign .closeBrace => "RBRACE"
  | .sign .semicolon => "SEMICOLON"
  | .sign .comma => "COMMA"
  | .assign => "EQUAL"
  | .arithmetic .add => "PLUS"
  | .arithmetic .sub => "MINUS"
  | .arithmetic .mul => "STAR"
  | .arithmetic .div => "SLASH"
  | .connective .andSign => "AND"
  | .connective .andWord => "AND_WORD"
  | .connective .orSign => "OR"
  | .connective .orWord => "OR_WORD"
  | .relation .less => "LESS"
  | .relation .lessEqual => "LESS_EQUAL"
  | .relation .greater => "GREATER"
  | .relation .greaterEqual => "GREATER_EQUAL"
  | .relation .equal => "EQUAL_EQUAL"
  | .relation .notEqual => "NOT_EQUAL"

/-- A kind in messages: its text in quotes, or what class of lexeme it is. -/
def description (k : Kind) : Text :=
  match k.spelling? with
  | some spelling => '\'' :: spelling ++ ['\'']
  | none =>
    match k with
    | .identifier => "identifier".toList
    | .integer => "integer literal".toList
    | .float => "float literal".toList
    | .character => "character literal".toList
    | _ => "string literal".toList

/-- Whether the kind names a type. -/
def isScalar : Kind → Bool
  | .scalar _ => true
  | _ => false

/-- Whether the kind compares two expressions. -/
def isRelation : Kind → Bool
  | .relation _ => true
  | _ => false

/-- Whether the kind is an operator of expressions. -/
def isArithmetic : Kind → Bool
  | .arithmetic _ => true
  | _ => false

/-- Whether the kind joins conditions. -/
def isConnective : Kind → Bool
  | .connective _ => true
  | _ => false

/-- Every kind, once. -/
def all : List Kind :=
  [.identifier, .integer, .float, .character, .string,
   .word .imprimir, .word .leer, .word .mientras, .word .programa, .word .si, .word .sino, .word .terminar,
   .scalar .int, .scalar .float, .scalar .char,
   .sign .openParen, .sign .closeParen, .sign .openBrace, .sign .closeBrace, .sign .semicolon, .sign .comma,
   .assign,
   .arithmetic .add, .arithmetic .sub, .arithmetic .mul, .arithmetic .div,
   .connective .andSign, .connective .andWord, .connective .orSign, .connective .orWord,
   .relation .less, .relation .lessEqual, .relation .greater, .relation .greaterEqual, .relation .equal,
   .relation .notEqual]

/-- The kind with a given name in reports. -/
def ofName? (name : String) : Option Kind := all.find? fun k => k.name == name

end Kind

end Imperativo
