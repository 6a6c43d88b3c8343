import Imperativo.Number.Shortest
import Imperativo.Position
import Imperativo.Token.Kind

/-!
# Tokens

A token is a kind, the value it carries if any, and the position of its first character.  Tokens
need not come from a program: any kind may be paired with any value or none, and every function here
is defined on all of them.

* `Value.text` — a value in writing.
* `Token.valueText` — what a report shows for a token.
* `Token.description` — a token in messages.
-/

namespace Imperativo

/-- What a token carries besides its kind. -/
inductive Value
  | integer (n : Int)
  | float (x : Binary64)
  | character (c : Char)
  | text (t : Text)
  deriving DecidableEq, Repr

/-- A value in writing. -/
def Value.written : Value → Text
  | .integer n => Text.ofInt n
  | .float x => x.text
  | .character c => [c]
  | .text t => t

/-- A lexeme with its kind, its value and the place of its first character. -/
structure Token where
  kind : Kind
  value : Option Value
  position : Position
  deriving DecidableEq, Repr

namespace Token

/-- The name of an identifier or the contents of a string. -/
def text? (t : Token) : Option Text :=
  match t.value with
  | some (.text s) => some s
  | _ => none

/-- What a report shows for a token: its value, or the text of its kind, or nothing. -/
def valueText (t : Token) : Text :=
  match t.value with
  | some v => v.written
  | none => t.kind.spelling?.getD []

/-- The words with which a message introduces the value of a name or literal, and the text behind
it. -/
def valueFrame? : Kind → Option (Text × Text)
  | .identifier => some ("identifier '".toList, "'".toList)
  | .string => some ("string literal \"".toList, "\"".toList)
  | .character => some ("character literal '".toList, "'".toList)
  | .integer => some ("integer literal ".toList, [])
  | .float => some ("float literal ".toList, [])
  | _ => none

/-- A token in messages: a name or literal with its value, anything else by its kind alone. -/
def description (t : Token) : Text :=
  match t.value, valueFrame? t.kind with
  | some v, some (before, behind) => before ++ v.written ++ behind
  | _, _ => t.kind.description

/-- The token moved to another place. -/
def moveTo (t : Token) (p : Position) : Token := { t with position := p }

end Token

end Imperativo
