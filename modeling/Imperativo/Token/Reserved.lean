import Imperativo.Token.Kind

/-!
# Reserved words

Some words are not names: the words of statements, the types, and the two connectives that are
written as words.  Whether a word with capital letters is still reserved is a choice of the caller.

* `Reserved.kinds` — the kinds whose text is a reserved word.
* `Reserved.lookup` — the kind of a word, if it is reserved.
-/

namespace Imperativo

/-- Whether capital letters matter in reserved words. -/
inductive KeywordCase
  | insensitive
  | sensitive
  deriving DecidableEq, Repr, Inhabited

namespace Reserved

/-- The kinds whose text is a reserved word. -/
def kinds : List Kind :=
  [.word .imprimir, .word .leer, .word .mientras, .word .programa, .word .si, .word .sino, .word .terminar,
   .scalar .int, .scalar .float, .scalar .char, .connective .andWord, .connective .orWord]

/-- The word as it is compared with the reserved ones. -/
def fold : KeywordCase → Text → Text
  | .insensitive, word => Text.lower word
  | .sensitive, word => word

/-- The kind of `word`, if it is reserved. -/
def lookup (case : KeywordCase) (word : Text) : Option Kind :=
  kinds.find? fun k => k.spelling? == some (fold case word)

end Reserved

end Imperativo
