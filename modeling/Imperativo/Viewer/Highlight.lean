import Imperativo.Text.Alphanumeric
import Imperativo.Token.Reserved
import Imperativo.Viewer.Canvas

/-!
# Lines of a program in colour

The viewer colours a line without reading it as a program: a number sign starts a comment, a quote
starts a literal up to the next quote of its sort, letters, digits, underscores and points make a
word, and any other character stands alone.  Words are taken in a wider sense than names are,
letters of all scripts included.

* `expandTabs` — blanks for tabs.
* `highlight` — a line in colour.
-/

namespace Imperativo

/-! ## Tabs -/

/-- Replaces tabs in a text that starts at `column`; a tab reaches to the next multiple of
`width`. -/
def expandTabsFrom (width column : Nat) : Text → Text
  | [] => []
  | c :: rest =>
    if c = '\t' then
      let pad := width - column % width
      List.replicate pad ' ' ++ expandTabsFrom width (column + pad) rest
    else c :: expandTabsFrom width (column + 1) rest

/-- A line with blanks for tabs; a width of zero counts as one. -/
def expandTabs (width : Nat) (line : Text) : Text := expandTabsFrom (max width 1) 0 line

/-! ## Words -/

/-- The style of a word: reserved words by what they are, numbers by their first digit. -/
def wordStyle (case : KeywordCase) (word : Text) : Style :=
  match Reserved.lookup case word with
  | some (.scalar _) => Style.ink Theme.scalar
  | some (.connective _) => Style.ink Theme.operator
  | some _ => (Style.ink Theme.keyword).inBold
  | none =>
    match word with
    | [] => Style.ink Theme.text
    | c :: _ => if c.isDigit then Style.ink Theme.number else Style.ink Theme.text

/-- Whether a word goes on with a character. -/
def isInWord (c : Char) : Bool := Text.isAlphanumeric c || c == '_' || c == '.'

/-- Whether a word starts with `c` when `rest` follows: with a letter, a digit or an underscore, or
with a point in front of a digit. -/
def startsWord (c : Char) (rest : Text) : Bool :=
  Text.isAlphanumeric c || c == '_' || (c == '.' && (rest.head?.map Char.isDigit).getD false)

/-- The style of a character that stands alone. -/
def signStyle (c : Char) : Style :=
  if c = '{' || c = '}' || c = '(' || c = ')' then Style.ink Theme.primary else Style.ink Theme.text

/-! ## Lines -/

/-- A line in colour. -/
def highlight (case : KeywordCase) : Text → List Span
  | [] => []
  | c :: rest =>
    if c = '#' then [⟨c :: rest, Style.ink Theme.comment⟩]
    else if c = '"' || c = '\'' then
      let inside := rest.takeWhile (· != c)
      let behind := rest.drop inside.length
      ⟨c :: inside ++ behind.take 1, Style.ink Theme.string⟩ :: highlight case (behind.drop 1)
    else if startsWord c rest then
      let word := c :: rest.takeWhile isInWord
      ⟨word, wordStyle case word⟩ :: highlight case (rest.drop (word.length - 1))
    else ⟨[c], signStyle c⟩ :: highlight case rest
termination_by line => line.length
decreasing_by all_goals (simp only [List.length_drop, List.length_cons]; omega)

end Imperativo
