import Imperativo.Diagnostic.Log
import Imperativo.Token.Basic

/-!
# Tables of tokens and diagnostics

Both tables have one line for each item.  A column of kinds or values is as wide as its widest cell
and is filled with blanks behind the text; numbers have a least width and are filled in front.  A
text is never cut.

* `tokenTable` — a heading line, then kind, value, line and column of each token.
* `diagnosticTable` — stage, kind, place and message of each entry of a log, then a summary; or one
  line that says that there are no errors.
-/

namespace Imperativo

namespace Report

/-- The number of characters of the longest text, or `least` if none is longer. -/
def widest (least : Nat) (texts : List Text) : Nat := texts.foldl (fun w t => max w t.length) least

/-! ## Tokens -/

/-- The widths of the two columns that follow their contents. -/
structure TokenColumns where
  kind : Nat
  value : Nat

/-- The widths for a list of tokens. -/
def TokenColumns.of (tokens : List Token) : TokenColumns where
  kind := widest "KIND".length (tokens.map fun t => t.kind.name.toList)
  value := widest "VALUE".length (tokens.map Token.valueText)

/-- One line of a table of tokens. -/
def tokenLine (columns : TokenColumns) (kind value line column : Text) : Text :=
  kind.rightpad columns.kind ' ' ++ "  ".toList ++ value.rightpad columns.value ' ' ++ "  ".toList ++
    line.leftpad 4 ' ' ++ "  ".toList ++ column.leftpad 6 ' ' ++ ['\n']

/-- The table of a list of tokens. -/
def tokenTable (tokens : List Token) : Text :=
  let columns := TokenColumns.of tokens
  tokenLine columns "KIND".toList "VALUE".toList "LINE".toList "COLUMN".toList ++
    tokens.flatMap fun t =>
      tokenLine columns t.kind.name.toList t.valueText (Text.ofNat t.position.line) (Text.ofNat t.position.column)

/-! ## Diagnostics -/

/-- A column in writing; an unknown one is a dash. -/
def columnText : Option Nat → Text
  | some column => Text.ofNat column
  | none => ['-']

/-- One line of a table of diagnostics, its kinds being `width` characters wide. -/
def diagnosticLine (width : Nat) (d : Diagnostic) : Text :=
  d.stage.name.toList.rightpad 7 ' ' ++ "  ".toList ++ d.cause.name.toList.rightpad width ' ' ++ "  ".toList ++
    (Text.ofNat d.line).leftpad 4 ' ' ++ ':' :: (columnText d.column).rightpad 4 ' ' ++ "  ".toList ++
    d.message ++ ['\n']

/-- The last line of a table of diagnostics. -/
def summaryLine (log : Log) : Text :=
  match log.firstErrorText? with
  | some first => Text.ofNat log.size ++ " error(s); first: ".toList ++ first ++ ['\n']
  | none => []

/-- The table of a log. -/
def diagnosticTable (log : Log) : Text :=
  if log.isEmpty then "No errors found.\n".toList
  else
    let width := widest 0 (log.entries.map fun d => d.cause.name.toList)
    (log.entries.flatMap (diagnosticLine width)) ++ summaryLine log

end Report

end Imperativo
