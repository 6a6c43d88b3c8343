import Imperativo.Proofs.Source.Spelling
import Imperativo.Proofs.Text.Reading
import Imperativo.Report.Table
import Mathlib.Data.List.DropRight
import Mathlib.Data.String.Basic

/-!
# Rows of tables

A row is read back from its text.  In a table of tokens the widths of two cells are known, so a row
is cut there and the blanks at the end of a cell are dropped (`cutRow`); line and column follow as
numbers, whatever room they take (`readPlace`).  A row of diagnostics is read from front to back
without knowing a width, because only its message, which comes last, can have blanks in it
(`readCells`).

* **`greatest_widest`** — the width of a column is the greatest length in it, and at least that of
  its heading.
* **`cutRow_tableRow`**, **`readPlace_placeCells`** — the rows of tokens.
* **`readCells_logRow`** — the rows of diagnostics.
-/

namespace Imperativo

namespace Report

variable {text behind rest word : Text} {width : Nat}

/-! ## Widths -/

/-- The greatest of some lengths, if it is above `least`, and otherwise `least`. -/
structure Greatest (least : Nat) (lengths : List Nat) (width : Nat) : Prop where
  least_le : least ≤ width
  le : ∀ n ∈ lengths, n ≤ width
  attained : width = least ∨ width ∈ lengths

lemma greatest_widest (least : Nat) (texts : List Text) :
    Greatest least (texts.map List.length) (widest least texts) := by
  induction texts generalizing least with
  | nil => exact ⟨Nat.le_refl _, nofun, .inl rfl⟩
  | cons text texts ih =>
      obtain ⟨hleast, hle, hattained⟩ := ih (max least text.length)
      rw [List.map_cons]
      refine ⟨(Nat.le_max_left _ _).trans hleast,
        List.forall_mem_cons.mpr ⟨(Nat.le_max_right _ _).trans hleast, hle⟩, ?_⟩
      rcases hattained with hattained | hattained
      · rcases Nat.le_total text.length least with h | h
        · exact .inl (hattained.trans (Nat.max_eq_left h))
        · exact .inr (List.mem_cons.mpr (.inl (hattained.trans (Nat.max_eq_right h))))
      · exact .inr (List.mem_cons_of_mem _ hattained)

/-! ## Names -/

/-- A word on one line, in characters of one byte. -/
structure IsName (name : String) : Prop where
  ne_nil : name.toList ≠ []
  blank : ' ' ∉ name.toList
  newline : '\n' ∉ name.toList
  bytes : name.utf8ByteSize = name.toList.length

lemma isName_ofList {chars : List Char} (hne : chars ≠ [])
    (hchars : (chars.all fun c => c != ' ' && c != '\n') = true)
    (hbytes : String.utf8Len chars = chars.length) : IsName (String.ofList chars) := by
  simp only [List.all_eq_true, Bool.and_eq_true, bne_iff_ne] at hchars
  rw [← String.utf8ByteSize_ofList] at hbytes
  refine ⟨?_, ?_, ?_, ?_⟩ <;> rw [String.toList_ofList]
  · exact hne
  · exact fun hmem => (hchars _ hmem).1 rfl
  · exact fun hmem => (hchars _ hmem).2 rfl
  · exact hbytes

lemma isName_kind (kind : Kind) : IsName kind.name := by
  cases kind with
  | word w => cases w <;> exact isName_ofList (List.cons_ne_nil _ _) rfl rfl
  | scalar s => cases s <;> exact isName_ofList (List.cons_ne_nil _ _) rfl rfl
  | sign s => cases s <;> exact isName_ofList (List.cons_ne_nil _ _) rfl rfl
  | arithmetic op => cases op <;> exact isName_ofList (List.cons_ne_nil _ _) rfl rfl
  | connective op => cases op <;> exact isName_ofList (List.cons_ne_nil _ _) rfl rfl
  | relation op => cases op <;> exact isName_ofList (List.cons_ne_nil _ _) rfl rfl
  | _ => exact isName_ofList (List.cons_ne_nil _ _) rfl rfl

lemma isName_cause (cause : Cause) : IsName cause.name := by
  cases cause with
  | lexical fault => cases fault <;> exact isName_ofList (List.cons_ne_nil _ _) rfl rfl
  | grammar fault => cases fault <;> exact isName_ofList (List.cons_ne_nil _ _) rfl rfl

lemma isName_stage (stage : Stage) : IsName stage.name := by
  cases stage <;> exact isName_ofList (List.cons_ne_nil _ _) rfl rfl

lemma IsName.head_rightpad {name : String} (h : IsName name) (width : Nat) (behind : Text) :
    ∀ c ∈ (name.toList.rightpad width ' ' ++ behind).head?, c ≠ ' ' := by
  rw [List.rightpad, List.append_assoc, List.head?_append_of_ne_nil _ h.ne_nil]
  rintro c hc rfl
  exact h.blank (List.mem_of_mem_head? hc)

/-! ## Cells -/

/-- The text without the blanks at its end. -/
def trimEnd (text : Text) : Text := text.rdropWhile (· == ' ')

/-- The text without the blanks at its front. -/
def dropBlanks (text : Text) : Text := text.dropWhile (· == ' ')

lemma trimEnd_rightpad (width : Nat) (text : Text) :
    trimEnd (text.rightpad width ' ') = trimEnd text := by
  have hblanks : ∀ c ∈ List.replicate (width - text.length) ' ', (c == ' ') = true :=
    fun c hc => beq_iff_eq.mpr (List.eq_of_mem_replicate hc)
  rw [trimEnd, List.rightpad, List.rdropWhile, List.reverse_append, List.reverse_replicate,
    List.dropWhile_append_of_pos hblanks]
  rfl

/-- A text without blanks has none at its end. -/
lemma trimEnd_eq_self (h : ' ' ∉ text) : trimEnd text = text := by
  refine List.rdropWhile_eq_self_iff.mpr fun hne => ?_
  rw [beq_iff_eq]
  exact fun hlast => h (hlast ▸ List.getLast_mem hne)

lemma dropBlanks_append (n : Nat) (h : ∀ c ∈ text.head?, c ≠ ' ') :
    dropBlanks (List.replicate n ' ' ++ text) = text := by
  refine Whole.dropWhile_eq ⟨fun c hc => ?_, fun c hc => ?_⟩
  · exact beq_iff_eq.mpr (List.eq_of_mem_replicate hc)
  · exact beq_eq_false_iff_ne.mpr (h c hc)

lemma dropBlanks_of_head (h : ∀ c ∈ text.head?, c ≠ ' ') : dropBlanks text = text :=
  dropBlanks_append 0 h

/-- The cell at the front of a row, which is `width` wide, and what stands behind it and two
blanks. -/
def cutCell (width : Nat) (row : Text) : Option (Text × Text) :=
  match row.drop width with
  | ' ' :: ' ' :: behind => some (trimEnd (row.take width), behind)
  | _ => none

lemma cutCell_rightpad (h : text.length ≤ width) (behind : Text) :
    cutCell width (text.rightpad width ' ' ++ ("  ".toList ++ behind)) =
      some (trimEnd text, behind) := by
  have hlength : (text.rightpad width ' ').length = width := by
    rw [List.length_rightpad, Nat.max_eq_left h]
  rw [cutCell, List.drop_left' hlength, List.take_left' hlength, trimEnd_rightpad]
  rfl

/-! ## Rows of tokens -/

/-- A row of a table of tokens. -/
def tableRow (columns : TokenColumns) (kind value line column : Text) : Text :=
  kind.rightpad columns.kind ' ' ++ ("  ".toList ++ (value.rightpad columns.value ' ' ++
    ("  ".toList ++ (line.leftpad 4 ' ' ++ ("  ".toList ++ column.leftpad 6 ' ')))))

lemma tokenLine_eq (columns : TokenColumns) (kind value line column : Text) :
    tokenLine columns kind value line column = tableRow columns kind value line column ++ ['\n'] := by
  simp only [tokenLine, tableRow, List.append_assoc]

/-- The two cells of a row at its front, and what stands behind them. -/
def cutRow (columns : TokenColumns) (row : Text) : Option (Text × Text × Text) := do
  let (kind, behind) ← cutCell columns.kind row
  let (value, numbers) ← cutCell columns.value behind
  return (kind, value, numbers)

/-- **A row is cut behind its cells.** -/
lemma cutRow_tableRow {columns : TokenColumns} {kind value : Text}
    (hkind : kind.length ≤ columns.kind) (hvalue : value.length ≤ columns.value)
    (line column : Text) : cutRow columns (tableRow columns kind value line column) =
      some (trimEnd kind, trimEnd value, line.leftpad 4 ' ' ++ ("  ".toList ++ column.leftpad 6 ' ')) := by
  rw [cutRow, tableRow, cutCell_rightpad hkind]
  change (cutCell columns.value _ >>= _) = _
  rw [cutCell_rightpad hvalue]
  rfl

/-- The number behind some blanks, and what follows it. -/
def readPadded (text : Text) : Option (Nat × Text) := Text.readNumber (dropBlanks text)

/-- Two numbers and nothing else. -/
def readPlace (text : Text) : Option (Nat × Nat) := do
  let (line, behind) ← readPadded text
  let (column, behind) ← readPadded behind
  if behind.isEmpty then some (line, column) else none

lemma head_ofNat (n : Nat) (behind : Text) : ∀ c ∈ (Text.ofNat n ++ behind).head?, c ≠ ' ' := by
  have hne : Text.ofNat n ≠ [] := Nat.toDigits_ne_nil
  rw [List.head?_append_of_ne_nil _ hne]
  rintro c hc rfl
  have hdigit := Text.isDigit_of_mem_ofNat (List.mem_of_mem_head? hc)
  revert hdigit
  decide

lemma readPadded_leftpad (width n : Nat) (h : ∀ c ∈ behind.head?, c.isDigit = false) :
    readPadded ((Text.ofNat n).leftpad width ' ' ++ behind) = some (n, behind) := by
  rw [readPadded, List.leftpad, List.append_assoc, dropBlanks_append _ (head_ofNat n behind),
    Text.readNumber_ofNat n h]

/-- **Line and column are read back**, however wide they are. -/
lemma readPlace_placeCells (line column : Nat) :
    readPlace ((Text.ofNat line).leftpad 4 ' ' ++ ("  ".toList ++ (Text.ofNat column).leftpad 6 ' ')) =
      some (line, column) := by
  have hcolumn : readPadded ("  ".toList ++ (Text.ofNat column).leftpad 6 ' ') =
      some (column, []) := by
    have h : readPadded ((Text.ofNat column).leftpad 6 ' ' ++ []) = some (column, []) :=
      readPadded_leftpad 6 column nofun
    rwa [List.append_nil] at h
  rw [readPlace, readPadded_leftpad 4 line (by simp)]
  change (readPadded _ >>= _) = _
  rw [hcolumn]
  rfl

/-! ## Rows of diagnostics -/

/-- A row of a table of diagnostics. -/
def logRow (width : Nat) (d : Diagnostic) : Text :=
  d.stage.name.toList.rightpad 7 ' ' ++ ("  ".toList ++ (d.cause.name.toList.rightpad width ' ' ++
    ("  ".toList ++ ((Text.ofNat d.line).leftpad 4 ' ' ++ ':' ::
      ((columnText d.column).rightpad 4 ' ' ++ ("  ".toList ++ d.message))))))

lemma diagnosticLine_eq (width : Nat) (d : Diagnostic) :
    diagnosticLine width d = logRow width d ++ ['\n'] := by
  simp only [diagnosticLine, logRow, List.append_assoc, List.cons_append]

/-- What a row of a table of diagnostics says. -/
structure DiagnosticCells where
  stage : Stage
  kind : Text
  line : Nat
  column : Option Nat
  message : Text
  deriving DecidableEq

/-- What the row of a diagnostic says. -/
def DiagnosticCells.of (d : Diagnostic) : DiagnosticCells :=
  ⟨d.stage, d.cause.name.toList, d.line, d.column, d.message⟩

/-- The stage with a given name. -/
def stageOfName? (name : Text) : Option Stage :=
  [Stage.lexical, Stage.grammar].find? fun stage => stage.name.toList == name

/-- The word in front of the first blank, and what stands behind the blanks that follow. -/
def readWord (text : Text) : Text × Text :=
  (text.takeWhile (· != ' '), dropBlanks (text.dropWhile (· != ' ')))

/-- A column, which may be unknown, and what follows it. -/
def readColumn : Text → Option (Option Nat × Text)
  | '-' :: behind => some (none, behind)
  | text => (Text.readNumber text).map fun (column, behind) => (some column, behind)

/-- A line, a column and a message.  The cell of the column is four characters wide, or wider if the
column is. -/
def readPlaced (text : Text) : Option (Nat × Option Nat × Text) := do
  let (line, behind) ← Text.readNumber text
  let (column, behind) ← readColumn (behind.drop 1)
  return (line, column, behind.drop (4 - (columnText column).length + 2))

/-- What a row says. -/
def readCells (row : Text) : Option DiagnosticCells := do
  let (name, behind) := readWord row
  let stage ← stageOfName? name
  let (kind, behind) := readWord behind
  let (line, column, message) ← readPlaced behind
  return ⟨stage, kind, line, column, message⟩

/-- A word is read from its cell, with all blanks behind it. -/
lemma readWord_cell (hword : ' ' ∉ word) (width : Nat) (rest : Text) :
    readWord (word.rightpad width ' ' ++ ("  ".toList ++ rest)) = (word, dropBlanks rest) := by
  have hcell : word.rightpad width ' ' ++ ("  ".toList ++ rest) =
      word ++ (List.replicate (width - word.length) ' ' ++ ' ' :: ' ' :: rest) :=
    List.append_assoc _ _ _
  have hwhole : Whole (· != ' ') word
      (List.replicate (width - word.length) ' ' ++ ' ' :: ' ' :: rest) := by
    refine ⟨fun c hc => bne_iff_ne.mpr fun heq => hword (heq ▸ hc), ?_⟩
    cases width - word.length <;> simp [List.replicate_succ]
  have hblanks : ∀ c ∈ List.replicate (width - word.length) ' ', (c == ' ') = true :=
    fun c hc => beq_iff_eq.mpr (List.eq_of_mem_replicate hc)
  rw [hcell, readWord, hwhole.takeWhile_eq, hwhole.dropWhile_eq, dropBlanks,
    List.dropWhile_append_of_pos hblanks]
  rfl

lemma readColumn_columnText (column : Option Nat) (h : ∀ c ∈ behind.head?, c.isDigit = false) :
    readColumn (columnText column ++ behind) = some (column, behind) := by
  cases column with
  | none => rfl
  | some column =>
      have hread := Text.readNumber_ofNat column h
      rw [columnText]
      unfold readColumn
      split
      · -- a number does not begin with a dash
        rename_i heq
        rw [heq] at hread
        cases hread
      · rw [hread]
        rfl

lemma readPlaced_columnText (line : Nat) (column : Option Nat) (message : Text) :
    readPlaced (Text.ofNat line ++ ':' :: ((columnText column).rightpad 4 ' ' ++
      ("  ".toList ++ message))) = some (line, column, message) := by
  have hcell : (columnText column).rightpad 4 ' ' ++ ("  ".toList ++ message) =
      columnText column ++ (List.replicate (4 - (columnText column).length + 2) ' ' ++ message) := by
    rw [List.rightpad, List.replicate_add, List.append_assoc, List.append_assoc]
    rfl
  have hcolumn : readColumn (columnText column ++
      (List.replicate (4 - (columnText column).length + 2) ' ' ++ message)) = some (column, _) :=
    readColumn_columnText column (by simp [List.replicate_succ])
  rw [readPlaced, Text.readNumber_ofNat line (by simp)]
  simp only [Option.bind_eq_bind, Option.bind_some, List.drop_succ_cons, List.drop_zero, hcell, hcolumn]
  rw [List.drop_left' List.length_replicate]
  rfl

lemma stageOfName?_name (stage : Stage) : stageOfName? stage.name.toList = some stage := by
  cases stage <;> decide

/-- **What a row of diagnostics says is read back from it**, its message as a whole. -/
lemma readCells_logRow (width : Nat) (d : Diagnostic) :
    readCells (logRow width d) = some (.of d) := by
  rw [readCells, logRow, readWord_cell (isName_stage d.stage).blank,
    dropBlanks_of_head ((isName_cause d.cause).head_rightpad _ _)]
  simp only [stageOfName?_name, readWord_cell (isName_cause d.cause).blank, List.leftpad,
    List.append_assoc, dropBlanks_append _ (head_ofNat _ _), readPlaced_columnText,
    Option.bind_eq_bind, Option.bind_some]
  rfl

/-- A column that is wider than its cell moves the message, and blanks in front of a message are
its own. -/
example : readCells "Lexical  IllegalChar     12:34567   a  b".toList =
    some ⟨.lexical, "IllegalChar".toList, 12, some 34567, " a  b".toList⟩ := by decide

end Report

end Imperativo
