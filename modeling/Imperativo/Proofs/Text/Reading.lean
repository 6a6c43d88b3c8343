import Imperativo.Text.Basic
import Mathlib.Tactic

/-!
# Reading back what was written

A text that was written line by line, each line with its newline, has just these lines
(`lines_written`), provided that no line has a newline in it.  The lines a screen shows are without
a carriage return at their end; cutting the text at its newlines keeps it (`splitOn_written`).
Numbers are read back from their digits (`readNumber_ofNat`).
-/

namespace Imperativo

namespace Text

/-! ## Lines -/

/-- Lines one after another, each with its newline. -/
def written (lines : List Text) : Text := lines.flatMap (· ++ ['\n'])

lemma written_cons (line : Text) (rest : List Text) :
    written (line :: rest) = line ++ '\n' :: written rest := by
  simp [written]

lemma written_append (before behind : List Text) :
    written (before ++ behind) = written before ++ written behind := by
  simp [written]

/-- A line ends at the first newline. -/
lemma linesAfter_append {line : Text} (h : '\n' ∉ line) (before rest : Text) :
    linesAfter before (line ++ '\n' :: rest) =
      dropReturn (before ++ line) :: linesAfter [] rest := by
  induction line generalizing before with
  | nil => simp [linesAfter]
  | cons c line ih =>
      simp only [List.mem_cons, not_or] at h
      have hc : c ≠ '\n' := Ne.symm h.1
      rw [List.cons_append, linesAfter.eq_3 before c _ hc, ih h.2, List.append_assoc,
        List.singleton_append]

/-- A carriage return is dropped at the end only. -/
lemma dropReturn_append (before : Text) {last : Text} (hne : last ≠ [])
    (h : last.getLast? ≠ some '\r') : dropReturn (before ++ last) = before ++ last := by
  rw [dropReturn, List.getLast?_append_of_ne_nil before hne, if_neg h]

/-- **The lines of what was written line by line.** -/
theorem lines_written {all : List Text} (h : ∀ line ∈ all, '\n' ∉ line) :
    lines (written all) = all.map dropReturn := by
  induction all with
  | nil => simp [lines, written, linesAfter]
  | cons line rest ih =>
      simp only [List.mem_cons, forall_eq_or_imp] at h
      have hrest : linesAfter [] (written rest) = rest.map dropReturn := ih h.2
      rw [lines, written_cons, linesAfter_append h.1, hrest]
      simp

/-- Cut at its newlines, what was written line by line has these lines and nothing behind them. -/
theorem splitOn_written {lines : List Text} (h : ∀ line ∈ lines, '\n' ∉ line) :
    (written lines).splitOn '\n' = lines ++ [[]] := by
  have hjoin : written lines = List.intercalate ['\n'] (lines ++ [[]]) := by
    clear h
    induction lines with
    | nil => simp [written]
    | cons line rest ih =>
        obtain ⟨next, more, hmore⟩ := List.exists_cons_of_ne_nil
          (show rest ++ [[]] ≠ [] by simp)
        rw [written_cons, ih, List.cons_append, hmore]
        simp [List.intercalate]
  rw [hjoin]
  apply List.splitOn_intercalate
  · simpa [or_imp, forall_and] using h
  · simp

/-- What a literal has in it is told from its characters. -/
lemma notMem_ofList {c : Char} {chars : List Char} (h : chars.contains c = false) :
    c ∉ (String.ofList chars).toList := by
  rw [String.toList_ofList]
  simpa using h

/-! ## Numbers -/

lemma isDigit_of_mem_ofNat {n : Nat} {c : Char} (h : c ∈ ofNat n) : c.isDigit = true :=
  Nat.isDigit_of_mem_toDigits (by decide) (by decide) h

lemma ofDigits_ofNat (n : Nat) : ofDigits (ofNat n) = n :=
  Nat.ofDigitChars_toDigits (by decide) (by decide)

lemma newline_notMem_ofNat (n : Nat) : '\n' ∉ ofNat n := by
  intro h
  have hdigit := isDigit_of_mem_ofNat h
  revert hdigit
  decide

/-- The number in front of a text, and what stands behind it. -/
def readNumber (text : Text) : Option (Nat × Text) :=
  let digits := text.takeWhile Char.isDigit
  if digits.isEmpty then none else some (ofDigits digits, text.dropWhile Char.isDigit)

/-- **A number is read back from its digits.** -/
theorem readNumber_ofNat (n : Nat) {behind : Text}
    (h : ∀ c ∈ behind.head?, c.isDigit = false) :
    readNumber (ofNat n ++ behind) = some (n, behind) := by
  have hdigits : ∀ c ∈ ofNat n, c.isDigit = true := fun c hc => isDigit_of_mem_ofNat hc
  have hne : ofNat n ≠ [] := Nat.toDigits_ne_nil
  have hbehind : behind.takeWhile Char.isDigit = [] ∧ behind.dropWhile Char.isDigit = behind := by
    cases behind with
    | nil => simp
    | cons c behind => simp [h c (by simp)]
  simp [readNumber, List.takeWhile_append_of_pos hdigits, List.dropWhile_append_of_pos hdigits,
    hbehind, ofDigits_ofNat, hne]

end Text

end Imperativo
