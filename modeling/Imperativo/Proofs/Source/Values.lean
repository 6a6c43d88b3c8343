import Imperativo.Proofs.Number.Written
import Imperativo.Proofs.Source.Places

/-!
# What tokens say is on one line

The value of a token of a program has no newline in it, in whatever form it is written: names are
made of letters, numbers are written with digits and a few signs, and a quoted text ends at a
newline, so that no newline is inside.

* **`newline_notMem_valueText`** — what a report shows for a token is on one line.
-/

namespace Imperativo

variable {case : KeywordCase} {source : Text} {t : Token}

lemma newline_notMem_spelling (kind : Kind) : '\n' ∉ kind.spelling?.getD [] := by
  cases kind with
  | word w => cases w <;> decide
  | scalar s => cases s <;> decide
  | sign s => cases s <;> decide
  | arithmetic op => cases op <;> decide
  | connective op => cases op <;> decide
  | relation op => cases op <;> decide
  | _ => decide

lemma Piece.Lexeme.newline_notMem_written {text behind : Text} {kind : Kind} {v : Value}
    (h : Piece.Lexeme case text behind kind (some v)) : '\n' ∉ v.written := by
  generalize hvalue : some v = value at h
  cases h with
  | @name c more _ hc h _ =>
      cases hvalue
      have hmore : '\n' ∉ more := fun hmem => absurd (h.all _ hmem) (by decide)
      have hne : '\n' ≠ c := by
        rintro rfl
        exact absurd hc (by decide)
      simp [Value.written, hmore, hne]
  | integer =>
      cases hvalue
      rw [Value.written]
      exact fun hmem => absurd (Binary64.isNumeral_ofInt _ _ hmem) (by decide)
  | float =>
      cases hvalue
      rw [Value.written]
      exact fun hmem => absurd (Binary64.isNumeral_text _ _ hmem) (by decide)
  | character hc =>
      cases hvalue
      simpa [Value.written] using hc.2.symm
  | string h =>
      cases hvalue
      exact fun hmem => (h _ hmem).2 rfl
  | _ => cases hvalue

/-- **What is shown for a token of a program is on one line.** -/
theorem newline_notMem_valueText (ht : t ∈ (tokenize case source).1) : '\n' ∉ t.valueText := by
  obtain ⟨text, behind, hlexeme⟩ := lexeme_of_token ht
  rw [Token.valueText]
  split
  · rename_i v hv
    rw [hv] at hlexeme
    exact hlexeme.newline_notMem_written
  · exact newline_notMem_spelling t.kind

/-- The text of a token is what is shown for it, if it has one. -/
lemma newline_notMem_text? (ht : t ∈ (tokenize case source).1) : '\n' ∉ t.text?.getD [] := by
  have h := newline_notMem_valueText ht
  cases hvalue : t.value with
  | none => simp [Token.text?, hvalue]
  | some v => cases v <;> simp_all [Token.text?, Token.valueText, Value.written]

end Imperativo
