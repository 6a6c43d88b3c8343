import Imperativo.Analysis
import Imperativo.Proofs.Building.Move
import Imperativo.Proofs.Source.Places

/-!
# Diagnostics are on lines of the program

Diagnostics are placed by counting newlines, while a screen shows the lines of a program, of which
the last need not end with a newline.  A character stands on the line that the newlines in front of
it tell (`Text.count_lt_length_linesAfter`), and every place is that of a character: a token or a
rejected text begins there.  The one exception is the end of a program without tokens, which is
reported on the first line, whether there is such a line or not.

* **`line_analysis`** — the diagnostics of a program are on its lines.
-/

namespace Imperativo

namespace Text

/-! ## Counting lines -/

/-- Characters that have been read already are on a line. -/
lemma length_linesAfter_pos {line : Text} (h : line ≠ []) (text : Text) :
    0 < (linesAfter line text).length := by
  induction text generalizing line with
  | nil => simp [linesAfter, h]
  | cons c text ih =>
      by_cases hc : c = '\n'
      · simp [linesAfter, hc]
      · rw [linesAfter.eq_3 line c text hc]
        exact ih (by simp)

/-- The character behind `front` is on the line that the newlines in `front` tell. -/
lemma count_lt_length_linesAfter (line front : Text) {behind : Text} (h : behind ≠ []) :
    front.count '\n' < (linesAfter line (front ++ behind)).length := by
  induction front generalizing line with
  | nil =>
      obtain ⟨c, rest, rfl⟩ := List.exists_cons_of_ne_nil h
      by_cases hc : c = '\n'
      · simp [linesAfter, hc]
      · rw [List.nil_append, linesAfter.eq_3 line c rest hc]
        exact length_linesAfter_pos (by simp) rest
  | cons c front ih =>
      by_cases hc : c = '\n'
      · subst hc
        rw [List.cons_append, linesAfter, List.count_cons_self, List.length_cons]
        exact Nat.succ_lt_succ (ih [])
      · rw [List.cons_append, linesAfter.eq_3 line c _ hc, List.count_cons_of_ne hc]
        exact ih (line ++ [c])

/-- There are no more lines than characters. -/
lemma length_linesAfter_le (line text : Text) :
    (linesAfter line text).length ≤ line.length + text.length := by
  induction text generalizing line with
  | nil => cases line <;> simp [linesAfter]
  | cons c text ih =>
      by_cases hc : c = '\n'
      · have hrest := ih []
        simp only [List.length_nil] at hrest
        simp only [hc, linesAfter, List.length_cons]
        omega
      · have hrest := ih (line ++ [c])
        rw [linesAfter.eq_3 line c text hc]
        simp only [List.length_append, List.length_cons, List.length_nil] at hrest ⊢
        omega

lemma length_lines_le (text : Text) : (lines text).length ≤ text.length := by
  simpa [lines] using length_linesAfter_le [] text

end Text

/-! ## Lines of tokens and diagnostics -/

variable {case : KeywordCase} {source : Text}

/-- The place of a character is on one of the lines. -/
lemma line_advance_start (front : Text) {behind : Text} (h : behind ≠ []) :
    1 ≤ (Position.start.advance front).line ∧
      (Position.start.advance front).line ≤ (Text.lines (front ++ behind)).length := by
  have hlt : front.count '\n' < (Text.lines (front ++ behind)).length :=
    Text.count_lt_length_linesAfter [] front h
  have hline : (Position.start.advance front).line = 1 + front.count '\n' :=
    Position.line_advance Position.start front
  omega

lemma line_token {t : Token} (ht : t ∈ (tokenize case source).1) :
    1 ≤ t.position.line ∧ t.position.line ≤ (Text.lines source).length := by
  obtain ⟨front, piece, behind, hpiece, ht⟩ := mem_tokens.mp ht
  obtain ⟨inside, text, after, htext, hlength, -, hplace, -⟩ := hpiece.token ht
  have hne : text ++ after ≠ [] := by
    intro hnil
    rw [List.append_assoc, hnil, List.append_nil] at htext
    have := congrArg List.length htext
    rw [List.length_append] at this
    omega
  have hsource : source = (front ++ inside) ++ (text ++ after) := by
    rw [hpiece.source_eq, List.append_assoc, htext]
    simp only [List.append_assoc]
  rw [hplace, hsource]
  exact line_advance_start (front ++ inside) hne

lemma line_lexical {d : Diagnostic} (hd : d ∈ (tokenize case source).2) :
    1 ≤ d.line ∧ d.line ≤ (Text.lines source).length := by
  obtain ⟨front, piece, behind, hpiece, hd⟩ := mem_diagnostics.mp hd
  obtain ⟨fault, after, -, -, rfl⟩ := hpiece.diagnostic hd
  have hne : piece.text ++ behind ≠ [] := by simp [hpiece.stands.ne_nil]
  rw [hpiece.source_eq, List.append_assoc]
  exact line_advance_start front hne

/-- An error of the grammar is on the line of a token, or on the first line. -/
lemma line_grammar {d : Diagnostic} (hd : d ∈
    ((Parser.ofTokens (tokenize case source).1).parse .program).log.entries) :
    1 ≤ d.line ∧ d.line ≤ max 1 (Text.lines source).length := by
  by_cases hnil : (tokenize case source).1 = []
  · rw [hnil] at hd
    have hfirst : ∀ d ∈ ((Parser.ofTokens []).parse .program).log.entries, d.line = 1 := by decide
    have := hfirst d hd
    omega
  · obtain ⟨t, ht, hline, -⟩ := (parse_places hnil .program).2 d hd
    have := line_token ht
    omega

/-- The log has what was recorded while the program was cut and while its tokens were read. -/
lemma mem_analysis {d : Diagnostic} : d ∈ (Analysis.ofSource case source).log.entries ↔
    d ∈ (tokenize case source).2 ∨
      d ∈ ((Parser.ofTokens (tokenize case source).1).parse .program).log.entries :=
  List.mem_mergeSort.trans List.mem_append

/-- **The diagnostics of a program are on its lines**, and on the first one if it has none. -/
theorem line_analysis {d : Diagnostic}
    (hd : d ∈ (Analysis.ofSource case source).log.entries) :
    1 ≤ d.line ∧ d.line ≤ max 1 (Text.lines source).length := by
  rcases mem_analysis.mp hd with hd | hd
  · have := line_lexical hd
    omega
  · exact line_grammar hd

end Imperativo
