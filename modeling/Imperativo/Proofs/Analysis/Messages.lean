import Imperativo.Proofs.Analysis.Places
import Imperativo.Proofs.Grammar.Wording
import Imperativo.Proofs.Source.Values

/-!
# Messages are on one line

A message has words of its own and quotes the program, and neither has a newline: a text that is
rejected ends in front of one at the latest, and so does a token.

* **`newline_notMem_message`** — the messages of an analysis are on one line.
-/

namespace Imperativo

open Grammar Text

variable {case : KeywordCase} {source : Text}

/-! ## Words -/

lemma newline_notMem_kind (kind : Kind) : '\n' ∉ kind.description := by
  have hspelling := newline_notMem_spelling kind
  unfold Kind.description
  split
  · rename_i spelling h
    rw [h] at hspelling
    simpa using hspelling
  · split <;> decide

lemma newline_notMem_valueFrame {kind : Kind} {before behind : Text}
    (h : Token.valueFrame? kind = some (before, behind)) : '\n' ∉ before ∧ '\n' ∉ behind := by
  unfold Token.valueFrame? at h
  split at h <;> cases h <;> decide

/-- **A token is described on one line.** -/
lemma newline_notMem_description {t : Token} (ht : t ∈ (tokenize case source).1) :
    '\n' ∉ t.description := by
  unfold Token.description
  split
  · rename_i v before behind hv hframe
    obtain ⟨hbefore, hbehind⟩ := newline_notMem_valueFrame hframe
    have hvalue := newline_notMem_valueText ht
    rw [Token.valueText, hv] at hvalue
    simp [hbefore, hvalue, hbehind]
  · exact newline_notMem_kind t.kind

lemma newline_notMem_phrase {e : Expectation}
    (he : ∀ target, e = .assignSign target → '\n' ∉ target) : '\n' ∉ e.phrase := by
  cases e with
  | assignSign target =>
      exact List.not_mem_append (List.not_mem_append (notMem_ofList rfl) (he target rfl)) (by decide)
  | declaredName | conditionOpenParen | leftOperand | singleRelation =>
      exact List.not_mem_append (notMem_ofList rfl) (newline_notMem_kind _)
  | conditionCloseParen | blockOpen | blockClose =>
      exact List.not_mem_append (List.not_mem_append (notMem_ofList rfl) (newline_notMem_kind _))
        (notMem_ofList rfl)
  | _ => exact notMem_ofList rfl

/-! ## Messages -/

lemma newline_notMem_lexical {fault : LexicalFault} (h : '\n' ∉ fault.payload) :
    '\n' ∉ fault.message := by
  cases fault with
  | illegalCharacter c =>
      exact List.not_mem_append (notMem_ofList rfl) (List.not_mem_append h (by decide))
  | malformedNumber | invalidOperator =>
      exact List.not_mem_append (List.not_mem_append (notMem_ofList rfl) h) (by decide)
  | invalidIdentifier =>
      exact List.not_mem_append (List.not_mem_append (notMem_ofList rfl) h) (notMem_ofList rfl)
  | invalidCharacter lexeme problem =>
      have hproblem : '\n' ∉ problem.text.toList := by
        cases problem <;> exact notMem_ofList rfl
      exact List.not_mem_append (List.not_mem_append (List.not_mem_append (notMem_ofList rfl) h)
        (notMem_ofList rfl)) hproblem

lemma newline_notMem_messageAt {e : Expectation} (hphrase : '\n' ∉ e.phrase) {t : Token}
    (ht : '\n' ∉ t.description) : '\n' ∉ e.messageAt t := by
  have hbehind : '\n' ∉ "unexpected ".toList ++ t.description ++ ' ' :: e.phrase :=
    List.not_mem_append (List.not_mem_append (notMem_ofList rfl) ht)
      (List.not_mem_cons_of_ne_of_not_mem (by decide) hphrase)
  unfold Expectation.messageAt
  split
  · exact hbehind
  · exact hbehind
  · exact List.not_mem_append (List.not_mem_append hphrase (notMem_ofList rfl)) ht

lemma newline_notMem_messageAtEnd {e : Expectation} (hphrase : '\n' ∉ e.phrase) :
    '\n' ∉ e.messageAtEnd := by
  unfold Expectation.messageAtEnd
  split
  · exact List.not_mem_append (notMem_ofList rfl) (notMem_ofList rfl)
  · exact List.not_mem_append hphrase (notMem_ofList rfl)

lemma newline_notMem_stop {s : Stop} (hquotes : s.QuotesOnly ('\n' ∉ ·))
    (hrest : ∀ t ∈ s.rest, '\n' ∉ t.description) (last : Position) :
    '\n' ∉ (s.diagnostic last).message := by
  have hphrase := newline_notMem_phrase hquotes
  obtain ⟨e, fault, rest⟩ := s
  cases rest with
  | nil => exact newline_notMem_messageAtEnd hphrase
  | cons t rest => exact newline_notMem_messageAt hphrase (hrest t List.mem_cons_self)

/-- **The messages of an analysis are on one line.** -/
theorem newline_notMem_message {d : Diagnostic}
    (hd : d ∈ (Analysis.ofSource case source).log.entries) : '\n' ∉ d.message := by
  rcases mem_analysis.mp hd with hd | hd
  · obtain ⟨front, piece, behind, hpiece, hd⟩ := mem_diagnostics.mp hd
    obtain ⟨fault, after, -, hrejected, rfl⟩ := hpiece.diagnostic hd
    exact newline_notMem_lexical hrejected.newline_free
  · rw [Parser.parse_entries] at hd
    obtain ⟨s, hs, rfl⟩ := List.mem_map.mp hd
    obtain ⟨rest, hdescent⟩ := descent_program (tokenize case source).1
    refine newline_notMem_stop (fun target htarget => ?_) (fun t ht => ?_) _
    · obtain ⟨t, ht, rfl⟩ := quotesOnly_program _ s hs target htarget
      exact newline_notMem_text? ht
    · exact newline_notMem_description ((hdescent.suffix s hs).subset ht)

end Imperativo
