import Imperativo.Proofs.Source.Cutting
import Imperativo.Token.Stream

/-!
# Every character is accounted for once

A program is one piece behind another, without gap or overlap, and its tokens and diagnostics are
what the pieces yield, in their order (`Accounted`).  Since what a piece can be is settled by the
text from its first character on, the account of a program is unique.

* **`tokenize_iff`** — the tokens and diagnostics of a program are those of its account.
-/

namespace Imperativo

open Piece

/-- The account of a program that begins at `p`: its pieces in order, with the tokens and the
diagnostics that they yield. -/
inductive Accounted (case : KeywordCase) : Position → Text → List Token → List Diagnostic → Prop
  /-- Behind the last piece nothing is left. -/
  | done {p : Position} : Accounted case p [] [] []
  /-- A blank yields nothing. -/
  | blank {p : Position} {text behind : Text} {ts : List Token} {ds : List Diagnostic}
      (h : Stands case text behind .blank) (hrest : Accounted case (p.advance text) behind ts ds) :
      Accounted case p (text ++ behind) ts ds
  /-- A lexeme yields the token of its kind and value, at its first character. -/
  | lexeme {p : Position} {text behind : Text} {ts : List Token} {ds : List Diagnostic} {kind : Kind}
      {value : Option Value} (h : Stands case text behind (.lexeme kind value))
      (hrest : Accounted case (p.advance text) behind ts ds) :
      Accounted case p (text ++ behind) (⟨kind, value, p⟩ :: ts) ds
  /-- A fault from which nothing is kept yields a diagnostic, at its first character. -/
  | lost {p : Position} {text behind : Text} {ts : List Token} {ds : List Diagnostic}
      {fault : LexicalFault} (h : Stands case text behind (.fault fault none))
      (hrest : Accounted case (p.advance text) behind ts ds) :
      Accounted case p (text ++ behind) ts (.ofLexical fault p :: ds)
  /-- A fault that ends with a kept separator yields a diagnostic, at its first character, and the
  token of that separator, at its last. -/
  | kept {p : Position} {front behind : Text} {c : Char} {ts : List Token} {ds : List Diagnostic}
      {fault : LexicalFault} {s : Sign}
      (h : Stands case (front ++ [c]) behind (.fault fault (some s)))
      (hrest : Accounted case (p.advance (front ++ [c])) behind ts ds) :
      Accounted case p (front ++ c :: behind) (⟨.sign s, none, p.advance front⟩ :: ts)
        (.ofLexical fault p :: ds)

variable {case : KeywordCase}

/-- The pieces of a program are an account of it. -/
lemma accounted_cut (case : KeywordCase) (source : Text) (p : Position) :
    Accounted case p source (tokensOf (place p (cut case source)))
      (diagnosticsOf (place p (cut case source))) := by
  induction hn : source.length using Nat.strong_induction_on generalizing source p with
  | _ n ih =>
      cases source with
      | nil =>
          rw [cut]
          exact .done
      | cons c rest =>
          obtain ⟨behind, hsplit, h⟩ := fits_first case c rest
          generalize (first case c rest).text = text at hsplit h
          generalize (first case c rest).content = content at h
          have hlt : behind.length < n := by
            rw [← hn, hsplit, List.length_append]
            have := List.length_pos_of_ne_nil h.ne_nil
            omega
          have hrest := ih _ hlt behind (p.advance text) rfl
          rw [hsplit, h.cut_eq]
          cases content with
          | blank => exact .blank h hrest
          | lexeme kind value => exact .lexeme h hrest
          | fault fault separator =>
              cases separator with
              | none => exact .lost h hrest
              | some s =>
                  cases h with
                  | @kept _ _ front _ d _ hr hs hsplit' hf hle hd =>
                      have := Accounted.kept (.kept hr hs hsplit' hf hle hd) hrest
                      simpa [place, tokensOf, diagnosticsOf, PlacedPiece.token?,
                        PlacedPiece.diagnostic?] using this

/-- There is no other account. -/
lemma Accounted.eq_cut {p : Position} {source : Text} {ts : List Token} {ds : List Diagnostic}
    (h : Accounted case p source ts ds) : tokensOf (place p (cut case source)) = ts ∧
      diagnosticsOf (place p (cut case source)) = ds := by
  induction h with
  | done => rw [cut]; exact ⟨rfl, rfl⟩
  | blank h _ ih =>
      rw [h.cut_eq]
      exact ih
  | lexeme h _ ih =>
      rw [h.cut_eq]
      exact ⟨congrArg _ ih.1, ih.2⟩
  | lost h _ ih =>
      rw [h.cut_eq]
      exact ⟨ih.1, congrArg _ ih.2⟩
  | @kept p front behind c ts ds fault s h _ ih =>
      have hsplit : front ++ c :: behind = front ++ [c] ++ behind := by simp
      rw [hsplit, h.cut_eq]
      refine ⟨?_, congrArg _ ih.2⟩
      rw [← ih.1]
      simp [place, tokensOf, PlacedPiece.token?]

lemma accounted_tokenize (case : KeywordCase) (source : Text) :
    Accounted case Position.start source (tokenize case source).1 (tokenize case source).2 :=
  accounted_cut case source Position.start

lemma Accounted.tokenize_eq {source : Text} {ts : List Token} {ds : List Diagnostic}
    (h : Accounted case Position.start source ts ds) : tokenize case source = (ts, ds) := by
  obtain ⟨rfl, rfl⟩ := h.eq_cut
  rfl

/-- **The tokens and diagnostics of a program are those of its account.** -/
theorem tokenize_iff (case : KeywordCase) (source : Text) (tokens : List Token)
    (diagnostics : List Diagnostic) : tokenize case source = (tokens, diagnostics) ↔
      Accounted case Position.start source tokens diagnostics := by
  constructor
  · intro h
    have haccount := accounted_tokenize case source
    rwa [h] at haccount
  · exact Accounted.tokenize_eq

end Imperativo
