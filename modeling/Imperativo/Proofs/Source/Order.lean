import Imperativo.Proofs.Diagnostic.Merge
import Imperativo.Proofs.Source.Account

/-!
# Tokens and lexical diagnostics come in the order of their places

Pieces are never empty, so each one begins behind the place where the last one began, and what a
piece yields stands in it.

* **`tokens_rising`**, **`diagnostics_rising`** — the places of the tokens of a program go up, and so
  do those of its diagnostics.
-/

namespace Imperativo

/-! ## Places along a text -/

namespace Position

lemma key_lt_step (p : Position) (c : Char) : p.key < (p.step c).key := by
  rw [key, key, Prod.Lex.toLex_lt_toLex, step]
  split
  · exact .inl (Nat.lt_succ_self _)
  · exact .inr ⟨rfl, Nat.lt_succ_self _⟩

lemma key_le_advance (p : Position) (text : Text) : p.key ≤ (p.advance text).key := by
  induction text generalizing p with
  | nil => exact le_refl _
  | cons c text ih => exact (p.key_lt_step c).le.trans (ih _)

lemma key_lt_advance (p : Position) {text : Text} (h : text ≠ []) :
    p.key < (p.advance text).key := by
  cases text with
  | nil => exact absurd rfl h
  | cons c text => exact (p.key_lt_step c).trans_le (key_le_advance _ _)

end Position

/-! ## Rising lists -/

/-- The places go up, from `start` on. -/
structure Rising (start : ℕ ×ₗ ℕ) (places : List (ℕ ×ₗ ℕ)) : Prop where
  behind : ∀ place ∈ places, start ≤ place
  rising : places.Pairwise (· < ·)

namespace Rising

variable {start next place : ℕ ×ₗ ℕ} {places : List (ℕ ×ₗ ℕ)}

lemma nil (start : ℕ ×ₗ ℕ) : Rising start [] := ⟨nofun, .nil⟩

lemma mono (h : Rising next places) (hle : start ≤ next) : Rising start places :=
  ⟨fun place hplace => hle.trans (h.behind place hplace), h.rising⟩

lemma cons (h : Rising next places) (hle : start ≤ place) (hlt : place < next) :
    Rising start (place :: places) where
  behind := List.forall_mem_cons.mpr ⟨hle, (h.mono (hle.trans hlt.le)).behind⟩
  rising := List.pairwise_cons.mpr ⟨fun q hq => hlt.trans_le (h.behind q hq), h.rising⟩

end Rising

/-! ## Accounts -/

variable {case : KeywordCase} {p : Position} {source : Text} {ts : List Token}
  {ds : List Diagnostic}

lemma Accounted.tokens_rising (h : Accounted case p source ts ds) :
    Rising p.key (ts.map fun t => t.position.key) := by
  induction h with
  | done => exact .nil _
  | blank h _ ih => exact ih.mono (Position.key_le_advance _ _)
  | lexeme h _ ih => exact ih.cons (le_refl _) (Position.key_lt_advance _ h.ne_nil)
  | lost h _ ih => exact ih.mono (Position.key_le_advance _ _)
  | kept h _ ih =>
      rw [Position.advance_append] at ih
      exact ih.cons (Position.key_le_advance _ _) (Position.key_lt_advance _ (List.cons_ne_nil _ _))

lemma Accounted.diagnostics_rising (h : Accounted case p source ts ds) :
    Rising p.key (ds.map Diagnostic.key) := by
  induction h with
  | done => exact .nil _
  | blank h _ ih => exact ih.mono (Position.key_le_advance _ _)
  | lexeme h _ ih => exact ih.mono (Position.key_le_advance _ _)
  | lost h _ ih => exact ih.cons (le_refl _) (Position.key_lt_advance _ h.ne_nil)
  | kept h _ ih => exact ih.cons (le_refl _) (Position.key_lt_advance _ h.ne_nil)

/-- **The places of the tokens of a program go up.** -/
theorem tokens_rising (case : KeywordCase) (source : Text) :
    (tokenize case source).1.Pairwise fun t u => t.position.key < u.position.key :=
  List.pairwise_map.mp (accounted_tokenize case source).tokens_rising.rising

/-- **The places of the diagnostics of a program go up.** -/
theorem diagnostics_rising (case : KeywordCase) (source : Text) :
    (tokenize case source).2.Pairwise fun d e => d.key < e.key :=
  List.pairwise_map.mp (accounted_tokenize case source).diagnostics_rising.rising

/-- The diagnostics of an account are lexical. -/
lemma Accounted.stage_eq (h : Accounted case p source ts ds) : ∀ d ∈ ds, d.stage = .lexical := by
  induction h with
  | done => exact nofun
  | blank _ _ ih => exact ih
  | lexeme _ _ ih => exact ih
  | lost _ _ ih => exact List.forall_mem_cons.mpr ⟨rfl, ih⟩
  | kept _ _ ih => exact List.forall_mem_cons.mpr ⟨rfl, ih⟩

end Imperativo
