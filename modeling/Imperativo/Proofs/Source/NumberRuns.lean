import Imperativo.Proofs.Number.Rounding
import Imperativo.Proofs.Source.Account

/-!
# Runs of digits and points

Two scanners share the work on a run of digits and points: one takes the run from its first digit
on, the other takes the points in front of it one by one, as long as no digit follows.  Together
they tell all such runs apart.

* **`shape`** — a run of digits and points begins with a digit, or has points alone, or has points
  and then a digit.
* **`accounted_points`** — points in front of what does not begin with a digit are reported one by
  one.
* **`tokenize_number_run`** — which runs are integers, which are decimal fractions, and what is
  reported of the others.
-/

namespace Imperativo

open Piece

namespace NumberRun

variable {case : KeywordCase} {p : Position} {w : Text}

/-! ## Shapes -/

/-- What a run of digits and points can look like, apart from what is behind its first digit. -/
inductive Shape : Text → Prop
  | digit {c : Char} {more : Text} (hc : c.isDigit = true) : Shape (c :: more)
  | points (k : Nat) : Shape (List.replicate (k + 1) '.')
  | point (k : Nat) {d : Char} {more : Text} (hd : d.isDigit = true) :
      Shape (List.replicate k '.' ++ '.' :: d :: more)

/-- **Every run of digits and points has one of the shapes.** -/
lemma shape (hne : w ≠ []) (hrun : ∀ c ∈ w, isNumberChar c = true) : Shape w := by
  induction w with
  | nil => exact absurd rfl hne
  | cons c more ih =>
      obtain ⟨hc, hmore⟩ := List.forall_mem_cons.mp hrun
      rw [isNumberChar, Bool.or_eq_true, beq_iff_eq] at hc
      rcases hc with hc | rfl
      · exact .digit hc
      · rcases eq_or_ne more [] with rfl | hne
        · exact .points 0
        · cases ih hne hmore with
          | digit hd => exact .point 0 hd
          | points k => exact .points (k + 1)
          | point k hd => exact .point (k + 1) hd

/-! ## Points -/

/-- A report of each of `k` characters from `p` on. -/
def loosePoints (p : Position) (k : Nat) : List Diagnostic :=
  (List.range k).map fun i => .ofLexical (.illegalCharacter '.') ⟨p.line, p.column + i⟩

lemma loosePoints_succ (p : Position) (k : Nat) : loosePoints p (k + 1) =
    .ofLexical (.illegalCharacter '.') p :: loosePoints ⟨p.line, p.column + 1⟩ k := by
  rw [loosePoints, List.range_succ_eq_map, List.map_cons, List.map_map]
  refine congrArg (_ :: ·) (List.map_congr_left fun i _ => ?_)
  rw [Function.comp_apply, Nat.succ_eq_one_add, ← Nat.add_assoc]

/-- **Points in front of what does not begin with a digit are reported one by one.** -/
lemma accounted_points (k : Nat) {rest : Text} {ts : List Token} {ds : List Diagnostic}
    (hends : ∀ d ∈ rest.head?, d.isDigit = false)
    (h : Accounted case ⟨p.line, p.column + k⟩ rest ts ds) :
    Accounted case p (List.replicate k '.' ++ rest) ts (loosePoints p k ++ ds) := by
  induction k generalizing p with
  | zero => exact h
  | succ k ih =>
      -- behind the first point stands another one, or what follows all of them
      have hlone : ∀ d ∈ (List.replicate k '.' ++ rest).head?, d.isDigit = false := by
        cases k with
        | zero => exact hends
        | succ k =>
            rintro _ ⟨⟩
            rfl
      have hpoint : Stands case ['.'] (List.replicate k '.' ++ rest)
          (.fault (.illegalCharacter '.') none) := .plain (.lonePoint hlone) rfl
      have hbehind : Accounted case ⟨p.line, p.column + 1 + k⟩ rest ts ds := by
        rwa [Nat.add_right_comm]
      rw [loosePoints_succ]
      change Accounted case p (['.'] ++ (List.replicate k '.' ++ rest)) _ _
      exact .lost hpoint (ih (p := ⟨p.line, p.column + 1⟩) hbehind)

/-- A run that is a piece of its own is all there is. -/
lemma tokenize_lexeme {kind : Kind} {value : Option Value} (h : Piece.Lexeme case w [] kind value) :
    tokenize case w = ([⟨kind, value, Position.start⟩], []) := by
  have haccount := Accounted.lexeme (p := Position.start) (.lexeme h) .done
  rw [List.append_nil] at haccount
  exact haccount.tokenize_eq

lemma tokenize_malformed (h : Rejected (.malformedNumber w) []) :
    tokenize case w = ([], [.ofLexical (.malformedNumber w) Position.start]) := by
  have haccount : Accounted case Position.start (w ++ []) [] _ := .lost (.plain h rfl) .done
  rw [List.append_nil] at haccount
  exact haccount.tokenize_eq

/-! ## Runs by themselves -/

/-- What is reported of a run of digits and points that is no number. -/
inductive Faults : Text → List Diagnostic → Prop
  /-- Points alone are reported one by one. -/
  | points (k : Nat) : Faults (List.replicate k '.') (loosePoints Position.start k)
  /-- What begins with a digit is reported as a whole. -/
  | number {c : Char} {more : Text} (hc : c.isDigit = true) :
      Faults (c :: more) [.ofLexical (.malformedNumber (c :: more)) Position.start]
  /-- Of the points in front of a digit, the last one is reported together with all that follows,
  and the others one by one. -/
  | point (k : Nat) {d : Char} {more : Text} (hd : d.isDigit = true) :
      Faults (List.replicate k '.' ++ '.' :: d :: more) (loosePoints Position.start k ++
        [.ofLexical (.malformedNumber ('.' :: d :: more)) ⟨1, k + 1⟩])

/-- Digits alone, of a number that an integer can be. -/
def IsInteger (w : Text) : Prop := Digits w ∧ Text.ofDigits w ≤ 2 ^ 63 - 1

/-- Digits, a point, and digits. -/
def IsDecimal (w : Text) : Prop :=
  ∃ whole fraction, Digits whole ∧ Digits fraction ∧ w = whole ++ '.' :: fraction

lemma tokenize_integer (case : KeywordCase) (h : IsInteger w) : tokenize case w =
    ([⟨.integer, some (.integer (Text.ofDigits w)), Position.start⟩], []) := by
  obtain ⟨hdigits, hn⟩ := h
  obtain ⟨c, more, rfl, hc, hmore⟩ := hdigits.cons
  exact tokenize_lexeme (.integer hc ⟨hmore, by simp⟩ (by simp) hn)

lemma tokenize_decimal (case : KeywordCase) {whole fraction : Text} (hwhole : Digits whole)
    (hfraction : Digits fraction) :
    tokenize case (whole ++ '.' :: fraction) =
      ([⟨.float, some (.float (Binary64.ofDecimal whole fraction)), Position.start⟩], []) :=
  tokenize_lexeme (.float hwhole hfraction (by simp))

/-- Digits, and behind them nothing or a point and the rest of the run. -/
lemma digits_then {c : Char} {more : Text} (hc : c.isDigit = true)
    (hrun : ∀ d ∈ more, isNumberChar d = true) : Digits (c :: more) ∨
      ∃ whole run, Digits whole ∧ (∀ d ∈ run, isNumberChar d = true) ∧
        c :: more = whole ++ '.' :: run := by
  have hsplit : more.takeWhile Char.isDigit ++ more.dropWhile Char.isDigit = more :=
    List.takeWhile_append_dropWhile
  have hwhole := Whole.takeWhile Char.isDigit more
  have hdigits : Digits (c :: more.takeWhile Char.isDigit) :=
    ⟨List.cons_ne_nil _ _, List.forall_mem_cons.mpr ⟨hc, hwhole.all⟩⟩
  cases hbehind : more.dropWhile Char.isDigit with
  | nil =>
      rw [hbehind, List.append_nil] at hsplit
      rw [hsplit] at hdigits
      exact .inl hdigits
  | cons d run =>
      rw [hbehind] at hsplit hwhole
      have hmem : ∀ e ∈ d :: run, isNumberChar e = true := fun e he =>
        hrun e (hsplit ▸ List.mem_append_right _ he)
      obtain ⟨hd, hrun⟩ := List.forall_mem_cons.mp hmem
      rw [isNumberChar, hwhole.ends d rfl, Bool.false_or, beq_iff_eq] at hd
      subst hd
      exact .inr ⟨_, run, hdigits, hrun, congrArg (c :: ·) hsplit.symm⟩

/-- **What is no number is reported**, and yields nothing. -/
lemma tokenize_faults (case : KeywordCase) (hne : w ≠ []) (hrun : ∀ c ∈ w, isNumberChar c = true)
    (hinteger : ¬ IsInteger w) (hdecimal : ¬ IsDecimal w) :
    ∃ ds, tokenize case w = ([], ds) ∧ Faults w ds := by
  cases shape hne hrun with
  | @digit c more hc =>
      refine ⟨_, tokenize_malformed ?_, .number hc⟩
      rcases digits_then hc (List.forall_mem_cons.mp hrun).2 with hdigits | ⟨whole, run, hwhole,
        hmore, hsplit⟩
      · have hbig : maxInteger < Text.ofDigits (c :: more) :=
          Nat.lt_of_not_le fun hn => hinteger ⟨hdigits, hn⟩
        exact .tooLarge hc ⟨(List.forall_mem_cons.mp hdigits.2).2, by simp⟩ (by simp) hbig
      · rw [hsplit] at hdecimal ⊢
        exact .fraction hwhole ⟨hmore, by simp⟩ fun hfraction =>
          hdecimal ⟨whole, run, hwhole, hfraction, rfl⟩
  | points k =>
      have haccount : Accounted case Position.start (List.replicate (k + 1) '.' ++ []) [] _ :=
        accounted_points (k + 1) (by simp) .done
      rw [List.append_nil, List.append_nil] at haccount
      exact ⟨_, haccount.tokenize_eq, .points (k + 1)⟩
  | @point k d more hd =>
      have hmore : ∀ e ∈ more, isNumberChar e = true := by
        intro e he
        exact hrun e (by simp [he])
      have hlast : Accounted case ⟨1, 1 + k⟩ ('.' :: d :: more ++ []) [] _ :=
        .lost (.plain (.point hd ⟨hmore, by simp⟩) rfl) .done
      rw [List.append_nil] at hlast
      have haccount := accounted_points (p := Position.start) k (by rintro _ ⟨⟩; rfl) hlast
      rw [Nat.add_comm] at haccount
      exact ⟨_, haccount.tokenize_eq, .point k hd⟩

/-- A single token is that of an integer or of a decimal fraction. -/
lemma kind_of_tokenize {t : Token} (hne : w ≠ []) (hrun : ∀ c ∈ w, isNumberChar c = true)
    (ht : tokenize case w = ([t], [])) :
    IsInteger w ∧ t.kind = .integer ∨ IsDecimal w ∧ t.kind = .float := by
  by_cases hinteger : IsInteger w
  · rw [tokenize_integer case hinteger] at ht
    cases ht
    exact .inl ⟨hinteger, rfl⟩
  by_cases hdecimal : IsDecimal w
  · obtain ⟨whole, fraction, hwhole, hfraction, rfl⟩ := hdecimal
    rw [tokenize_decimal case hwhole hfraction] at ht
    cases ht
    exact .inr ⟨⟨whole, fraction, hwhole, hfraction, rfl⟩, rfl⟩
  · obtain ⟨ds, hds, -⟩ := tokenize_faults case hne hrun hinteger hdecimal
    rw [hds] at ht
    cases ht

/-- How a run of digits and points is tokenized when it is all of a program. -/
structure Classified (case : KeywordCase) (w : Text) : Prop where
  /-- The integers are the runs of digits alone that are not too large. -/
  integer_iff : (∃ t, tokenize case w = ([t], []) ∧ t.kind = .integer) ↔ IsInteger w
  /-- An integer has the value of its digits. -/
  integer : IsInteger w →
    tokenize case w = ([⟨.integer, some (.integer (Text.ofDigits w)), Position.start⟩], [])
  /-- The decimal fractions are the runs with one point, and digits on both sides of it. -/
  float_iff : (∃ t, tokenize case w = ([t], []) ∧ t.kind = .float) ↔ IsDecimal w
  /-- A decimal fraction has the number that is nearest to it, which may be infinite. -/
  float : ∀ whole fraction, Digits whole → Digits fraction → w = whole ++ '.' :: fraction →
    ∃ x : Binary64, tokenize case w = ([⟨.float, some (.float x), Position.start⟩], []) ∧
      x.negative = false ∧ Binary64.Nearest (Binary64.decimalValue whole fraction) x.ordinal
  /-- Of any other run there is a report, and nothing else. -/
  otherwise : ¬ IsInteger w → ¬ IsDecimal w →
    (tokenize case w).1 = [] ∧ Faults w (tokenize case w).2

/-- **Runs of digits and points are told apart.**  One is an integer if it has digits alone and is
not too large, one with a point between digits is a decimal fraction, and any other is reported. -/
theorem tokenize_number_run (case : KeywordCase) (w : Text) (hne : w ≠ [])
    (hrun : ∀ c ∈ w, c.isDigit = true ∨ c = '.') : Classified case w := by
  have hchars : ∀ c ∈ w, isNumberChar c = true := by
    simpa [isNumberChar] using hrun
  refine ⟨⟨?_, fun h => ⟨_, tokenize_integer case h, rfl⟩⟩, tokenize_integer case, ⟨?_, ?_⟩, ?_, ?_⟩
  · rintro ⟨t, ht, hkind⟩
    rcases kind_of_tokenize hne hchars ht with ⟨hinteger, -⟩ | ⟨-, hfloat⟩
    · exact hinteger
    · cases hkind.symm.trans hfloat
  · rintro ⟨t, ht, hkind⟩
    rcases kind_of_tokenize hne hchars ht with ⟨-, hinteger⟩ | ⟨hdecimal, -⟩
    · cases hkind.symm.trans hinteger
    · exact hdecimal
  · rintro ⟨whole, fraction, hwhole, hfraction, rfl⟩
    exact ⟨_, tokenize_decimal case hwhole hfraction, rfl⟩
  · rintro whole fraction hwhole hfraction rfl
    obtain ⟨hsign, hnearest⟩ := (Binary64.ofDecimal_iff whole fraction _).mp rfl
    exact ⟨_, tokenize_decimal case hwhole hfraction, hsign, hnearest⟩
  · intro hinteger hdecimal
    obtain ⟨ds, hds, hfaults⟩ := tokenize_faults case hne hchars hinteger hdecimal
    rw [hds]
    exact ⟨rfl, hfaults⟩

/-- Two points in front of a digit, and two behind it: the first one is reported by itself. -/
theorem tokenize_number_run_points :
    let w : Text := "..5.0.".toList
    w ≠ [] ∧ (∀ c ∈ w, c.isDigit = true ∨ c = '.') ∧ Classified .insensitive w ∧
      tokenize .insensitive w = ([], [.ofLexical (.illegalCharacter '.') ⟨1, 1⟩,
        .ofLexical (.malformedNumber ".5.0.".toList) ⟨1, 2⟩]) := by
  intro w
  have hne : w ≠ [] := by decide
  have hall : w.all isNumberChar = true := by decide
  have hrun : ∀ c ∈ w, c.isDigit = true ∨ c = '.' := by
    simpa only [List.all_eq_true, isNumberChar, Bool.or_eq_true, beq_iff_eq] using hall
  refine ⟨hne, hrun, tokenize_number_run .insensitive w hne hrun, by decide +kernel⟩

end NumberRun

end Imperativo
