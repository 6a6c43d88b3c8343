import Imperativo.Number.Binary64
import Mathlib.Algebra.Order.Field.Power
import Mathlib.Data.Rat.Cast.Order
import Mathlib.Tactic

/-!
# Numbers are rounded correctly

A decimal fraction denotes the number of the format that is nearest to it; of two that are equally
near it denotes the one whose last digit is even.  Infinity takes part in this as if the format went
on there: it stands where the next finite magnitude would (`Nearest`).

The magnitudes with one exponent are the multiples of one power of two, so near the quotient the
format is a grid (`magnitudeOf_level`).  Rounding on that grid is rounding to a whole number; what
is left is that the neighbours of the result are not nearer where the grid changes, at the ends of a
binade (`nearest_of_middles`).

* **`nearest_iff`** — the ordinal of a quotient is the one that is nearest to it, and no other is.
* **`ofDecimal_iff`** — the number of a decimal fraction is the nearest one.
-/

namespace Imperativo.Binary64

/-! ## Magnitudes -/

/-- The magnitude with ordinal `n`.  For infinity it is where the next finite magnitude would be. -/
def magnitudeOf (n : Nat) : ℚ := significand n * 2 ^ exponent n

/-- The ordinal is nearest to `q`, and even if another one is equally near. -/
structure Nearest (q : ℚ) (n : Nat) : Prop where
  le : n ≤ infinityOrdinal
  nearest : ∀ m ≤ infinityOrdinal, |magnitudeOf n - q| ≤ |magnitudeOf m - q|
  even : ∀ m ≤ infinityOrdinal, m ≠ n → |magnitudeOf m - q| = |magnitudeOf n - q| → Even n

variable {a b n : Nat} {q : ℚ}

lemma binade_pos : 0 < binade := by decide

lemma even_binade : Even binade := ⟨Nat.pow 2 51, by decide⟩

/-- **A level of the grid.**  The ordinals from the `j`-th multiple of a binade on are those of the
multiples of one power of two, up to the end of the binade.  The first binade starts with zero, the
others where the one before ends. -/
lemma magnitudeOf_level {j r : Nat} (hstart : j = 0 ∨ binade ≤ r) (hend : r ≤ 2 * binade) :
    magnitudeOf (j * binade + r) = r * 2 ^ ((j : ℤ) - 1074) := by
  have hpos := binade_pos
  rcases lt_or_ge r binade with hlt | hge
  · obtain rfl : j = 0 := by omega
    simp [magnitudeOf, significand, exponent, hlt]
  · have hbig : ¬ j * binade + r < binade := by
      have := Nat.zero_le (j * binade)
      omega
    rcases Nat.lt_or_ge r (2 * binade) with hlt | hfull
    · obtain ⟨s, rfl⟩ := Nat.exists_eq_add_of_le hge
      have hs : s < binade := by omega
      have hsplit : j * binade + (binade + s) = s + (j + 1) * binade := by ring
      have hmod : (j * binade + (binade + s)) % binade = s := by
        rw [hsplit, Nat.add_mul_mod_self_right, Nat.mod_eq_of_lt hs]
      have hdiv : (j * binade + (binade + s)) / binade = j + 1 := by
        rw [hsplit, Nat.add_mul_div_right _ _ hpos, Nat.div_eq_of_lt hs, Nat.zero_add]
      simp only [magnitudeOf, significand, exponent, if_neg hbig, hmod, hdiv]
      congr 2
      push_cast
      ring
    · obtain rfl : r = 2 * binade := by omega
      have hsplit : j * binade + 2 * binade = (j + 2) * binade := by ring
      have hmod : (j * binade + 2 * binade) % binade = 0 := by
        rw [hsplit, Nat.mul_mod_left]
      have hdiv : (j * binade + 2 * binade) / binade = j + 2 := by
        rw [hsplit, Nat.mul_div_cancel _ hpos]
      have hexponent : ((j + 2 : Nat) : ℤ) - 1075 = (j : ℤ) - 1074 + 1 := by push_cast; ring
      simp only [magnitudeOf, significand, exponent, if_neg hbig, hmod, hdiv, hexponent]
      rw [zpow_add_one₀ two_ne_zero]
      push_cast
      ring

/-- Every ordinal is on some level, and not at its end. -/
lemma exists_level (n : Nat) :
    ∃ j r, n = j * binade + r ∧ (j = 0 ∨ binade ≤ r) ∧ r < 2 * binade := by
  have hpos := binade_pos
  have hmod := Nat.mod_lt n hpos
  have hdiv := Nat.div_add_mod n binade
  cases h : n / binade with
  | zero => exact ⟨0, n % binade, by simp [h] at hdiv ⊢; omega, .inl rfl, by omega⟩
  | succ j =>
      refine ⟨j, binade + n % binade, ?_, .inr (by omega), by omega⟩
      rw [h] at hdiv
      nlinarith

/-- Greater ordinals are those of greater magnitudes. -/
lemma magnitudeOf_strictMono : StrictMono magnitudeOf := by
  refine strictMono_nat_of_lt_succ fun n => ?_
  obtain ⟨j, r, rfl, hstart, hend⟩ := exists_level n
  have hunit : (0 : ℚ) < 2 ^ ((j : ℤ) - 1074) := by positivity
  rw [Nat.add_assoc, magnitudeOf_level hstart hend.le, magnitudeOf_level (by omega) (by omega)]
  push_cast
  linarith

/-! ## Neighbours -/

/-- No other ordinal is nearer than `n` if the quotient is between the middles of the steps from `n`
to its neighbours.  A quotient in such a middle asks for an even ordinal. -/
lemma nearest_of_middles
    (habove : 2 * q ≤ magnitudeOf n + magnitudeOf (n + 1) ∧
      (2 * q = magnitudeOf n + magnitudeOf (n + 1) → Even n))
    (hbelow : ∀ m, n = m + 1 → magnitudeOf m + magnitudeOf n ≤ 2 * q ∧
      (magnitudeOf m + magnitudeOf n = 2 * q → Even n)) (m : Nat) (hne : m ≠ n) :
    |magnitudeOf n - q| ≤ |magnitudeOf m - q| ∧
      (|magnitudeOf m - q| = |magnitudeOf n - q| → Even n) := by
  rcases Nat.lt_or_gt_of_ne hne with hlt | hgt
  · obtain ⟨k, rfl⟩ := Nat.exists_eq_succ_of_ne_zero (Nat.ne_zero_of_lt hlt)
    obtain ⟨hmiddle, heven⟩ := hbelow k rfl
    have hle := magnitudeOf_strictMono.monotone (Nat.le_of_lt_succ hlt)
    have hstep := magnitudeOf_strictMono (Nat.lt_succ_self k)
    have hfar : |magnitudeOf m - q| = q - magnitudeOf m := by
      rw [abs_sub_comm, abs_of_nonneg (by linarith)]
    rw [hfar]
    refine ⟨abs_le.mpr ⟨by linarith, by linarith⟩, fun htie => heven ?_⟩
    rcases abs_cases (magnitudeOf (k + 1) - q) with ⟨h, _⟩ | ⟨h, _⟩ <;> linarith
  · obtain ⟨hmiddle, heven⟩ := habove
    have hle := magnitudeOf_strictMono.monotone (Nat.succ_le_of_lt hgt)
    have hstep := magnitudeOf_strictMono (Nat.lt_succ_self n)
    simp only [Nat.succ_eq_add_one] at hle hstep
    have hfar : |magnitudeOf m - q| = magnitudeOf m - q := abs_of_nonneg (by linarith)
    rw [hfar]
    refine ⟨abs_le.mpr ⟨by linarith, by linarith⟩, fun htie => heven ?_⟩
    rcases abs_cases (magnitudeOf n - q) with ⟨h, _⟩ | ⟨h, _⟩ <;> linarith

/-- Behind infinity there is no number: what would be rounded to a greater ordinal is rounded to
infinity. -/
lemma nearest_min
    (h : ∀ m ≠ n, |magnitudeOf n - q| ≤ |magnitudeOf m - q| ∧
      (|magnitudeOf m - q| = |magnitudeOf n - q| → Even n)) :
    Nearest q (min infinityOrdinal n) := by
  rcases Nat.lt_or_ge infinityOrdinal n with hlt | hle
  · rw [min_eq_left hlt.le]
    have hinfinity := (h infinityOrdinal hlt.ne).1
    have hstep := magnitudeOf_strictMono hlt
    -- the quotient is nearer to `n` than to infinity, so it is above both
    have habove : magnitudeOf infinityOrdinal < q := by
      by_contra hq
      rw [not_lt] at hq
      rw [abs_of_nonneg (by linarith), abs_of_nonneg (by linarith)] at hinfinity
      linarith
    have hnearer : ∀ m < infinityOrdinal,
        |magnitudeOf infinityOrdinal - q| < |magnitudeOf m - q| := by
      intro m hm
      have := magnitudeOf_strictMono hm
      rw [abs_sub_comm, abs_sub_comm _ q, abs_of_nonneg (by linarith), abs_of_nonneg (by linarith)]
      linarith
    refine ⟨le_rfl, fun m hm => ?_, fun m hm hne htie => ?_⟩
    · rcases Nat.lt_or_eq_of_le hm with hm | rfl
      · exact (hnearer m hm).le
      · exact le_rfl
    · exact absurd htie (hnearer m (Nat.lt_of_le_of_ne hm hne)).ne'
  · rw [min_eq_right hle]
    refine ⟨hle, fun m _ => ?_, fun m _ hne htie => (h m hne).2 htie⟩
    by_cases hne : m = n
    · rw [hne]
    · exact (h m hne).1

/-- Only one ordinal is nearest: of two that are equally near both would be even, and one between
them nearer. -/
lemma Nearest.unique {m : Nat} (hn : Nearest q n) (hm : Nearest q m) : n = m := by
  by_contra hne
  wlog hlt : n < m generalizing n m
  · exact this hm hn (Ne.symm hne) (by omega)
  have htie : |magnitudeOf m - q| = |magnitudeOf n - q| :=
    le_antisymm (hm.nearest n hn.le) (hn.nearest m hm.le)
  obtain ⟨i, hi⟩ := hn.even m hm.le (Ne.symm hne) htie
  obtain ⟨k, hk⟩ := hm.even n hn.le hne htie.symm
  have hbetween := hn.nearest (n + 1) (by have := hm.le; omega)
  have hstep := magnitudeOf_strictMono (Nat.lt_succ_self n)
  have hstep' := magnitudeOf_strictMono (show n + 1 < m by omega)
  simp only [Nat.succ_eq_add_one] at hstep
  rcases abs_cases (magnitudeOf n - q) with ⟨h, _⟩ | ⟨h, _⟩ <;>
    rcases abs_cases (magnitudeOf m - q) with ⟨h', _⟩ | ⟨h', _⟩ <;>
      rcases abs_cases (magnitudeOf (n + 1) - q) with ⟨h'', _⟩ | ⟨h'', _⟩ <;> linarith

/-! ## Rounding to a whole number -/

/-- The whole number is at most half a unit away, and even if it is exactly that. -/
lemma roundHalfEven_spec (a : Nat) (hb : 0 < b) :
    (2 * a ≤ 2 * roundHalfEven a b * b + b ∧
      (2 * a = 2 * roundHalfEven a b * b + b → Even (roundHalfEven a b))) ∧
    (2 * roundHalfEven a b * b ≤ 2 * a + b ∧
      (2 * roundHalfEven a b * b = 2 * a + b → Even (roundHalfEven a b))) := by
  have hdiv := Nat.div_add_mod a b
  have hmod := Nat.mod_lt a hb
  have hbelow : 2 * (a / b) * b = 2 * (b * (a / b)) := by ring
  have habove : 2 * (a / b + 1) * b = 2 * (b * (a / b)) + 2 * b := by ring
  simp only [roundHalfEven, Nat.even_iff]
  split_ifs with hdown hup heven
  · rw [hbelow]
    omega
  · rw [habove]
    omega
  · rw [hbelow]
    omega
  · rw [habove]
    omega

/-- The same for the quotient itself. -/
lemma roundHalfEven_quotient (a : Nat) (hb : 0 < b) :
    (2 * (a / b : ℚ) ≤ 2 * roundHalfEven a b + 1 ∧
      (2 * (a / b : ℚ) = 2 * roundHalfEven a b + 1 → Even (roundHalfEven a b))) ∧
    (2 * roundHalfEven a b ≤ 2 * (a / b : ℚ) + 1 ∧
      (2 * roundHalfEven a b = 2 * (a / b : ℚ) + 1 → Even (roundHalfEven a b))) := by
  have hb' : (0 : ℚ) < b := by exact_mod_cast hb
  obtain ⟨⟨hle, heven⟩, hle', heven'⟩ := roundHalfEven_spec a hb
  generalize roundHalfEven a b = r at *
  obtain ⟨t, ht⟩ : ∃ t : ℚ, t * b = a := ⟨a / b, div_mul_cancel₀ _ hb'.ne'⟩
  rw [← ht, mul_div_cancel_right₀ _ hb'.ne']
  refine ⟨⟨le_of_mul_le_mul_right ?_ hb', fun htie => heven ?_⟩,
    le_of_mul_le_mul_right ?_ hb', fun htie => heven' ?_⟩
  · have : (2 * a : ℚ) ≤ 2 * r * b + b := by exact_mod_cast hle
    linarith
  · have : (2 * a : ℚ) = 2 * r * b + b := by linear_combination b * htie - 2 * ht
    exact_mod_cast this
  · have : (2 * r * b : ℚ) ≤ 2 * a + b := by exact_mod_cast hle'
    linarith
  · have : (2 * r * b : ℚ) = 2 * a + b := by linear_combination b * htie + 2 * ht
    exact_mod_cast this

/-! ## Measuring a quotient -/

lemma scale_pos {k : ℤ} (hb : 0 < b) : 0 < (scale a b k).2 := by
  unfold scale
  split_ifs
  · exact hb
  · exact Nat.mul_pos hb (Nat.pow_pos two_pos)

lemma scale_eq (a b : Nat) (k : ℤ) :
    ((scale a b k).1 : ℚ) / (scale a b k).2 = a / b * 2 ^ k := by
  unfold scale
  split_ifs with hk
  · obtain ⟨n, rfl⟩ := Int.eq_ofNat_of_zero_le hk
    simp
    ring
  · obtain ⟨n, hn⟩ := Int.eq_ofNat_of_zero_le (show 0 ≤ -k by omega)
    obtain rfl : k = -(n : ℤ) := by omega
    simp
    rw [div_mul_eq_div_div]
    rfl

/-- The logarithm of a quotient is one of two whole numbers, when it is rounded down. -/
lemma quotient_log2 (ha : 0 < a) (hb : 0 < b) :
    (2 : ℚ) ^ ((a.log2 : ℤ) - b.log2 - 1) ≤ a / b ∧
      (a / b : ℚ) < 2 ^ ((a.log2 : ℤ) - b.log2 + 1) := by
  have hb' : (0 : ℚ) < b := by exact_mod_cast hb
  have hale : (2 : ℚ) ^ (a.log2 : ℤ) ≤ a := by exact_mod_cast Nat.log2_self_le ha.ne'
  have halt : (a : ℚ) < 2 ^ ((a.log2 : ℤ) + 1) := by exact_mod_cast Nat.lt_log2_self
  have hble : (2 : ℚ) ^ (b.log2 : ℤ) ≤ b := by exact_mod_cast Nat.log2_self_le hb.ne'
  have hblt : (b : ℚ) < 2 ^ ((b.log2 : ℤ) + 1) := by exact_mod_cast Nat.lt_log2_self
  constructor
  · rw [le_div_iff₀ hb']
    calc (2 : ℚ) ^ ((a.log2 : ℤ) - b.log2 - 1) * b
        ≤ 2 ^ ((a.log2 : ℤ) - b.log2 - 1) * 2 ^ ((b.log2 : ℤ) + 1) := by gcongr
      _ = 2 ^ (a.log2 : ℤ) := by
          rw [← zpow_add₀ two_ne_zero]
          congr 1
          ring
      _ ≤ a := hale
  · rw [div_lt_iff₀ hb']
    calc (a : ℚ) < 2 ^ ((a.log2 : ℤ) + 1) := halt
      _ = 2 ^ ((a.log2 : ℤ) - b.log2 + 1) * 2 ^ (b.log2 : ℤ) := by
          rw [← zpow_add₀ two_ne_zero]
          congr 1
          ring
      _ ≤ 2 ^ ((a.log2 : ℤ) - b.log2 + 1) * b := by gcongr

/-- Logarithms are rounded down. -/
lemma floorLog2_spec (ha : 0 < a) (hb : 0 < b) :
    (2 : ℚ) ^ floorLog2 a b ≤ a / b ∧ (a / b : ℚ) < 2 ^ (floorLog2 a b + 1) := by
  obtain ⟨hlower, hupper⟩ := quotient_log2 ha hb
  unfold floorLog2
  simp only
  generalize (a.log2 : ℤ) - b.log2 = k at hlower hupper ⊢
  have hpos : (0 : ℚ) < (scale a b (-k)).2 := by exact_mod_cast scale_pos (k := -k) hb
  have hunit : (0 : ℚ) < 2 ^ k := by positivity
  -- which of the two powers it is shows from the quotient measured in the upper one
  have hcompare : (scale a b (-k)).2 ≤ (scale a b (-k)).1 ↔ 2 ^ k ≤ (a / b : ℚ) := by
    have hscale := scale_eq a b (-k)
    rw [div_eq_iff hpos.ne', zpow_neg, ← div_eq_mul_inv] at hscale
    rw [← Nat.cast_le (α := ℚ), hscale, le_mul_iff_one_le_left hpos, one_le_div hunit]
  split_ifs with hle
  · exact ⟨hcompare.mp hle, hupper⟩
  · rw [sub_add_cancel]
    exact ⟨hlower, lt_of_not_ge fun hge => hle (hcompare.mpr hge)⟩

/-! ## Rounding on the grid -/

section Grid

variable {j r : Nat} {t : ℚ}

/-- One step up from a level is a unit at least: behind its end the units are twice as large. -/
lemma magnitudeOf_above (hstart : j = 0 ∨ binade ≤ r) (hend : r ≤ 2 * binade) :
    (r + 1) * 2 ^ ((j : ℤ) - 1074) ≤ magnitudeOf (j * binade + r + 1) := by
  have hpos := binade_pos
  rcases Nat.lt_or_eq_of_le hend with hlt | rfl
  · rw [Nat.add_assoc, magnitudeOf_level (by omega) (by omega)]
    rw [Nat.cast_succ]
  · have hsplit : j * binade + 2 * binade + 1 = (j + 1) * binade + (binade + 1) := by ring
    have hexponent : ((j + 1 : Nat) : ℤ) - 1074 = (j : ℤ) - 1074 + 1 := by push_cast; ring
    have hunit : (0 : ℚ) < 2 ^ ((j : ℤ) - 1074) := by positivity
    rw [hsplit, magnitudeOf_level (.inr (by omega)) (by omega), hexponent,
      zpow_add_one₀ two_ne_zero]
    push_cast
    generalize (binade : ℚ) = start
    linarith

/-- One step down from a level is a unit, and half a unit where the binade starts. -/
lemma magnitudeOf_below {m : Nat} (hstart : j = 0 ∨ binade ≤ r) (hend : r ≤ 2 * binade)
    (hm : j * binade + r = m + 1) :
    magnitudeOf m = (r - 1) * 2 ^ ((j : ℤ) - 1074) ∨
      r = binade ∧ j ≠ 0 ∧ magnitudeOf m = (r - 1 / 2) * 2 ^ ((j : ℤ) - 1074) := by
  have hpos := binade_pos
  by_cases hfirst : r = binade ∧ j ≠ 0
  · obtain ⟨rfl, hj⟩ := hfirst
    obtain ⟨i, rfl⟩ := Nat.exists_eq_succ_of_ne_zero hj
    have hsplit : m = i * binade + (2 * binade - 1) := by
      have : i.succ * binade = i * binade + binade := Nat.succ_mul i binade
      omega
    have hexponent : ((i + 1 : Nat) : ℤ) - 1074 = (i : ℤ) - 1074 + 1 := by push_cast; ring
    refine .inr ⟨rfl, hj, ?_⟩
    rw [hsplit, magnitudeOf_level (.inr (by omega)) (by omega), Nat.succ_eq_add_one, hexponent,
      zpow_add_one₀ two_ne_zero, Nat.cast_sub (by omega)]
    push_cast
    ring
  · have hr : 0 < r := by
      rcases hstart with rfl | hr <;> omega
    have hsplit : m = j * binade + (r - 1) := by omega
    refine .inl ?_
    rw [hsplit, magnitudeOf_level (by omega) (by omega), Nat.cast_sub hr]
    push_cast
    rfl

/-- **Rounding to a whole number of units finds the nearest ordinal** if the quotient is in the
binade of these units. -/
lemma nearest_of_level (hstart : j = 0 ∨ (binade : ℚ) ≤ t) (hend : t ≤ 2 * binade)
    (habove : 2 * t ≤ 2 * r + 1 ∧ (2 * t = 2 * r + 1 → Even r))
    (hbelow : 2 * r ≤ 2 * t + 1 ∧ (2 * r = 2 * t + 1 → Even r)) :
    Nearest (t * 2 ^ ((j : ℤ) - 1074)) (min infinityOrdinal (j * binade + r)) := by
  have hunit : (0 : ℚ) < 2 ^ ((j : ℤ) - 1074) := by positivity
  have hr : r ≤ 2 * binade := by
    have : (2 * r : ℚ) ≤ 2 * (2 * binade) + 1 := by linarith
    have : 2 * r ≤ 2 * (2 * binade) + 1 := by exact_mod_cast this
    omega
  have hr' : j = 0 ∨ binade ≤ r := by
    refine hstart.imp_right fun h => ?_
    have : (2 * binade : ℚ) ≤ 2 * r + 1 := by linarith
    have : 2 * binade ≤ 2 * r + 1 := by exact_mod_cast this
    omega
  have heven : Even r → Even (j * binade + r) :=
    fun h => (even_binade.mul_left j).add h
  have hlevel := magnitudeOf_level hr' hr
  have hup := magnitudeOf_above hr' hr
  refine nearest_min (nearest_of_middles ⟨?_, fun htie => heven (habove.2 ?_)⟩ fun m hm => ?_)
  · rw [hlevel]
    nlinarith [habove.1]
  · rw [hlevel] at htie
    have : (2 * r + 1 : ℚ) * 2 ^ ((j : ℤ) - 1074) ≤ 2 * t * 2 ^ ((j : ℤ) - 1074) := by linarith
    exact le_antisymm habove.1 (le_of_mul_le_mul_right this hunit)
  · rcases magnitudeOf_below hr' hr hm with hdown | ⟨hfirst, hj, hdown⟩
    · rw [hlevel, hdown]
      refine ⟨by nlinarith [hbelow.1], fun htie => heven (hbelow.2 ?_)⟩
      have : (2 * r - 1 : ℚ) = 2 * t := mul_right_cancel₀ hunit.ne' (by linarith)
      linarith
    · -- the quotient is not below the start of its binade
      have ht := mul_le_mul_of_nonneg_right (hstart.resolve_left hj) hunit.le
      rw [← hfirst] at ht
      rw [hlevel, hdown]
      exact ⟨by linarith, fun htie => by linarith⟩

end Grid

/-! ## Quotients and decimal fractions -/

lemma nearest_correct (a : Nat) (hb : 0 < b) : Nearest (a / b) (nearest a b) := by
  rcases Nat.eq_zero_or_pos a with rfl | ha
  · have hzero : (0 : ℚ) = 0 * 2 ^ (((0 : Nat) : ℤ) - 1074) := by simp
    have hlevel : Nearest (0 * 2 ^ (((0 : Nat) : ℤ) - 1074))
        (min infinityOrdinal (0 * binade + 0)) :=
      nearest_of_level (.inl rfl) (by positivity) (by norm_num) (by norm_num)
    rw [← hzero] at hlevel
    simpa [nearest] using hlevel
  · obtain ⟨hlog, hlog'⟩ := floorLog2_spec ha hb
    simp only [nearest, if_neg ha.ne']
    generalize hunit : max (-1074) (floorLog2 a b - 52) = unit
    have hscale := scale_eq a b (-unit)
    have hpos := scale_pos (a := a) (k := -unit) hb
    generalize scale a b (-unit) = quotient at hscale hpos
    obtain ⟨x, y⟩ := quotient
    simp only at hscale hpos ⊢
    have hy : (0 : ℚ) < y := by exact_mod_cast hpos
    have hu : (0 : ℚ) < 2 ^ unit := by positivity
    have hj : (((unit + 1074).toNat : Nat) : ℤ) - 1074 = unit := by omega
    have hq : (a / b : ℚ) = x / y * 2 ^ unit := by
      rw [hscale, mul_assoc, ← zpow_add₀ two_ne_zero, neg_add_cancel, zpow_zero, mul_one]
    obtain ⟨habove, hbelow⟩ := roundHalfEven_quotient x hpos
    rw [hq]
    conv in 2 ^ unit => rw [← hj]
    refine nearest_of_level ?_ ?_ habove hbelow
    · -- above the first binade the unit is that of the quotient's own binade
      rcases Int.lt_or_le (-1074) unit with h | h
      · right
        have hlog : (2 : ℚ) ^ (unit + 52) ≤ a / b := by
          rwa [show unit + 52 = floorLog2 a b by omega]
        rw [hq, zpow_add₀ two_ne_zero, mul_comm] at hlog
        rw [show ((binade : Nat) : ℚ) = 2 ^ (52 : ℤ) by norm_num [binade]]
        exact le_of_mul_le_mul_right hlog hu
      · exact .inl (by omega)
    · have hlog : (a / b : ℚ) ≤ 2 ^ (unit + 53) :=
        hlog'.le.trans (zpow_le_zpow_right₀ one_le_two (by omega))
      rw [hq, zpow_add₀ two_ne_zero, mul_comm (2 ^ unit)] at hlog
      rw [show (2 * (binade : Nat) : ℚ) = 2 ^ (53 : ℤ) by norm_num [binade]]
      exact le_of_mul_le_mul_right hlog hu

/-- **The ordinal of a quotient is the one that is nearest to it**, and no other is. -/
theorem nearest_iff (a : Nat) (hb : 0 < b) : Nearest (a / b) n ↔ n = nearest a b :=
  ⟨fun h => h.unique (nearest_correct a hb), fun h => h ▸ nearest_correct a hb⟩

/-- The value of the decimal fraction `whole.fraction`. -/
def decimalValue (whole fraction : Text) : ℚ :=
  Text.ofDigits whole + Text.ofDigits fraction / 10 ^ fraction.length

lemma ofDigits_append (whole fraction : Text) : Text.ofDigits (whole ++ fraction) =
    Text.ofDigits whole * 10 ^ fraction.length + Text.ofDigits fraction := by
  induction fraction using List.reverseRecOn with
  | nil => simp [Text.ofDigits]
  | append_singleton digits c ih =>
      simp only [Text.ofDigits, ← List.append_assoc, List.foldl_append, List.foldl_cons,
        List.foldl_nil, List.length_append, List.length_singleton] at ih ⊢
      rw [ih, pow_succ]
      ring

lemma decimalValue_eq (whole fraction : Text) : decimalValue whole fraction =
    (Text.ofDigits (whole ++ fraction) : ℚ) / (10 ^ fraction.length : Nat) := by
  rw [ofDigits_append, decimalValue]
  push_cast
  rw [add_div, mul_div_cancel_right₀ _ (by positivity)]

/-- **The number of a decimal fraction is the one of the format that is nearest to it.** -/
theorem ofDecimal_iff (whole fraction : Text) (x : Binary64) :
    x = ofDecimal whole fraction ↔
      x.negative = false ∧ Nearest (decimalValue whole fraction) x.ordinal := by
  obtain ⟨negative, ordinal⟩ := x
  have hnearest : nearestDecimal (Text.ofDigits (whole ++ fraction)) (-(fraction.length : Int)) =
      nearest (Text.ofDigits (whole ++ fraction)) (10 ^ fraction.length) := by
    unfold nearestDecimal
    split_ifs with h
    · have hlength : fraction.length = 0 := by omega
      simp [hlength]
    · simp
  simp only [ofDecimal, Binary64.mk.injEq, hnearest, decimalValue_eq]
  rw [nearest_iff _ (by positivity)]

end Imperativo.Binary64
