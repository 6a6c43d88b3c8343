import Imperativo.Number.Shortest
import Imperativo.Proofs.Number.Rounding

/-!
# The shortest decimal reads back

The search for the shortest decimal compares quotients of natural numbers.  As rational numbers they
tell which decimals are rounded to the magnitude (`readsBack_iff`), and where the digits of the
magnitude begin (`decimalExponent_spec`).  Seventeen digits are always enough (`readsBack_around`):
the decimals with so many digits are less than a unit of the format apart, so that one of the two
around the magnitude is nearer than half a unit.

* **`shortest_found`** — the shortest decimal is rounded to the magnitude, and between the powers of
  ten that the magnitude is between.
* **`Found.value_lt`** — the decimal is below a power of ten exactly if the magnitude is, when the
  format has that power of ten, or rounds it up.
-/

namespace Imperativo.Binary64

/-! ## Quotients -/

namespace Ratio

variable {x y : Ratio}

/-- The quotient as a rational number. -/
def value (x : Ratio) : ℚ := x.num / x.den

lemma lt_iff (hx : 0 < x.den) (hy : 0 < y.den) : x.lt y = true ↔ x.value < y.value := by
  have hx' : (0 : ℚ) < x.den := by exact_mod_cast hx
  have hy' : (0 : ℚ) < y.den := by exact_mod_cast hy
  rw [lt, decide_eq_true_iff, value, value, div_lt_div_iff₀ hx' hy']
  exact_mod_cast Iff.rfl

lemma le_iff (hx : 0 < x.den) (hy : 0 < y.den) : x.le y = true ↔ x.value ≤ y.value := by
  have hx' : (0 : ℚ) < x.den := by exact_mod_cast hx
  have hy' : (0 : ℚ) < y.den := by exact_mod_cast hy
  rw [le, decide_eq_true_iff, value, value, div_le_div_iff₀ hx' hy']
  exact_mod_cast Iff.rfl

lemma middle_den_pos (hx : 0 < x.den) (hy : 0 < y.den) : 0 < (x.middle y).den :=
  Nat.mul_pos (Nat.mul_pos two_pos hx) hy

lemma value_middle (hx : 0 < x.den) (hy : 0 < y.den) :
    2 * (x.middle y).value = x.value + y.value := by
  have hx' : (x.den : ℚ) ≠ 0 := by exact_mod_cast hx.ne'
  have hy' : (y.den : ℚ) ≠ 0 := by exact_mod_cast hy.ne'
  simp only [value, middle]
  push_cast
  field_simp

lemma shift_den_pos (hx : 0 < x.den) (power : ℤ) : 0 < (x.shift power).den := by
  unfold shift
  split_ifs
  · exact hx
  · exact Nat.mul_pos hx (Nat.pow_pos (by decide))

lemma value_shift (x : Ratio) (power : ℤ) : (x.shift power).value = x.value * 10 ^ power := by
  unfold shift
  split_ifs with hpower
  · obtain ⟨k, rfl⟩ := Int.eq_ofNat_of_zero_le hpower
    simp [value]
    ring
  · obtain ⟨k, hk⟩ := Int.eq_ofNat_of_zero_le (show 0 ≤ -power by omega)
    obtain rfl : power = -(k : ℤ) := by omega
    simp [value]
    rw [div_mul_eq_div_div]
    rfl

end Ratio

variable {n : Nat}

lemma magnitude_den_pos (n : Nat) : 0 < (magnitude n).den := scale_pos one_pos

lemma value_magnitude (n : Nat) : (magnitude n).value = magnitudeOf n := by
  have h := scale_eq (significand n) 1 (exponent n)
  rwa [Nat.cast_one, div_one] at h

lemma magnitudeOf_pos (hn : 0 < n) : 0 < magnitudeOf n := by
  have h := magnitudeOf_strictMono hn
  rwa [show magnitudeOf 0 = 0 by simp [magnitudeOf, significand, binade_pos]] at h

/-! ## Reading back -/

/-- What reads back is between the middles of the steps to the neighbours, and in such a middle only
if the ordinal is even. -/
lemma readsBack_iff {x : Ratio} (hx : 0 < x.den) : readsBack (n + 1) x = true ↔
    (magnitudeOf n + magnitudeOf (n + 1) ≤ 2 * x.value ∧
      (magnitudeOf n + magnitudeOf (n + 1) = 2 * x.value → Even (n + 1))) ∧
    (2 * x.value ≤ magnitudeOf (n + 1) + magnitudeOf (n + 1 + 1) ∧
      (2 * x.value = magnitudeOf (n + 1) + magnitudeOf (n + 1 + 1) → Even (n + 1))) := by
  have hlow := Ratio.value_middle (magnitude_den_pos n) (magnitude_den_pos (n + 1))
  have hhigh := Ratio.value_middle (magnitude_den_pos (n + 1)) (magnitude_den_pos (n + 1 + 1))
  have hlowden := Ratio.middle_den_pos (magnitude_den_pos n) (magnitude_den_pos (n + 1))
  have hhighden := Ratio.middle_den_pos (magnitude_den_pos (n + 1)) (magnitude_den_pos (n + 1 + 1))
  simp only [value_magnitude] at hlow hhigh
  simp only [readsBack, Nat.add_sub_cancel, ← hlow, ← hhigh, Nat.even_iff]
  split_ifs with heven
  · simp [heven, Ratio.le_iff hlowden hx, Ratio.le_iff hx hhighden]
  · simp [heven, Ratio.lt_iff hlowden hx, Ratio.lt_iff hx hhighden, lt_iff_le_and_ne]

/-- What reads back is rounded to the magnitude. -/
lemma nearest_of_readsBack (hn : 0 < n) (hfinite : n ≤ infinityOrdinal) {x : Ratio}
    (hx : 0 < x.den) (h : readsBack n x = true) : Nearest x.value n := by
  obtain ⟨n, rfl⟩ := Nat.exists_eq_succ_of_ne_zero hn.ne'
  obtain ⟨hbelow, habove⟩ := (readsBack_iff hx).mp h
  rw [← min_eq_right hfinite]
  refine nearest_min (nearest_of_middles habove fun m hm => ?_)
  obtain rfl : n = m := Nat.succ_injective hm
  exact hbelow

/-- What is strictly between the middles reads back. -/
lemma readsBack_of_lt {x : Ratio} (hx : 0 < x.den)
    (hlow : magnitudeOf n + magnitudeOf (n + 1) < 2 * x.value)
    (hhigh : 2 * x.value < magnitudeOf (n + 1) + magnitudeOf (n + 1 + 1)) :
    readsBack (n + 1) x = true :=
  (readsBack_iff hx).mpr
    ⟨⟨hlow.le, fun h => absurd h hlow.ne⟩, hhigh.le, fun h => absurd h hhigh.ne⟩

/-! ## Where the digits begin -/

/-- The number of decimal digits. -/
lemma length_ofNat_spec {k : Nat} (hk : 0 < k) :
    10 ^ ((Text.ofNat k).length - 1) ≤ k ∧ k < 10 ^ (Text.ofNat k).length := by
  have hpos : 0 < (Text.ofNat k).length := Nat.length_toDigits_pos
  refine ⟨?_, (Nat.length_toDigits_le_iff (by decide) hpos).mp le_rfl⟩
  rcases Nat.eq_zero_or_pos ((Text.ofNat k).length - 1) with h | h
  · rw [h]
    exact hk
  · by_contra hlt
    have := (Nat.length_toDigits_le_iff (by decide) h).mpr (Nat.lt_of_not_le hlt)
    change (Text.ofNat k).length ≤ _ at this
    omega

/-- The least power of ten that lifts the quotient to one, if the fuel is enough for it. -/
lemma leadingZeros_spec {a b : Nat} {fuel : Nat} (h : b ≤ a * 10 ^ fuel) :
    b ≤ a * 10 ^ leadingZeros ⟨a, b⟩ fuel ∧
      ∀ i < leadingZeros ⟨a, b⟩ fuel, a * 10 ^ i < b := by
  induction fuel generalizing a with
  | zero => simpa [leadingZeros] using h
  | succ fuel ih =>
      rw [leadingZeros]
      split_ifs with hle
      · simpa using hle
      · obtain ⟨hle', hleast⟩ := ih (a := 10 * a) (by rw [pow_succ] at h; linarith)
        refine ⟨by rw [pow_succ]; linarith, fun i hi => ?_⟩
        cases i with
        | zero => simpa using hle
        | succ i =>
            have := hleast i (Nat.lt_of_succ_lt_succ hi)
            rw [pow_succ]
            linarith

/-- Every positive magnitude is above `10 ^ -324`. -/
lemma one_le_magnitudeOf_mul (hn : 0 < n) : 1 ≤ magnitudeOf n * 10 ^ 324 := by
  have hleast : magnitudeOf 1 = 1 / 2 ^ 1074 := by
    have : (1 : Nat) < binade := by decide
    simp [magnitudeOf, significand, exponent, this]
  have hone : magnitudeOf 1 ≤ magnitudeOf n := magnitudeOf_strictMono.monotone hn
  have hpow : (2 : ℚ) ^ 1074 ≤ 10 ^ 324 := by
    calc (2 : ℚ) ^ 1074 = (2 ^ 93) ^ 11 * 2 ^ 51 := by rw [← pow_mul, ← pow_add]
      _ ≤ (10 ^ 28) ^ 11 * 10 ^ 16 := by gcongr <;> norm_num
      _ = 10 ^ 324 := by rw [← pow_mul, ← pow_add]
  calc (1 : ℚ) ≤ 10 ^ 324 / 2 ^ 1074 := (one_le_div (by positivity)).mpr hpow
    _ = magnitudeOf 1 * 10 ^ 324 := by rw [hleast, mul_comm, mul_one_div]
    _ ≤ magnitudeOf n * 10 ^ 324 := by gcongr

/-- **Where the digits of a magnitude begin.** -/
lemma decimalExponent_spec (hn : 0 < n) :
    (10 : ℚ) ^ (decimalExponent (magnitude n) - 1) ≤ magnitudeOf n ∧
      magnitudeOf n < 10 ^ decimalExponent (magnitude n) := by
  have hpos := magnitudeOf_pos hn
  have hlarge := one_le_magnitudeOf_mul hn
  have hden : (0 : ℚ) < (magnitude n).den := by exact_mod_cast magnitude_den_pos n
  have hden' := magnitude_den_pos n
  rw [← value_magnitude] at hpos hlarge ⊢
  generalize magnitude n = x at *
  obtain ⟨a, b⟩ := x
  simp only [Ratio.value, decimalExponent] at *
  split_ifs with hle
  · obtain ⟨hlower, hupper⟩ := length_ofNat_spec (Nat.div_pos hle hden')
    have hlength : 0 < (Text.ofNat (a / b)).length := Nat.length_toDigits_pos
    generalize (Text.ofNat (a / b)).length = l at *
    obtain ⟨l, rfl⟩ := Nat.exists_eq_succ_of_ne_zero hlength.ne'
    have hlower' : 10 ^ l * b ≤ a := (Nat.le_div_iff_mul_le hden').mp hlower
    have hupper' : a < 10 ^ (l + 1) * b := (Nat.div_lt_iff_lt_mul hden').mp hupper
    rw [le_div_iff₀ hden, div_lt_iff₀ hden, Nat.succ_eq_add_one, Nat.cast_succ,
      add_sub_cancel_right]
    exact_mod_cast And.intro hlower' hupper'
  · rw [div_mul_eq_mul_div, one_le_div hden] at hlarge
    have hfuel : b ≤ a * 10 ^ 324 := by exact_mod_cast hlarge
    obtain ⟨hlift, hleast⟩ := leadingZeros_spec hfuel
    generalize leadingZeros ⟨a, b⟩ 324 = k at *
    -- the quotient is below one, so that it has a zero in front of the point
    obtain ⟨k, rfl⟩ : ∃ i, k = i + 1 :=
      Nat.exists_eq_succ_of_ne_zero fun hk => hle (by simpa [hk] using hlift)
    have hlower : (b : ℚ) ≤ a * 10 ^ (k + 1) := by exact_mod_cast hlift
    have hupper : (a : ℚ) * 10 ^ k < b := by exact_mod_cast hleast k (Nat.lt_succ_self k)
    have hexponent : (1 : ℤ) - (k + 1 : Nat) = -(k : ℤ) := by push_cast; ring
    have hexponent' : -(k : ℤ) - 1 = -((k + 1 : Nat) : ℤ) := by push_cast; ring
    rw [hexponent, hexponent', zpow_neg, zpow_neg, zpow_natCast, zpow_natCast, le_div_iff₀ hden,
      div_lt_iff₀ hden, inv_mul_le_iff₀ (by positivity), lt_inv_mul_iff₀ (by positivity), mul_comm,
      mul_comm _ (a : ℚ)]
    exact ⟨hlower, hupper⟩

/-! ## The search -/

/-- The decimal as a rational number. -/
def Decimal.value (d : Decimal) : ℚ := d.digits * 10 ^ d.power

lemma value_shift_digits (digits : Nat) (power : ℤ) :
    (Ratio.shift ⟨digits, 1⟩ power).value = digits * 10 ^ power := by
  rw [Ratio.value_shift, Ratio.value, Nat.cast_one, div_one]

/-- The whole number below the magnitude when that is measured in a power of ten. -/
def below (n : Nat) (power : ℤ) : Nat :=
  ((magnitude n).shift (-power)).num / ((magnitude n).shift (-power)).den

lemma below_spec (n : Nat) (power : ℤ) :
    below n power * (10 : ℚ) ^ power ≤ magnitudeOf n ∧
      magnitudeOf n < (below n power + 1) * (10 : ℚ) ^ power := by
  have hvalue := Ratio.value_shift (magnitude n) (-power)
  have hden := Ratio.shift_den_pos (magnitude_den_pos n) (-power)
  have hunit : (0 : ℚ) < 10 ^ power := by positivity
  unfold below
  generalize (magnitude n).shift (-power) = y at *
  rw [value_magnitude, zpow_neg, ← div_eq_mul_inv] at hvalue
  have hden' : (0 : ℚ) < y.den := by exact_mod_cast hden
  have hlower : (y.num / y.den : Nat) * (y.den : ℚ) ≤ y.num := by
    exact_mod_cast Nat.div_mul_le_self y.num y.den
  have hupper : (y.num : ℚ) < ((y.num / y.den : Nat) + 1) * y.den := by
    rw [add_one_mul]
    exact_mod_cast Nat.lt_div_mul_add (a := y.num) hden
  rw [← le_div_iff₀ hunit, ← div_lt_iff₀ hunit, ← hvalue, Ratio.value, le_div_iff₀ hden',
    div_lt_iff₀ hden']
  exact ⟨hlower, hupper⟩

/-- Of the two decimals around the magnitude one that reads back is taken, if there is one. -/
lemma onGrid?_cases (n : Nat) (power : ℤ) :
    let hit (digits : Nat) := readsBack n (Ratio.shift ⟨digits, 1⟩ power)
    hit (below n power) = true ∧ onGrid? n power = some ⟨below n power, power⟩ ∨
      hit (below n power + 1) = true ∧ onGrid? n power = some ⟨below n power + 1, power⟩ ∨
      hit (below n power) = false ∧ hit (below n power + 1) = false ∧ onGrid? n power = none := by
  simp only [onGrid?, below]
  split
  · simp_all
  · simp_all
  · simp_all
  · split_ifs <;> simp_all

/-- The steps from a magnitude to its neighbours, in a unit that it has less than `2 ^ 53` of.  The
step down is half a unit where a binade starts, and the magnitude is `2 ^ 52` units there. -/
lemma exists_unit (n : Nat) : ∃ unit : ℚ, 0 < unit ∧ magnitudeOf (n + 1) < 2 ^ 53 * unit ∧
    magnitudeOf (n + 1) + unit ≤ magnitudeOf (n + 1 + 1) ∧
    (magnitudeOf n = magnitudeOf (n + 1) - unit ∨
      magnitudeOf n = magnitudeOf (n + 1) - unit / 2 ∧ magnitudeOf (n + 1) = 2 ^ 52 * unit) := by
  obtain ⟨j, r, hlevel, hstart, hend⟩ := exists_level (n + 1)
  have hmagnitude := magnitudeOf_level hstart hend.le
  have habove := magnitudeOf_above hstart hend.le
  have hbelow := magnitudeOf_below hstart hend.le hlevel.symm
  have hunit : (0 : ℚ) < 2 ^ ((j : ℤ) - 1074) := by positivity
  have hr : (r : ℚ) < 2 ^ 53 := by exact_mod_cast hend
  rw [← hlevel] at hmagnitude habove
  refine ⟨2 ^ ((j : ℤ) - 1074), hunit, ?_, by linarith, ?_⟩
  · rw [hmagnitude]
    gcongr
  · rcases hbelow with hbelow | ⟨rfl, -, hbelow⟩
    · exact .inl (by linarith)
    · refine .inr ⟨by linarith, ?_⟩
      rw [hmagnitude]
      norm_num [binade]

/-- **Seventeen digits are enough.**  With so many digits the decimals are less than a unit apart,
and less than half a unit where a binade starts. -/
lemma readsBack_around (hn : 0 < n) {power : ℤ} (hfine : 10 ^ (16 + power) ≤ magnitudeOf n) :
    readsBack n (Ratio.shift ⟨below n power, 1⟩ power) = true ∨
      readsBack n (Ratio.shift ⟨below n power + 1, 1⟩ power) = true := by
  obtain ⟨n, rfl⟩ := Nat.exists_eq_succ_of_ne_zero hn.ne'
  obtain ⟨unit, hunit, hmany, hup, hdown⟩ := exists_unit n
  obtain ⟨hlower, hupper⟩ := below_spec (n + 1) power
  have hlow := value_shift_digits (below (n + 1) power) power
  have hhigh := value_shift_digits (below (n + 1) power + 1) power
  have hden (k : Nat) : 0 < (Ratio.shift ⟨k, 1⟩ power).den := Ratio.shift_den_pos one_pos power
  rw [zpow_add₀ (by norm_num)] at hfine
  rw [Nat.cast_succ, add_one_mul, ← hlow] at hhigh
  rw [add_one_mul] at hupper
  rw [← hlow] at hlower hupper
  generalize (10 : ℚ) ^ power = step at hfine hupper hhigh
  norm_num at hfine hmany
  rcases hdown with hdown | ⟨hdown, hfirst⟩
  · rcases lt_or_ge (2 * (Ratio.shift ⟨below (n + 1) power + 1, 1⟩ power).value)
      (2 * magnitudeOf (n + 1) + unit) with h | h
    · exact .inr (readsBack_of_lt (hden _) (by linarith) (by linarith))
    · exact .inl (readsBack_of_lt (hden _) (by linarith) (by linarith))
  · exact .inr (readsBack_of_lt (hden _) (by linarith) (by linarith))

/-- What a decimal found for a magnitude is required to be. -/
structure Found (n : Nat) (d : Decimal) : Prop where
  /-- It is not zero. -/
  digits_pos : 0 < d.digits
  /-- It is rounded to the magnitude. -/
  nearest : Nearest d.value n
  /-- It is between the powers of ten around the magnitude, and may be the upper one. -/
  around : ∃ top : ℤ, (10 ^ (top - 1) ≤ magnitudeOf n ∧ magnitudeOf n < 10 ^ top) ∧
    10 ^ (top - 1) ≤ d.value ∧ d.value ≤ 10 ^ top

/-- A power of ten is a whole number of any lower one. -/
lemma zpow_grid (power : ℤ) (k : Nat) : (10 : ℚ) ^ (power + k) = (10 ^ k : Nat) * 10 ^ power := by
  rw [zpow_add₀ (by norm_num), zpow_natCast, mul_comm, Nat.cast_pow, Nat.cast_ofNat]

/-- **A decimal that is found is rounded to the magnitude.** -/
lemma onGrid?_found (hn : 0 < n) (hfinite : n ≤ infinityOrdinal) {d : Decimal} {k : Nat}
    (h : onGrid? n (decimalExponent (magnitude n) - (k + 1 : Nat)) = some d) : Found n d := by
  obtain ⟨hleast, hmost⟩ := decimalExponent_spec hn
  generalize decimalExponent (magnitude n) = top at *
  generalize hpower : top - (k + 1 : Nat) = power at h
  obtain ⟨hlower, hupper⟩ := below_spec n power
  have hstep : (0 : ℚ) < 10 ^ power := by positivity
  have hbottom := zpow_grid power k
  have htop := zpow_grid power (k + 1)
  rw [show power + (k : ℤ) = top - 1 by omega] at hbottom
  rw [show power + ((k + 1 : Nat) : ℤ) = top by omega] at htop
  -- measured in the power of ten, the magnitude has as many digits as were asked for
  have hleast' : 10 ^ k < below n power + 1 := by
    have := lt_of_mul_lt_mul_right (hbottom ▸ hleast.trans_lt hupper) hstep.le
    exact_mod_cast this
  have hmost' : below n power < 10 ^ (k + 1) := by
    have := lt_of_mul_lt_mul_right (htop ▸ hlower.trans_lt hmost) hstep.le
    exact_mod_cast this
  have hfound {digits : Nat} (hback : readsBack n (Ratio.shift ⟨digits, 1⟩ power) = true)
      (hge : 10 ^ k ≤ digits) (hle : digits ≤ 10 ^ (k + 1)) : Found n ⟨digits, power⟩ := by
    have hnearest := nearest_of_readsBack hn hfinite (Ratio.shift_den_pos one_pos power) hback
    rw [value_shift_digits] at hnearest
    refine ⟨Nat.lt_of_lt_of_le (by positivity) hge, hnearest, top, ⟨hleast, hmost⟩, ?_, ?_⟩
    · rw [hbottom, Decimal.value]
      gcongr
    · rw [htop, Decimal.value]
      gcongr
  rcases onGrid?_cases n power with ⟨hback, hsome⟩ | ⟨hback, hsome⟩ | ⟨-, -, hnone⟩
  · obtain rfl := Option.some.inj (hsome.symm.trans h)
    exact hfound hback (by omega) (by omega)
  · obtain rfl := Option.some.inj (hsome.symm.trans h)
    exact hfound hback (by omega) (by omega)
  · rw [hnone] at h
    cases h

/-! ## The shortest decimal -/

lemma Decimal.trim_spec (d : Decimal) (fuel : Nat) :
    (d.trim fuel).value = d.value ∧ (0 < d.digits → 0 < (d.trim fuel).digits) := by
  induction fuel generalizing d with
  | zero => exact ⟨rfl, id⟩
  | succ fuel ih =>
      rw [trim]
      split_ifs with hzero
      · obtain ⟨hvalue, hdigits⟩ := ih ⟨d.digits / 10, d.power + 1⟩
        obtain ⟨k, hk⟩ := Nat.dvd_of_mod_eq_zero hzero
        have hk' : d.digits / 10 = k := by omega
        refine ⟨?_, fun h => hdigits (by simp only; omega)⟩
        rw [hvalue, value, value, hk', hk, zpow_add_one₀ (by norm_num)]
        push_cast
        ring
      · exact ⟨rfl, id⟩

/-- **The shortest decimal is rounded to the magnitude.** -/
theorem shortest_found (hn : 0 < n) (hfinite : n ≤ infinityOrdinal) : Found n (shortest n) := by
  unfold shortest
  simp only
  generalize hfound : (List.range 17).findSome? _ = found
  cases found with
  | none =>
      -- seventeen digits would have been found
      have hnone := List.findSome?_eq_none_iff.mp hfound 16 (by decide)
      have hfine : (10 : ℚ) ^ (16 + (decimalExponent (magnitude n) - (16 + 1 : Nat))) ≤
          magnitudeOf n := by
        have := (decimalExponent_spec hn).1
        rwa [show (16 : ℤ) + (decimalExponent (magnitude n) - (16 + 1 : Nat)) =
          decimalExponent (magnitude n) - 1 by push_cast; ring]
      rcases onGrid?_cases n (decimalExponent (magnitude n) - (16 + 1 : Nat)) with
        ⟨-, hsome⟩ | ⟨-, hsome⟩ | ⟨hlow, hhigh, -⟩
      · cases hnone.symm.trans hsome
      · cases hnone.symm.trans hsome
      · rcases readsBack_around hn hfine with h | h <;> simp_all
  | some d =>
      obtain ⟨k, -, hk⟩ := List.exists_of_findSome?_eq_some hfound
      obtain ⟨hdigits, hnearest, haround⟩ := onGrid?_found hn hfinite hk
      obtain ⟨hvalue, hpos⟩ := d.trim_spec 17
      rw [← hvalue] at hnearest haround
      exact ⟨hpos hdigits, hnearest, haround⟩

/-- A power of ten is not between a magnitude and its shortest decimal if the format has it, or
rounds it up. -/
lemma Found.value_lt {d : Decimal} {m : Nat} {k : ℤ} (h : Found n d) (hm : Nearest (10 ^ k) m)
    (hup : 10 ^ k ≤ magnitudeOf m) : d.value < 10 ^ k ↔ magnitudeOf n < 10 ^ k := by
  obtain ⟨top, ⟨hleast, hmost⟩, hlower, hupper⟩ := h.around
  constructor
  · intro hlt
    have htop := (zpow_lt_zpow_iff_right₀ (by norm_num)).mp (hlower.trans_lt hlt)
    have : (10 : ℚ) ^ top ≤ 10 ^ k := zpow_le_zpow_right₀ (by norm_num) (by omega)
    exact hmost.trans_le this
  · intro hlt
    have htop := (zpow_lt_zpow_iff_right₀ (by norm_num)).mp (hleast.trans_lt hlt)
    have : (10 : ℚ) ^ top ≤ 10 ^ k := zpow_le_zpow_right₀ (by norm_num) (by omega)
    refine lt_of_le_of_ne (hupper.trans this) fun heq => ?_
    obtain rfl := h.nearest.unique (heq ▸ hm)
    exact absurd hlt (not_lt.mpr hup)

end Imperativo.Binary64
