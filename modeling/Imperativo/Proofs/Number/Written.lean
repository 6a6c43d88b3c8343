import Imperativo.Proofs.Number.Shortest
import Imperativo.Proofs.Source.Spelling
import Imperativo.Proofs.Text.Reading

/-!
# Numbers in writing

Only in the middle of its range a number is written with digits and a point, so that its text is
that of a decimal fraction.  Outside of it a power of ten follows, and infinity is a word.  The ends
of the middle range are powers of ten; the format has the upper one and rounds the lower one up, so
that a number and its shortest decimal are in the range together (`shortest_top_iff`).

* **`layout_plain`** — without a power of ten a decimal is written as a decimal fraction of the same
  value.
* **`ofDecimal_text`** — in the middle of the range the text of a number denotes that number.
* **`letter_mem_text`** — outside of it there is a letter in the text.
* **`isNumeral_text`** — the characters that numbers are written with.
-/

namespace Imperativo.Binary64

open Piece

variable {d : Decimal}

/-! ## Places of a decimal -/

lemma ofDigits_zeros (k : Nat) : Text.ofDigits (List.replicate k '0') = 0 := by
  induction k with
  | zero => rfl
  | succ k ih =>
      rw [List.replicate_succ', ofDigits_append, ih]
      rfl

lemma digits_ofNat (n : Nat) : Digits (Text.ofNat n) :=
  ⟨Nat.toDigits_ne_nil, fun _ hc => Text.isDigit_of_mem_ofNat hc⟩

/-- Where the first digit stands. -/
def Decimal.top (d : Decimal) : ℤ := (Text.ofNat d.digits).length + d.power

lemma Decimal.top_spec (hd : 0 < d.digits) :
    (10 : ℚ) ^ (d.top - 1) ≤ d.value ∧ d.value < 10 ^ d.top := by
  obtain ⟨hlower, hupper⟩ := length_ofNat_spec hd
  have hlength : 0 < (Text.ofNat d.digits).length := Nat.length_toDigits_pos
  unfold Decimal.top Decimal.value
  generalize (Text.ofNat d.digits).length = l at *
  obtain ⟨l, rfl⟩ := Nat.exists_eq_succ_of_ne_zero hlength.ne'
  have hlower' : (10 : ℚ) ^ l ≤ d.digits := by exact_mod_cast hlower
  have hupper' : (d.digits : ℚ) < 10 ^ (l + 1) := by exact_mod_cast hupper
  have hbottom : ((l + 1 : Nat) : ℤ) + d.power - 1 = (l : ℤ) + d.power := by push_cast; ring
  rw [hbottom, zpow_add₀ (by norm_num), zpow_add₀ (by norm_num), zpow_natCast, zpow_natCast]
  exact ⟨by gcongr, by gcongr⟩

/-- The decimals that are written without a power of ten. -/
lemma Decimal.top_iff (hd : 0 < d.digits) :
    (-4 < d.top ∧ d.top ≤ 16) ↔ (10 : ℚ) ^ (-4 : ℤ) ≤ d.value ∧ d.value < 10 ^ (16 : ℤ) := by
  obtain ⟨hlower, hupper⟩ := top_spec hd
  have hten : (1 : ℚ) < 10 := by norm_num
  constructor
  · rintro ⟨hlow, hhigh⟩
    have hlow' : (10 : ℚ) ^ (-4 : ℤ) ≤ 10 ^ (d.top - 1) :=
      zpow_le_zpow_right₀ hten.le (by omega)
    have hhigh' : (10 : ℚ) ^ d.top ≤ 10 ^ (16 : ℤ) := zpow_le_zpow_right₀ hten.le hhigh
    exact ⟨hlow'.trans hlower, hupper.trans_le hhigh'⟩
  · rintro ⟨hlow, hhigh⟩
    have hlow' := (zpow_lt_zpow_iff_right₀ hten).mp (hlow.trans_lt hupper)
    have hhigh' := (zpow_lt_zpow_iff_right₀ hten).mp (hlower.trans_lt hhigh)
    omega

/-! ## Digits and a point -/

/-- The text is that of a decimal fraction of the given value. -/
def IsFractionOf (w : Text) (q : ℚ) : Prop :=
  ∃ whole fraction, Digits whole ∧ Digits fraction ∧ w = whole ++ '.' :: fraction ∧
    decimalValue whole fraction = q

lemma isFractionOf {whole fraction : Text} {n : Nat} {power : ℤ} (hwhole : Digits whole)
    (hfraction : Digits fraction) (hn : Text.ofDigits (whole ++ fraction) = n)
    (hpower : (fraction.length : ℤ) = -power) :
    IsFractionOf (whole ++ '.' :: fraction) (n * 10 ^ power) := by
  refine ⟨whole, fraction, hwhole, hfraction, rfl, ?_⟩
  obtain rfl : power = -(fraction.length : ℤ) := by omega
  rw [decimalValue_eq, hn, zpow_neg, zpow_natCast, div_eq_mul_inv]
  push_cast
  rfl

lemma digits_zeros_append {digits : Text} (hdigits : Digits digits) (k : Nat) :
    Digits (List.replicate k '0' ++ digits) ∧ Digits (digits ++ List.replicate k '0') := by
  have hzeros : ∀ c ∈ List.replicate k '0', c.isDigit = true := by
    intro c hc
    rw [List.eq_of_mem_replicate hc]
    rfl
  refine ⟨⟨by simp [hdigits.1], ?_⟩, by simp [hdigits.1], ?_⟩
  · exact List.forall_mem_append.mpr ⟨hzeros, hdigits.2⟩
  · exact List.forall_mem_append.mpr ⟨hdigits.2, hzeros⟩

/-- **Without a power of ten a decimal is written as a decimal fraction of the same value.** -/
lemma layout_plain (hlow : -4 < d.top) (hhigh : d.top ≤ 16) :
    IsFractionOf (layout d) d.value := by
  have hdigits := digits_ofNat d.digits
  have hvalue := Text.ofDigits_ofNat d.digits
  have hzero : Digits ['0'] := ⟨by simp, by simp⟩
  unfold Decimal.top at hlow hhigh
  unfold layout Decimal.value
  simp only
  generalize Text.ofNat d.digits = digits at *
  rcases Int.lt_or_le 0 (digits.length + d.power) with hpoint | hpoint
  · rw [if_neg (by omega), if_pos ⟨hpoint, hhigh⟩]
    split_ifs with hpower
    · obtain ⟨k, hk⟩ := Int.eq_ofNat_of_zero_le hpower
      have hwritten : digits ++ List.replicate d.power.toNat '0' ++ ".0".toList =
          (digits ++ List.replicate k '0') ++ '.' :: ['0'] := by
        simp [hk]
      have hn : Text.ofDigits ((digits ++ List.replicate k '0') ++ ['0']) =
          d.digits * 10 ^ (k + 1) := by
        rw [List.append_assoc, ← List.replicate_succ', ofDigits_append, ofDigits_zeros, hvalue,
          List.length_replicate, Nat.add_zero]
      have hq : (d.digits : ℚ) * 10 ^ d.power =
          (d.digits * 10 ^ (k + 1) : Nat) * 10 ^ (-1 : ℤ) := by
        rw [hk]
        simp
        ring
      rw [hwritten, hq]
      exact isFractionOf (digits_zeros_append hdigits k).2 hzero hn rfl
    · refine isFractionOf ⟨?_, fun c hc => hdigits.2 c (List.mem_of_mem_take hc)⟩
        ⟨?_, fun c hc => hdigits.2 c (List.mem_of_mem_drop hc)⟩ ?_ ?_
      · rw [← List.length_pos_iff_ne_nil, List.length_take]
        omega
      · rw [← List.length_pos_iff_ne_nil, List.length_drop]
        omega
      · rw [List.take_append_drop, hvalue]
      · rw [List.length_drop]
        omega
  · rw [if_pos ⟨hlow, hpoint⟩]
    generalize hk : (-(digits.length + d.power)).toNat = k
    have hwritten : "0.".toList ++ List.replicate k '0' ++ digits =
        ['0'] ++ '.' :: (List.replicate k '0' ++ digits) := by
      simp
    have hn : Text.ofDigits (['0'] ++ (List.replicate k '0' ++ digits)) = d.digits := by
      rw [ofDigits_append, ofDigits_append, ofDigits_zeros, hvalue]
      simp [Text.ofDigits]
    have hlength : ((List.replicate k '0' ++ digits).length : ℤ) = -d.power := by
      rw [List.length_append, List.length_replicate]
      omega
    rw [hwritten]
    exact isFractionOf hzero (digits_zeros_append hdigits k).1 hn hlength

lemma layout_power (h : ¬ (-4 < d.top ∧ d.top ≤ 16)) : 'e' ∈ layout d := by
  unfold Decimal.top at h
  unfold layout
  simp only
  rw [if_neg (by omega), if_neg (by omega)]
  simp

/-! ## Numbers -/

variable {n : Nat} {x : Binary64}

/-- A magnitude is nearest to itself. -/
lemma nearest_magnitudeOf (hn : n ≤ infinityOrdinal) : Nearest (magnitudeOf n) n := by
  refine ⟨hn, fun m _ => by simp, fun m _ hne htie => absurd ?_ hne⟩
  rw [sub_self, abs_zero, abs_eq_zero, sub_eq_zero] at htie
  exact magnitudeOf_strictMono.injective htie

/-- The format has `10 ^ 16`. -/
lemma exists_nearest_large :
    ∃ m ≤ infinityOrdinal, magnitudeOf m = 10 ^ (16 : ℤ) ∧ Nearest (10 ^ (16 : ℤ)) m := by
  have hmagnitude : magnitudeOf (1075 * binade + 5 * 10 ^ 15) = 10 ^ (16 : ℤ) := by
    rw [magnitudeOf_level (.inr (by decide)) (by decide)]
    norm_num
  have hle : 1075 * binade + 5 * 10 ^ 15 ≤ infinityOrdinal := by decide
  exact ⟨_, hle, hmagnitude, hmagnitude ▸ nearest_magnitudeOf hle⟩

/-- The format rounds `10 ^ -4` up. -/
lemma exists_nearest_small :
    ∃ m, 10 ^ (-4 : ℤ) ≤ magnitudeOf m ∧ Nearest (10 ^ (-4 : ℤ)) m := by
  have hnearest := nearest_correct 1 (b := 10 ^ 4) (by decide)
  have hq : (((1 : Nat) : ℚ) / (10 ^ 4 : Nat)) = 10 ^ (-4 : ℤ) := by norm_num
  have hm : nearest 1 (10 ^ 4) = 1008 * binade + 7378697629483821 := by decide +kernel
  rw [hq] at hnearest
  refine ⟨_, ?_, hnearest⟩
  rw [hm, magnitudeOf_level (.inr (by decide)) (by decide)]
  norm_num

/-- The numbers that are written without a power of ten. -/
def IsPositional (x : Binary64) : Prop :=
  x.ordinal = 0 ∨ 10 ^ (-4 : ℤ) ≤ magnitudeOf x.ordinal ∧ magnitudeOf x.ordinal < 10 ^ (16 : ℤ)

/-- The shortest decimal of a number is in the same range as the number. -/
lemma shortest_top_iff (hn : 0 < n) (hfinite : n ≤ infinityOrdinal) :
    (-4 < (shortest n).top ∧ (shortest n).top ≤ 16) ↔
      10 ^ (-4 : ℤ) ≤ magnitudeOf n ∧ magnitudeOf n < 10 ^ (16 : ℤ) := by
  have hfound := shortest_found hn hfinite
  obtain ⟨m, -, hlarge, hnearest⟩ := exists_nearest_large
  obtain ⟨m', hsmall, hnearest'⟩ := exists_nearest_small
  rw [Decimal.top_iff hfound.digits_pos, hfound.value_lt hnearest hlarge.ge, ← not_lt,
    hfound.value_lt hnearest' hsmall, not_lt]

/-- Infinity is above all of them. -/
lemma IsPositional.lt_infinityOrdinal (h : x.IsPositional) : x.ordinal < infinityOrdinal := by
  rcases h with h | ⟨-, h⟩
  · rw [h]
    decide
  · obtain ⟨m, hm, hlarge, -⟩ := exists_nearest_large
    rw [← hlarge] at h
    exact (magnitudeOf_strictMono.lt_iff_lt.mp h).trans_le hm

/-- In the middle of the range a number is written as a decimal fraction that is rounded to it. -/
lemma IsPositional.text_isFractionOf (hsign : x.negative = false) (h : x.IsPositional) :
    ∃ q, IsFractionOf x.text q ∧ Nearest q x.ordinal := by
  have hfinite := h.lt_infinityOrdinal
  have hnan : x.isNaN = false := decide_eq_false (by omega)
  have hinfinite : x.isInfinite = false := decide_eq_false (by omega)
  rw [text]
  simp only [hnan, hinfinite, hsign, Bool.false_eq_true, if_false, List.nil_append]
  split_ifs with hzero
  · have hnearest := nearest_magnitudeOf (Nat.zero_le infinityOrdinal)
    have hvalue : magnitudeOf 0 = (0 : Nat) * 10 ^ (-1 : ℤ) := by
      simp [magnitudeOf, significand, binade_pos]
    have hdigits : Digits ['0'] := ⟨by simp, by simp⟩
    rw [hvalue, ← hzero] at hnearest
    have hwritten : "0.0".toList = ['0'] ++ '.' :: ['0'] := by simp
    have hn : Text.ofDigits (['0'] ++ ['0']) = x.ordinal := by
      rw [hzero]
      rfl
    rw [hwritten]
    exact ⟨_, isFractionOf hdigits hdigits hn rfl, hnearest⟩
  · have hpos := Nat.pos_of_ne_zero hzero
    obtain ⟨hlow, hhigh⟩ := (shortest_top_iff hpos hfinite.le).mpr (h.resolve_left hzero)
    exact ⟨_, layout_plain hlow hhigh, (shortest_found hpos hfinite.le).nearest⟩

/-- **In the middle of the range a number is written as a decimal fraction**, which denotes the same
number. -/
theorem ofDecimal_text (hsign : x.negative = false) (h : x.IsPositional) :
    ∃ whole fraction, Digits whole ∧ Digits fraction ∧ x.text = whole ++ '.' :: fraction ∧
      ofDecimal whole fraction = x := by
  obtain ⟨q, ⟨whole, fraction, hwhole, hfraction, htext, rfl⟩, hnearest⟩ :=
    h.text_isFractionOf hsign
  exact ⟨whole, fraction, hwhole, hfraction, htext,
    ((ofDecimal_iff whole fraction x).mpr ⟨hsign, hnearest⟩).symm⟩

/-- **Outside of it there is a letter in the text of a number.** -/
theorem letter_mem_text (hle : x.ordinal ≤ infinityOrdinal) (h : ¬ x.IsPositional) :
    ∃ c ∈ x.text, Text.isLetter c = true := by
  have hnan : x.isNaN = false := decide_eq_false (by omega)
  obtain ⟨hzero, hrange⟩ := not_or.mp h
  rw [← shortest_top_iff (Nat.pos_of_ne_zero hzero) hle] at hrange
  obtain ⟨c, hc, hletter⟩ : ∃ c ∈ (if x.isInfinite then "inf".toList
      else if x.ordinal = 0 then "0.0".toList else layout (shortest x.ordinal)),
      Text.isLetter c = true := by
    rw [if_neg hzero]
    split_ifs
    · exact ⟨'i', by simp, by decide⟩
    · exact ⟨'e', layout_power hrange, by decide⟩
  rw [text, hnan, if_neg Bool.false_ne_true]
  exact ⟨c, List.mem_append_right _ hc, hletter⟩

/-! ## Characters -/

/-- A character that a number can be written with. -/
def isNumeral (c : Char) : Bool := c.isDigit || ".-einfNa".toList.contains c

lemma isNumeral_ofNat (n : Nat) : ∀ c ∈ Text.ofNat n, isNumeral c = true :=
  fun _ hc => Bool.or_eq_true_iff.mpr (.inl (Text.isDigit_of_mem_ofNat hc))

lemma isNumeral_ofInt (n : ℤ) : ∀ c ∈ Text.ofInt n, isNumeral c = true := by
  cases n with
  | ofNat n => exact isNumeral_ofNat n
  | negSucc n => exact List.forall_mem_cons.mpr ⟨by decide, isNumeral_ofNat (n + 1)⟩

lemma isNumeral_layout (d : Decimal) : ∀ c ∈ layout d, isNumeral c = true := by
  have hdigits := isNumeral_ofNat d.digits
  have htake (n : Nat) : ∀ c ∈ (Text.ofNat d.digits).take n, isNumeral c = true :=
    fun c hc => hdigits c (List.mem_of_mem_take hc)
  have hdrop (n : Nat) : ∀ c ∈ (Text.ofNat d.digits).drop n, isNumeral c = true :=
    fun c hc => hdigits c (List.mem_of_mem_drop hc)
  have hzeros (n : Nat) : ∀ c ∈ List.replicate n '0', isNumeral c = true := by
    intro c hc
    rw [List.eq_of_mem_replicate hc]
    decide
  have hpower := isNumeral_ofInt ((Text.ofNat d.digits).length + d.power - 1)
  have hpoint : isNumeral '.' = true := by decide
  have he : isNumeral 'e' = true := by decide
  unfold layout
  simp only
  split_ifs <;> simp only [List.forall_mem_append, List.forall_mem_cons]
  · exact ⟨⟨List.all_eq_true.mp (by decide), hzeros _⟩, hdigits⟩
  · exact ⟨⟨hdigits, hzeros _⟩, List.all_eq_true.mp (by decide)⟩
  · exact ⟨htake _, hpoint, hdrop _⟩
  · exact ⟨⟨htake _, by simp⟩, he, hpower⟩
  · exact ⟨⟨htake _, hpoint, hdrop _⟩, he, hpower⟩

/-- **The characters that numbers are written with.** -/
lemma isNumeral_text (x : Binary64) : ∀ c ∈ x.text, isNumeral c = true := by
  unfold text
  split
  · exact List.all_eq_true.mp (by decide)
  · refine List.forall_mem_append.mpr ⟨?_, ?_⟩
    · split <;> simp [show isNumeral '-' = true by decide]
    · split_ifs
      · exact List.all_eq_true.mp (by decide)
      · exact List.all_eq_true.mp (by decide)
      · exact isNumeral_layout _

end Imperativo.Binary64
