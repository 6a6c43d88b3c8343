import Imperativo.Number.Binary64

/-!
# The shortest decimal that reads back

A binary number is written with the fewest decimal digits that read back as the same number.  Every
quotient between the midpoints to the two neighbouring magnitudes reads back, and the midpoints
themselves do exactly when the ordinal is even.  For `1, 2, …, 17` digits the two decimals around
the magnitude are tried, the first count with a hit wins, and of two hits the nearer one; when both
are equally near the larger is taken.

* `shortest` — digits and power of ten of that decimal.
* `layout` — where the point goes, and when a power of ten is written.
* `text` — a number in writing.
-/

namespace Imperativo

namespace Binary64

/-- The decimal `digits * 10 ^ power`. -/
structure Decimal where
  digits : Nat
  power : Int
  deriving DecidableEq, Repr, Inhabited

/-! ## Quotients -/

/-- A non-negative quotient, for exact comparison. -/
structure Ratio where
  num : Nat
  den : Nat
  deriving DecidableEq, Repr, Inhabited

namespace Ratio

/-- Whether one quotient is less than another. -/
def lt (x y : Ratio) : Bool := decide (x.num * y.den < y.num * x.den)

/-- Whether one quotient is at most another. -/
def le (x y : Ratio) : Bool := decide (x.num * y.den ≤ y.num * x.den)

/-- The quotient halfway between two. -/
def middle (x y : Ratio) : Ratio := ⟨x.num * y.den + y.num * x.den, 2 * x.den * y.den⟩

/-- The quotient times a power of ten. -/
def shift (x : Ratio) (power : Int) : Ratio :=
  if 0 ≤ power then ⟨x.num * Nat.pow 10 power.toNat, x.den⟩ else ⟨x.num, x.den * Nat.pow 10 (-power).toNat⟩

end Ratio

/-- The magnitude with ordinal `n`. -/
def magnitude (n : Nat) : Ratio :=
  let (num, den) := scale (significand n) 1 (exponent n)
  ⟨num, den⟩

/-! ## The search -/

/-- Whether `x` reads back as the magnitude with ordinal `n`, for a positive `n`. -/
def readsBack (n : Nat) (x : Ratio) : Bool :=
  let low := (magnitude (n - 1)).middle (magnitude n)
  let high := (magnitude n).middle (magnitude (n + 1))
  if n % 2 = 0 then low.le x && x.le high else low.lt x && x.lt high

/-- The least `k ≤ fuel` with `x * 10 ^ k ≥ 1`. -/
def leadingZeros (x : Ratio) : Nat → Nat
  | 0 => 0
  | fuel + 1 => if x.den ≤ x.num then 0 else leadingZeros ⟨10 * x.num, x.den⟩ fuel + 1

/-- The number `k` with `10 ^ (k - 1) ≤ x < 10 ^ k`, for a positive magnitude `x`; every one of the
format is above `10 ^ -324`. -/
def decimalExponent (x : Ratio) : Int :=
  if x.den ≤ x.num then (Text.ofNat (x.num / x.den)).length
  else 1 - (leadingZeros x 324 : Int)

/-- The decimal of the form `digits * 10 ^ power` that reads back as the magnitude with ordinal `n`
and is nearest to it, if there is one.  If any does, then one of the two around the magnitude
does. -/
def onGrid? (n : Nat) (power : Int) : Option Decimal :=
  let x := magnitude n
  let y := x.shift (-power)
  let below := y.num / y.den
  let hit (digits : Nat) : Bool := readsBack n (Ratio.shift ⟨digits, 1⟩ power)
  match hit below, hit (below + 1) with
  | false, false => none
  | true, false => some ⟨below, power⟩
  | false, true => some ⟨below + 1, power⟩
  | true, true =>
    if 2 * (y.num % y.den) < y.den then some ⟨below, power⟩ else some ⟨below + 1, power⟩

/-- The decimal with trailing zeros moved into the power; `fuel` bounds their number. -/
def Decimal.trim (d : Decimal) : Nat → Decimal
  | 0 => d
  | fuel + 1 => if d.digits % 10 = 0 then Decimal.trim ⟨d.digits / 10, d.power + 1⟩ fuel else d

/-- The shortest decimal that reads back as the magnitude with ordinal `n`, for a positive `n`.
Seventeen digits always suffice. -/
def shortest (n : Nat) : Decimal :=
  let top := decimalExponent (magnitude n)
  let found := (List.range 17).findSome? fun k => onGrid? n (top - (k + 1 : Nat))
  (found.getD ⟨0, 0⟩).trim 17

/-! ## The written form -/

/-- A decimal in writing.  From `10 ^ -4` up to but not including `10 ^ 16` the point is written
where it stands, with at least one digit on either side; otherwise it follows the first digit, or is
left out when that is the only one, and the power of ten follows the letter `e`. -/
def layout (d : Decimal) : Text :=
  let digits := Text.ofNat d.digits
  let top : Int := digits.length + d.power
  if -4 < top ∧ top ≤ 0 then "0.".toList ++ List.replicate (-top).toNat '0' ++ digits
  else if 0 < top ∧ top ≤ 16 then
    if 0 ≤ d.power then digits ++ List.replicate d.power.toNat '0' ++ ".0".toList
    else digits.take top.toNat ++ '.' :: digits.drop top.toNat
  else
    let fraction := digits.drop 1
    digits.take 1 ++ (if fraction.isEmpty then [] else '.' :: fraction) ++ 'e' :: Text.ofInt (top - 1)

/-- A number in writing: a minus sign if it is negative, then its shortest decimal, or `inf`.  `NaN`
has no sign. -/
def text (x : Binary64) : Text :=
  if x.isNaN then "NaN".toList
  else
    (if x.negative then ['-'] else []) ++
      if x.isInfinite then "inf".toList
      else if x.ordinal = 0 then "0.0".toList
      else layout (shortest x.ordinal)

end Binary64

end Imperativo
