import Imperativo.Text.Basic

/-!
# Binary floating point, exactly

A literal with a point denotes a number of the 64-bit binary format.  Here such a number is its sign
and the *ordinal* of its magnitude: the magnitudes of the format, in increasing order, are numbered
`0, 1, 2, …`, infinity comes right behind the largest finite one, and what is above infinity is no
number.  The numbering is the one that the stored bits give, so every ordinal below
`infinityOrdinal` is a finite magnitude, two numbers are equal exactly when their signs and ordinals
are, and the neighbour above has the next ordinal.

* `significand`, `exponent` — the magnitude with ordinal `n` is `significand n * 2 ^ exponent n`.
* `nearest` — the ordinal nearest to a quotient of natural numbers; a half goes to the even ordinal.
* `ofDecimal` — the number that a decimal fraction denotes.
* `parse?` — reads the written form of a number.
-/

namespace Imperativo

/-- A number of the 64-bit binary format, or a NaN. -/
structure Binary64 where
  negative : Bool
  ordinal : Nat
  deriving DecidableEq, Repr, Inhabited

namespace Binary64

/-! ## Magnitudes by ordinal -/

/-- How many ordinals share one binary exponent. -/
def binade : Nat := Nat.pow 2 52

/-- The ordinal of infinity. -/
def infinityOrdinal : Nat := 2047 * binade

/-- The whole number that carries the digits of the magnitude with ordinal `n`. -/
def significand (n : Nat) : Nat :=
  if n < binade then n else binade + n % binade

/-- The power of two that scales the magnitude with ordinal `n`. -/
def exponent (n : Nat) : Int :=
  if n < binade then -1074 else (n / binade : Nat) - 1075

/-- Whether the number is an infinity. -/
def isInfinite (x : Binary64) : Bool := x.ordinal = infinityOrdinal

/-- Whether there is no number. -/
def isNaN (x : Binary64) : Bool := infinityOrdinal < x.ordinal

/-! ## Rounding -/

/-- `a * 2 ^ k / b` as a quotient of natural numbers: numerator and denominator. -/
def scale (a b : Nat) (k : Int) : Nat × Nat :=
  if 0 ≤ k then (a * Nat.pow 2 k.toNat, b) else (a, b * Nat.pow 2 (-k).toNat)

/-- The whole number nearest to `a / b`; a half goes to the even one. -/
def roundHalfEven (a b : Nat) : Nat :=
  let q := a / b
  let r := a % b
  if 2 * r < b then q
  else if b < 2 * r then q + 1
  else if q % 2 = 0 then q else q + 1

/-- The greatest `k` with `2 ^ k ≤ a / b`, for positive `a` and `b`. -/
def floorLog2 (a b : Nat) : Int :=
  let k : Int := (a.log2 : Int) - (b.log2 : Int)
  let (x, y) := scale a b (-k)
  if y ≤ x then k else k - 1

/-- The ordinal of the magnitude nearest to `a / b`, a half going to the even ordinal.  All
magnitudes with one exponent are the multiples of one power of two, so the quotient is measured in
units of that power and rounded to a whole number of them; the units below the first binade are
never smaller than `2 ^ -1074`.  Rounding up to the end of a binade gives the first ordinal of the
next one. -/
def nearest (a b : Nat) : Nat :=
  if a = 0 then 0
  else
    let unit := max (-1074) (floorLog2 a b - 52)
    let (x, y) := scale a b (-unit)
    min infinityOrdinal ((unit + 1074).toNat * binade + roundHalfEven x y)

/-- The ordinal nearest to `digits * 10 ^ power`. -/
def nearestDecimal (digits : Nat) (power : Int) : Nat :=
  if 0 ≤ power then nearest (digits * Nat.pow 10 power.toNat) 1
  else nearest digits (Nat.pow 10 (-power).toNat)

/-- The number denoted by the decimal fraction `whole.fraction`, both runs of digits. -/
def ofDecimal (whole fraction : Text) : Binary64 :=
  ⟨false, nearestDecimal (Text.ofDigits (whole ++ fraction)) (-(fraction.length : Int))⟩

/-! ## Reading the written form -/

/-- Reads a decimal exponent: digits with an optional minus sign. -/
def parseExponent? : Text → Option Int
  | '-' :: digits => if !digits.isEmpty && digits.all Char.isDigit then some (-(Text.ofDigits digits : Int)) else none
  | digits => if !digits.isEmpty && digits.all Char.isDigit then some (Text.ofDigits digits) else none

/-- The exponent with its size held to what can matter for `count` digits: from there on the number
is infinite or zero whatever the digits are. -/
def clampExponent (count : Nat) (power : Int) : Int :=
  max (-(count + 400 : Nat) : Int) (min power (count + 400 : Nat))

/-- Reads a magnitude `digits[.digits][e[-]digits]`, or `inf`, as an ordinal. -/
def parseOrdinal? (text : Text) : Option Nat :=
  if text = "inf".toList then some infinityOrdinal
  else
    let whole := text.takeWhile Char.isDigit
    let behindWhole := text.dropWhile Char.isDigit
    let (fraction, behindFraction) :=
      match behindWhole with
      | '.' :: rest => (rest.takeWhile Char.isDigit, rest.dropWhile Char.isDigit)
      | rest => ([], rest)
    let digits := Text.ofDigits (whole ++ fraction)
    if whole.isEmpty || (behindWhole.head? == some '.' && fraction.isEmpty) then none
    else
      match behindFraction with
      | [] => some (nearestDecimal digits (-(fraction.length : Int)))
      | 'e' :: rest =>
        (parseExponent? rest).map fun power =>
          let count := whole.length + fraction.length
          nearestDecimal digits (clampExponent count power - fraction.length)
      | _ => none

/-- Reads a number as it is written in reports: an optional minus sign, then the magnitude. -/
def parse? : Text → Option Binary64
  | '-' :: magnitude => (parseOrdinal? magnitude).map (⟨true, ·⟩)
  | magnitude => (parseOrdinal? magnitude).map (⟨false, ·⟩)

end Binary64

end Imperativo
