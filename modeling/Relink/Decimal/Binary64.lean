/-!
# Double precision magnitudes

The numbers in the JSON that `from_json` reads, if they are no whole numbers, and without their sign.
The finite non-negative numbers of IEEE 754 double precision, as `mantissa · 2 ^ exponent` with a
mantissa below 2^53 and an exponent of at least -1074. Arithmetic is exact arithmetic on fractions
followed by one rounding to the nearest such number, a tie going to the even mantissa.

* `nearest` rounds a fraction; `none` says that it is too large.
* `ofDecimal` is the value of a decimal numeral with significand and power of ten, each rounded on
  its own before they are multiplied or divided.
-/

namespace Relink.Decimal

/-- A finite non-negative number, `mantissa · 2 ^ exponent`. -/
structure Binary64 where
  mantissa : Nat
  exponent : Int
deriving DecidableEq, Repr, Inhabited

/-- A quotient rounded to the nearest whole number, a half to the even neighbour. -/
def roundDiv (num den : Nat) : Nat :=
  let q := num / den
  let r := num % den
  if den < 2 * r ∨ (den = 2 * r ∧ q % 2 = 1) then q + 1 else q

namespace Binary64

/-- Two to the power `n`. -/
def twoTo (n : Nat) : Nat := Nat.pow 2 n

/-- Ten to the power `n`. -/
def tenTo (n : Nat) : Nat := Nat.pow 10 n

/-- The least mantissa of a number whose exponent is not the least. -/
def leastMantissa : Nat := 0x10000000000000

/-- Zero. -/
def zero : Binary64 := ⟨0, -1074⟩

/-- The least exponent. -/
def minExponent : Int := -1074

/-- The greatest exponent. -/
def maxExponent : Int := 971

/-- The numerator of the number's fraction. -/
def num (x : Binary64) : Nat :=
  x.mantissa * twoTo x.exponent.toNat

/-- The denominator of the number's fraction. -/
def den (x : Binary64) : Nat :=
  twoTo (-x.exponent).toNat

/-- The exponent of the greatest power of two that is at most `num / den`, for positive `num` and
`den`. -/
def binaryOrder (num den : Nat) : Int :=
  let order : Int := (num.log2 : Int) - (den.log2 : Int)
  if num * twoTo (-order).toNat < den * twoTo order.toNat then order - 1 else order

/-- The number nearest to `num / den`, a tie to the even mantissa; `none` beyond the greatest. -/
def nearest (num den : Nat) : Option Binary64 :=
  if num = 0 then some zero
  else
    let exponent := max minExponent (binaryOrder num den - 52)
    let mantissa := roundDiv (num * twoTo (-exponent).toNat) (den * twoTo exponent.toNat)
    let (mantissa, exponent) :=
      if mantissa = 2 * leastMantissa then (leastMantissa, exponent + 1) else (mantissa, exponent)
    if maxExponent < exponent then none else some ⟨mantissa, exponent⟩

/-- The rounded product. -/
def mul (x y : Binary64) : Option Binary64 :=
  nearest (x.num * y.num) (x.den * y.den)

/-- The rounded quotient. -/
def div (x y : Binary64) : Option Binary64 :=
  nearest (x.num * y.den) (x.den * y.num)

/-- The number nearest to a power of ten. -/
def tenPow (n : Nat) : Option Binary64 :=
  nearest (tenTo n) 1

/-- The greatest power of ten that is rounded in one piece. -/
def greatestPower : Nat := 308

/-- The number divided by the `n`-th power of ten, at most `greatestPower` places at a time. -/
def shiftDown (x : Binary64) (n : Nat) : Option Binary64 :=
  if _h : n ≤ greatestPower then (tenPow n).bind x.div
  else if x.mantissa = 0 then some x
  else ((tenPow greatestPower).bind x.div).bind fun y => shiftDown y (n - greatestPower)
termination_by n
decreasing_by exact Nat.sub_lt (Nat.lt_of_le_of_lt (Nat.zero_le _) (Nat.lt_of_not_le _h)) (by decide)

/-- The value of `significand · 10 ^ exponent`; `none` beyond the greatest number. -/
def ofDecimal (significand : Nat) (exponent : Int) : Option Binary64 := do
  let x ← nearest significand 1
  if exponent < 0 then x.shiftDown (-exponent).toNat
  else if exponent ≤ greatestPower then (tenPow exponent.toNat).bind x.mul
  else if x.mantissa = 0 then some x
  else none

end Binary64

end Relink.Decimal
