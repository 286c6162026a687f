import Relink.Decimal.Binary64

/-!
# The shortest decimal that reads back

How `from_json` shows a number that it has no use for, if it is no whole number. A double precision
number stands for all the real numbers that round to it. Among the decimals in that interval
`Shortest.digits` takes one with the fewest digits, and of those the nearest to the number.
`Layout.write` spells it: positionally while the exponent of the first digit is moderate, with a signed
power of ten beyond.
-/

namespace Relink.Decimal

/-- A decimal `digits · 10 ^ exponent`. -/
structure Scaled where
  digits : Nat
  exponent : Int
deriving DecidableEq, Repr

namespace Shortest

open Binary64 (tenTo)

/-- A quarter of the gap above `x`, over the denominator of `x`. -/
def unit (x : Binary64) : Nat :=
  Binary64.twoTo x.exponent.toNat

/-- The least number that may round to `x`, in quarters of the gap above `x`. Below a power of two
the gap is half as wide. -/
def low (x : Binary64) : Nat :=
  4 * x.mantissa - if x.mantissa = Binary64.leastMantissa ∧ Binary64.minExponent < x.exponent then 1 else 2

/-- The greatest number that may round to `x`, in quarters of the gap above `x`. -/
def high (x : Binary64) : Nat :=
  4 * x.mantissa + 2

/-- How many decimal digits a number has. -/
def digitCount (n : Nat) : Nat :=
  (Nat.toDigits 10 n).length

/-- The exponent of the first decimal digit of a positive fraction. -/
def decimalOrder (num den : Nat) : Int :=
  if den ≤ num then (digitCount (num / den) : Int) - 1
  else -Int.ofNat (digitCount ((den + num - 1) / num - 1))

/-- Whether the decimal rounds to `x`; the ends belong to an even mantissa. -/
def readsBack (x : Binary64) (d : Scaled) : Bool :=
  let value := 4 * d.digits * tenTo d.exponent.toNat * x.den
  let scale := unit x * tenTo (-d.exponent).toNat
  if x.mantissa % 2 = 0 then low x * scale ≤ value && value ≤ high x * scale
  else low x * scale < value && value < high x * scale

/-- The decimal nearest to `x` among the two neighbours of `x` at this exponent that read back. -/
def nearestAt (x : Binary64) (exponent : Int) : Option Scaled :=
  let num := x.num * tenTo (-exponent).toNat
  let den := x.den * tenTo exponent.toNat
  let below : Scaled := ⟨num / den, exponent⟩
  let above : Scaled := ⟨num / den + 1, exponent⟩
  let rounded := roundDiv num den
  let (first, second) := if rounded = below.digits then (below, above) else (above, below)
  if readsBack x first then some first
  else if readsBack x second then some second
  else none

/-- A decimal without trailing zeros. -/
def dropZeros (d : Scaled) : Scaled :=
  if _h : d.digits ≠ 0 ∧ d.digits % 10 = 0 then dropZeros ⟨d.digits / 10, d.exponent + 1⟩ else d
termination_by d.digits
decreasing_by omega

/-- The shortest decimal that rounds to `x`, with no trailing zero. -/
def decimal (x : Binary64) : Scaled :=
  let order := decimalOrder x.num x.den
  let shortest := (List.range 17).findSome? fun n => nearestAt x (order - (n : Nat))
  dropZeros (shortest.getD ⟨x.mantissa, x.exponent⟩)

end Shortest

/-- How a decimal is spelled: positionally while the exponent of the first digit lies between
`least` and `greatest`, with `mark` and a signed power of ten otherwise. -/
structure Layout where
  least : Int
  greatest : Int
  mark : Char

namespace Layout

/-- A decimal under this layout. Positional spellings keep at least one digit after the point. -/
def write (layout : Layout) (d : Scaled) : List Char :=
  let ds := Nat.toDigits 10 d.digits
  let order := d.exponent + ds.length - 1
  if layout.least ≤ order ∧ order ≤ layout.greatest then
    if 0 ≤ d.exponent then ds ++ List.replicate d.exponent.toNat '0' ++ ['.', '0']
    else if 0 ≤ order then ds.take (order.toNat + 1) ++ '.' :: ds.drop (order.toNat + 1)
    else '0' :: '.' :: List.replicate (-order - 1).toNat '0' ++ ds
  else
    let fraction := if ds.length = 1 then [] else '.' :: ds.drop 1
    let sign := if order < 0 then '-' else '+'
    ds.take 1 ++ fraction ++ layout.mark :: sign :: Nat.toDigits 10 order.natAbs

end Layout

end Relink.Decimal
