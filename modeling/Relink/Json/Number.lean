import Relink.Decimal.Shortest

/-!
# Numerals

The numbers in the JSON that `from_json` and `package_main` read: neither has a use for them, but
`from_json` shows the value of one that it meets. A numeral of a JSON text is first cut into its parts
(`Numeral.scan`), then given a value (`Numeral.value`): a whole number if it has neither fraction nor
exponent and fits 64 bits, a double precision number otherwise.

Only so many digits count as fit 64 bits. Whole digits beyond them move the point, further digits of
the fraction are dropped.
-/

namespace Relink

/-- Why a text is no JSON. -/
inductive Json.Fault where
  /-- The text ends too early. -/
  | truncated
  /-- A character stands where it cannot stand, or a numeral is out of range. -/
  | malformed
deriving DecidableEq, Repr

namespace Json

open Decimal

/-- A number. -/
inductive Number where
  | natural (n : Nat)
  /-- The number `-n`, for a positive `n`. -/
  | negative (n : Nat)
  | binary (minus : Bool) (magnitude : Binary64)
deriving DecidableEq, Repr

/-- Numbers that are not whole are written positionally from `0.00001` up to sixteen digits before
the point, and as `1.5e-7` or `1e+16` beyond. -/
def numberLayout : Layout := ⟨-5, 15, 'e'⟩

/-- How a number is written. -/
def Number.text : Number → List Char
  | .natural n => Nat.toDigits 10 n
  | .negative n => '-' :: Nat.toDigits 10 n
  | .binary minus x =>
    (if minus then ['-'] else []) ++
      if x.mantissa = 0 then ['0', '.', '0'] else numberLayout.write (Shortest.decimal x)

/-- The parts of a numeral; the exponent has a sign of its own. -/
structure Numeral where
  minus : Bool
  whole : List Char
  fraction : Option (List Char)
  exponent : Option (Bool × List Char)

/-- The digits at the front, of which there has to be one, and the rest. -/
def digitsOf (text : List Char) : Except Fault (List Char × List Char) :=
  match text with
  | [] => .error .truncated
  | c :: _ =>
    if c.isDigit then .ok (text.takeWhile Char.isDigit, text.dropWhile Char.isDigit)
    else .error .malformed

/-- A sign at the front: whether it is a minus, and the rest. -/
def signOf : List Char → Bool × List Char
  | '-' :: rest => (true, rest)
  | '+' :: rest => (false, rest)
  | text => (false, text)

/-- The fraction at the front, if there is a point. -/
def fractionOf : List Char → Except Fault (Option (List Char) × List Char)
  | '.' :: rest => (digitsOf rest).map fun (ds, rest) => (some ds, rest)
  | text => .ok (none, text)

/-- The exponent at the front, if there is an `e`. -/
def exponentOf : List Char → Except Fault (Option (Bool × List Char) × List Char)
  | c :: rest =>
    if c = 'e' ∨ c = 'E' then
      (digitsOf (signOf rest).2).map fun (ds, after) => (some ((signOf rest).1, ds), after)
    else .ok (none, c :: rest)
  | [] => .ok (none, [])

namespace Numeral

/-- The numeral at the front of a text and the rest. The whole part has no leading zero. -/
def scan (text : List Char) : Except Fault (Numeral × List Char) :=
  let unsigned := if text.head? = some '-' then text.drop 1 else text
  (digitsOf unsigned).bind fun (whole, rest) =>
    if whole.head? = some '0' ∧ 1 < whole.length then .error .malformed
    else (fractionOf rest).bind fun (fraction, rest) =>
      (exponentOf rest).map fun (exponent, rest) =>
        (⟨text.head? = some '-', whole, fraction, exponent⟩, rest)

/-- The value of a decimal digit. -/
def digitValue (c : Char) : Nat :=
  c.toNat - '0'.toNat

/-- The value of a string of digits. -/
def digitsValue (digits : List Char) : Nat :=
  digits.foldl (fun n c => 10 * n + digitValue c) 0

/-- One more than the greatest significand, which fits 64 bits. -/
def significandLimit : Nat := 0x10000000000000000

/-- Appends digits to a significand while it fits 64 bits; also how many were left over. -/
def absorb (significand : Nat) : List Char → Nat × Nat
  | [] => (significand, 0)
  | c :: rest =>
    let next := significand * 10 + digitValue c
    if next < significandLimit then absorb next rest else (significand, rest.length + 1)

/-- A whole number that fits 64 bits. Zero with a sign and negative numbers below -2^63 are double
precision numbers. -/
def wholeValue (minus : Bool) (n : Nat) : Except Fault Number :=
  if !minus then .ok (.natural n)
  else if 0 < n ∧ 2 * n ≤ significandLimit then .ok (.negative n)
  else
    match Binary64.nearest n 1 with
    | some x => .ok (.binary true x)
    | none => .error .malformed

/-- The number a numeral stands for; one beyond the greatest number is a fault. -/
def value (numeral : Numeral) : Except Fault Number :=
  let (significand, left) := absorb 0 numeral.whole
  if numeral.fraction.isNone ∧ numeral.exponent.isNone ∧ left = 0 then
    wholeValue numeral.minus significand
  else
    let fraction := numeral.fraction.getD []
    let (significand, dropped) := absorb significand fraction
    let shift : Int := match numeral.exponent with
      | some (true, digits) => -Int.ofNat (digitsValue digits)
      | some (false, digits) => Int.ofNat (digitsValue digits)
      | none => 0
    match Binary64.ofDecimal significand (Int.ofNat left - Int.ofNat (fraction.length - dropped) + shift) with
    | some x => .ok (.binary numeral.minus x)
    | none => .error .malformed

end Numeral

/-- The number at the front of a text and the rest. -/
def numberOf (text : List Char) : Except Fault (Number × List Char) :=
  (Numeral.scan text).bind fun (numeral, rest) => numeral.value.map fun n => (n, rest)

theorem length_digitsOf {text ds rest : List Char} (h : digitsOf text = .ok (ds, rest)) :
    rest.length < text.length := by
  unfold digitsOf at h
  split at h
  · cases h
  · next c cs =>
    split at h
    · next hc =>
      cases h
      rw [List.dropWhile_cons_of_pos hc]
      exact Nat.lt_succ_of_le (List.dropWhile_suffix _).length_le
    · cases h

theorem length_fractionOf {text : List Char} {f : Option (List Char)} {rest : List Char}
    (h : fractionOf text = .ok (f, rest)) : rest.length ≤ text.length := by
  unfold fractionOf at h
  split at h
  · next cs =>
    cases hd : digitsOf cs with
    | error e => rw [hd] at h; cases h
    | ok r =>
      rw [hd] at h; cases h
      have := length_digitsOf hd
      simp only [List.length_cons]
      omega
  · cases h; exact Nat.le_refl _

theorem length_signOf (text : List Char) : (signOf text).2.length ≤ text.length := by
  unfold signOf
  split <;> simp

theorem length_exponentOf {text : List Char} {e : Option (Bool × List Char)} {rest : List Char}
    (h : exponentOf text = .ok (e, rest)) : rest.length ≤ text.length := by
  unfold exponentOf at h
  split at h
  · next c cs =>
    split at h
    · cases hd : digitsOf (signOf cs).2 with
      | error e => rw [hd] at h; cases h
      | ok r =>
        rw [hd] at h; cases h
        have := length_digitsOf hd
        have := length_signOf cs
        simp only [List.length_cons]
        omega
    · cases h; exact Nat.le_refl _
  · cases h; exact Nat.le_refl _

theorem length_scan {text : List Char} {n : Numeral} {rest : List Char}
    (h : Numeral.scan text = .ok (n, rest)) : rest.length < text.length := by
  unfold Numeral.scan at h
  simp only at h
  have hu : (if text.head? = some '-' then text.drop 1 else text).length ≤ text.length := by
    split <;> simp
  generalize (if text.head? = some '-' then text.drop 1 else text) = unsigned at h hu
  cases hd : digitsOf unsigned with
  | error e => rw [hd] at h; cases h
  | ok d =>
    rw [hd] at h
    simp only [Except.bind] at h
    split at h
    · cases h
    · cases hf : fractionOf d.2 with
      | error e => rw [hf] at h; cases h
      | ok f =>
        rw [hf] at h
        simp only at h
        cases he : exponentOf f.2 with
        | error e => rw [he] at h; cases h
        | ok e =>
          rw [he] at h
          cases h
          have := length_digitsOf hd
          have := length_fractionOf hf
          have := length_exponentOf he
          omega

/-- A numeral takes at least one character. -/
theorem length_numberOf {text : List Char} {n : Number} {rest : List Char}
    (h : numberOf text = .ok (n, rest)) : rest.length < text.length := by
  unfold numberOf at h
  cases hs : Numeral.scan text with
  | error f => rw [hs] at h; cases h
  | ok r =>
    rw [hs] at h
    simp only [Except.bind] at h
    cases hv : r.1.value with
    | error f => rw [hv] at h; cases h
    | ok v => rw [hv] at h; cases h; exact length_scan hs

end Json

end Relink
