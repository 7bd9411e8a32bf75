import GraphQuery.Decimal.Binary

/-!
# Shortest decimal text of a double

The text of a double has the fewest significant digits that still read back
as that double, and of the decimals with so few digits the nearest one.

A decimal reads back as the double when it lies in the interval of numbers
that round to it; the ends belong to the interval when the mantissa is even.
`shortest` looks at one decimal grid after the other, from one digit to
seventeen, and on each grid at the two neighbours of the exact value.

`Layout` says how the digits are laid out: between the two limits of the
point's position in positional notation with at least one digit behind the
point, outside of them with an exponent.
-/

namespace GraphQuery.Decimal

/-- The decimal `digits * 10 ^ exponent`. -/
structure Scientific where
  digits : Nat
  exponent : Int
  deriving DecidableEq

/-- A positive double with the interval of numbers that round to it. All four are fractions of
the same denominator. -/
structure Interval where
  value : Nat
  lower : Nat
  upper : Nat
  den : Nat
  /-- The ends round to the double as well. -/
  isClosed : Bool

/-- The interval of numbers that round to the double. -/
def Interval.ofBinary (b : Binary) : Interval :=
  let at_ (n : Nat) := (Binary.scale n (b.exponent - 2)).1
  ⟨at_ (4 * b.mantissa), at_ (4 * b.mantissa - if b.isBoundary then 1 else 2),
    at_ (4 * b.mantissa + 2), (Binary.scale 1 (b.exponent - 2)).2, b.mantissa % 2 == 0⟩

namespace Interval

/-- The fraction lies in the interval. -/
def holds (i : Interval) (num den : Nat) : Bool :=
  let n := num * i.den
  let lo := i.lower * den
  let hi := i.upper * den
  if i.isClosed then lo ≤ n && n ≤ hi else lo < n && n < hi

/-- The position of the point behind the first digit: the least `k` with `value < 10 ^ k`. -/
def pointPosition (i : Interval) : Int :=
  if i.den ≤ i.value then
    (toString (i.value / i.den)).length
  else
    - (leadingZeros i.den i.value : Nat)
where
  /-- The number of zeros between the point and the first digit of a fraction below one. -/
  leadingZeros (den num : Nat) : Nat :=
    go den (den.log2 + 1) (num * 10)
  /-- The zeros found by shifting the numerator digit by digit. -/
  go (den : Nat) : Nat → Nat → Nat
    | 0, _ => 0
    | fuel + 1, num => if den ≤ num then 0 else 1 + go den fuel (num * 10)

/-- The decimal fraction `n * 10 ^ e` as numerator and denominator. -/
def tens (n : Nat) (e : Int) : Nat × Nat :=
  if 0 ≤ e then (n * Nat.pow 10 e.toNat, 1) else (n, Nat.pow 10 (-e).toNat)

/-- The nearer neighbour of the value on the grid of multiples of `10 ^ e`, if one of the two lies
in the interval. -/
def onGrid? (i : Interval) (e : Int) : Option Scientific :=
  let (num, den) := tens 1 e
  let below := i.value * den / (i.den * num)
  let holdsMultiple (n : Nat) := i.holds (n * num) den
  let remainder := 2 * (i.value * den - below * (i.den * num))
  let isBelowNearer := remainder < i.den * num ∨ (remainder = i.den * num ∧ below % 2 = 0)
  match holdsMultiple below, holdsMultiple (below + 1) with
  | true, true => some ⟨if isBelowNearer then below else below + 1, e⟩
  | true, false => some ⟨below, e⟩
  | false, true => some ⟨below + 1, e⟩
  | false, false => none

end Interval

/-- Seventeen digits always read back. -/
def maxDigits : Nat := 17

/-- The same decimal without zeros at the end, of which there are at most `fuel`. -/
def Scientific.trim : Nat → Scientific → Scientific
  | 0, d => d
  | fuel + 1, d =>
    if d.digits ≠ 0 ∧ d.digits % 10 = 0 then trim fuel ⟨d.digits / 10, d.exponent + 1⟩ else d

/-- The decimal with the fewest digits that reads back as the positive double. Rounding up may
reach a power of ten, whose zeros are no digits of it. -/
def shortest (b : Binary) : Scientific :=
  let i := Interval.ofBinary b
  let point := i.pointPosition
  (((List.range maxDigits).findSome? fun n => i.onGrid? (point - (n + 1 : Nat))).getD ⟨0, 0⟩).trim
    maxDigits

/-- How the digits of a decimal are laid out. -/
structure Layout where
  /-- The leftmost position of the point, counted from the first digit, that is written with zeros
  behind the point. -/
  minPoint : Int
  /-- The rightmost position of the point that is written positionally. -/
  maxPoint : Int
  /-- The mark of an exponent. -/
  mark : String
  /-- The sign of a positive exponent. -/
  plus : String

/-- JSON numbers are positional from five places behind the point to sixteen before it, and both
signs of an exponent are written. -/
def Layout.json : Layout := ⟨-4, 16, "e", "+"⟩

/-- A decimal laid out as a number with a point or an exponent. -/
def Scientific.text (l : Layout) (d : Scientific) : String :=
  let digits := (toString d.digits).toList
  let point := digits.length + d.exponent
  if l.minPoint ≤ point ∧ point ≤ 0 then
    "0." ++ .ofList (List.replicate (-point).toNat '0' ++ digits)
  else if 0 < point ∧ point ≤ l.maxPoint then
    if 0 ≤ d.exponent then
      .ofList (digits ++ List.replicate d.exponent.toNat '0') ++ ".0"
    else
      .ofList (digits.take point.toNat) ++ "." ++ .ofList (digits.drop point.toNat)
  else
    let rest := digits.drop 1
    .ofList (digits.take 1) ++ (if rest.isEmpty then "" else "." ++ .ofList rest)
      ++ l.mark ++ (if 0 < point then l.plus else "") ++ toString (point - 1)

/-- The shortest text that reads back as the double. -/
def Binary.text (l : Layout) (b : Binary) : String :=
  (if b.isNegative then "-" else "")
    ++ if b.mantissa = 0 then "0.0" else (shortest b).text l

end GraphQuery.Decimal
