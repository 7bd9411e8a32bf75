/-!
# Finite binary numbers

A finite double is `mantissa * 2 ^ exponent` with a sign.  `Binary.ofBits`
reads the three fields of the 64-bit format.  Everything that is printed
about a double is computed from these exact numbers; `ratio` gives them as a
fraction of natural numbers.
-/

namespace GraphQuery.Decimal

/-- A finite double as a natural number times a power of two, with a sign. -/
structure Binary where
  isNegative : Bool
  mantissa : Nat
  exponent : Int
  /-- The next smaller number is only half as far away as the next larger one. -/
  isBoundary : Bool
  deriving DecidableEq

namespace Binary

/-- The number of bits of the fraction field. -/
def fractionBits : Nat := 52

/-- The exponent of the smallest positive double. -/
def minExponent : Int := -1074

/-- The double with the given bits, whose exponent field is not the one of infinities. -/
def ofBits (bits : UInt64) : Binary :=
  let fraction := bits.toNat % Nat.pow 2 fractionBits
  let field := bits.toNat / Nat.pow 2 fractionBits % Nat.pow 2 11
  let isNegative := bits.toNat / Nat.pow 2 63 == 1
  if field = 0 then
    ⟨isNegative, fraction, minExponent, false⟩
  else
    ⟨isNegative, fraction + Nat.pow 2 fractionBits, minExponent + (field - 1 : Nat),
      fraction == 0 && field != 1⟩

/-- The fraction `n * 2 ^ e` as numerator and denominator. -/
def scale (n : Nat) (e : Int) : Nat × Nat :=
  if 0 ≤ e then (n * Nat.pow 2 e.toNat, 1) else (n, Nat.pow 2 (-e).toNat)

/-- The absolute value as numerator and denominator. -/
def ratio (b : Binary) : Nat × Nat := scale b.mantissa b.exponent

end Binary

end GraphQuery.Decimal
