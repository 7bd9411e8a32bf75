import GraphQuery.Decimal.Binary

/-!
# Fixed decimal places

A number with a fixed count of digits behind the point.  The exact value is
rounded to the nearest such decimal, and a value half way between two goes to
the one with the even last digit.
-/

namespace GraphQuery.Decimal

/-- The natural number nearest to the fraction; the even one of two that are as near. -/
def roundHalfEven (num den : Nat) : Nat :=
  if 2 * (num % den) < den then
    num / den
  else if den < 2 * (num % den) then
    num / den + 1
  else
    num / den + num / den % 2

/-- Digits with a point before the last ones. -/
def withPlaces (places n : Nat) : String :=
  let digits := (toString (n % Nat.pow 10 places)).toList
  toString (n / Nat.pow 10 places) ++ "."
    ++ .ofList (List.replicate (places - digits.length) '0' ++ digits)

/-- A double with the given number of places behind the point, at least one. -/
def Binary.fixed (places : Nat) (b : Binary) : String :=
  let (num, den) := b.ratio
  (if b.isNegative then "-" else "")
    ++ withPlaces places (roundHalfEven (num * Nat.pow 10 places) den)

/-- A double with the given number of places behind the point, at least one. -/
def fixed (places : Nat) (x : Float) : String :=
  (Binary.ofBits x.toBits).fixed places

/-- The rounded number is at most half a unit away from the fraction. -/
theorem roundHalfEven_near (num : Nat) {den : Nat} (h : 0 < den) :
    2 * num ≤ 2 * (den * roundHalfEven num den) + den ∧
      2 * (den * roundHalfEven num den) ≤ 2 * num + den := by
  have whole : den * (num / den) + num % den = num := Nat.div_add_mod num den
  have small : num % den < den := Nat.mod_lt num h
  unfold roundHalfEven
  split
  · omega
  · split
    · rw [Nat.mul_add]
      omega
    · rcases Nat.mod_two_eq_zero_or_one (num / den) with parity | parity <;>
        rw [parity, Nat.mul_add] <;> omega

end GraphQuery.Decimal
