/-!
# Signed integers in decimal

`Signed.read` reads an integer of 64 bits from its digits, behind a sign or
not.  Digits are taken from left to right, and the first that is none or makes
the number too large decides how reading fails.
-/

namespace GraphQuery.Decimal.Signed

/-- Why a text is no integer. -/
inductive Fault where
  | empty
  | invalidDigit
  | tooLarge
  | tooSmall
  deriving DecidableEq

/-- The fault in words. -/
def Fault.message : Fault → String
  | empty => "cannot parse integer from empty string"
  | invalidDigit => "invalid digit found in string"
  | tooLarge => "number too large to fit in target type"
  | tooSmall => "number too small to fit in target type"

/-- The fault of a number that is out of range. -/
def Fault.range (isNegative : Bool) : Fault := if isNegative then tooSmall else tooLarge

/-- The number of the largest magnitude with a sign. -/
def bound (isNegative : Bool) : Nat :=
  if isNegative then Int64.minValue.toInt.natAbs else Int64.maxValue.toInt.natAbs

/-- The magnitude whose digits go on behind those of a value. -/
def magnitude (isNegative : Bool) (value : Nat) : List Char → Except Fault Nat
  | [] => .ok value
  | c :: rest =>
    if !c.isDigit then .error .invalidDigit
    else
      let value := value * 10 + (c.toNat - '0'.toNat)
      if bound isNegative < value then .error (.range isNegative)
      else magnitude isNegative value rest

/-- The integer with a sign and the given digits. -/
def ofDigits (isNegative : Bool) (digits : List Char) : Except Fault Int64 :=
  if digits.isEmpty then .error .invalidDigit
  else
    (magnitude isNegative 0 digits).map fun n =>
      .ofInt (if isNegative then -(n : Int) else n)

/-- The integer with the given text. -/
def read (s : String) : Except Fault Int64 :=
  match s.toList with
  | [] => .error .empty
  | '+' :: digits => ofDigits false digits
  | '-' :: digits => ofDigits true digits
  | digits => ofDigits false digits

end GraphQuery.Decimal.Signed
