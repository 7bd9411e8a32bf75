import GraphQuery.Decimal.Shortest

/-!
# JSON numbers

A number is an integer when it is written without a fraction and without an
exponent and fits into 64 bits, signed or unsigned.  Every other number,
negative zero included, is a double.

A double is read from the leading digits that make up a 64-bit significand,
which is then multiplied or divided by one power of ten.  A number too large
for a double is refused, one too small becomes zero.
-/

namespace GraphQuery

/-- A JSON number. -/
inductive Number where
  | integer (n : Int)
  /-- The finite double with these bits. -/
  | double (bits : UInt64)
  deriving DecidableEq

namespace Number

/-- The text of a number: an integer in decimal, a double with the fewest digits. -/
def text : Number → String
  | integer n => toString n
  | double bits => (Decimal.Binary.ofBits bits).text .json

/-- The largest unsigned 64-bit number. -/
def maxUnsigned : Nat := UInt64.size - 1

/-- The largest magnitude of a negative 64-bit number. -/
def maxNegative : Nat := UInt64.size / 2

/-- The largest exponent that is taken at its word. -/
def maxExponent : Nat := 2147483647

/-- The largest power of ten that is a double. -/
def maxPower : Nat := 308

/-- The double nearest to a power of ten. -/
def power (n : Nat) : Float := Float.ofScientific 1 false n

/-- The value of a decimal digit. -/
def digit (c : Char) : Nat := c.toNat - '0'.toNat

/-- The natural number with the given digits. -/
def ofDigits (digits : List Char) : Nat :=
  digits.foldl (fun n c => n * 10 + digit c) 0

/-- A number as it is written. -/
structure Lexeme where
  isNegative : Bool
  whole : List Char
  fraction : List Char
  isNegativeExponent : Bool
  exponent : List Char

/-- The sign, and what follows it. -/
def takeSign : List Char → Bool × List Char
  | '-' :: rest => (true, rest)
  | cs => (false, cs)

/-- At least one digit, and what follows the digits. -/
def takeDigits? (cs : List Char) : Option (List Char × List Char) :=
  if (cs.takeWhile Char.isDigit).isEmpty then none
  else some (cs.takeWhile Char.isDigit, cs.dropWhile Char.isDigit)

/-- The digits before the point, of which a zero stands alone. -/
def takeWhole? (cs : List Char) : Option (List Char × List Char) := do
  let (whole, rest) ← takeDigits? cs
  if whole.head? = some '0' ∧ whole.length ≠ 1 then none
  else return (whole, rest)

/-- The digits behind the point, if there is one. -/
def takeFraction? : List Char → Option (List Char × List Char)
  | '.' :: rest => takeDigits? rest
  | cs => some ([], cs)

/-- The sign and the digits of the exponent, if there is one. -/
def takeExponent? : List Char → Option (Bool × List Char × List Char)
  | [] => some (false, [], [])
  | e :: rest =>
    if e = 'e' ∨ e = 'E' then
      match rest with
      | '+' :: rest => (takeDigits? rest).map (false, ·)
      | '-' :: rest => (takeDigits? rest).map (true, ·)
      | rest => (takeDigits? rest).map (false, ·)
    else
      some (false, [], e :: rest)

/-- The parts of a number, if the whole text is one. -/
def Lexeme.ofChars? (cs : List Char) : Option Lexeme := do
  let (isNegative, cs) := takeSign cs
  let (whole, cs) ← takeWhole? cs
  let (fraction, cs) ← takeFraction? cs
  let (isNegativeExponent, exponent, cs) ← takeExponent? cs
  if cs.isEmpty then return ⟨isNegative, whole, fraction, isNegativeExponent, exponent⟩
  else none

/-- The significand continued with digits while it fits into 64 bits, and the digits left over. -/
def absorb (significand : Nat) : List Char → Nat × List Char
  | [] => (significand, [])
  | c :: cs =>
    if significand * 10 + digit c ≤ maxUnsigned then absorb (significand * 10 + digit c) cs
    else (significand, c :: cs)

/-- A significand times a power of ten; nothing if it is too large for a double. Two divisions by
the largest power bring every significand to zero. -/
def scaled? (significand : Float) (exponent : Int) : Option Float :=
  go 3 significand exponent
where
  /-- The product, after at most `fuel` divisions by the largest power. -/
  go : Nat → Float → Int → Option Float
    | 0, f, _ => some f
    | fuel + 1, f, e =>
      if e.natAbs ≤ maxPower then
        if 0 ≤ e then
          let product := f * power e.natAbs
          if product.isInf then none else some product
        else
          some (f / power e.natAbs)
      else if f == 0 then
        some f
      else if 0 ≤ e then
        none
      else
        go fuel (f / power maxPower) (e + maxPower)

/-- The double with the given sign. -/
def ofFloat (isNegative : Bool) (f : Float) : Number :=
  double (if isNegative then -f else f).toBits

/-- The double that a number with a fraction, an exponent or too many digits stands for. -/
def Lexeme.double? (l : Lexeme) : Option Number :=
  let (significand, more) := absorb 0 l.whole
  let (significand, ignored) := absorb significand l.fraction
  let exponent : Int := more.length - (l.fraction.length - ignored.length : Nat)
  let shift := ofDigits l.exponent
  if shift ≤ maxExponent then
    (scaled? significand.toUInt64.toFloat
      (if l.isNegativeExponent then exponent - shift else exponent + shift)).map
        (ofFloat l.isNegative)
  else if significand ≠ 0 ∧ !l.isNegativeExponent then
    none
  else
    some (ofFloat l.isNegative 0)

/-- The number that a lexeme stands for; nothing if it is out of range. -/
def Lexeme.value? (l : Lexeme) : Option Number :=
  let n := ofDigits l.whole
  if !l.fraction.isEmpty || !l.exponent.isEmpty then l.double?
  else if l.isNegative then
    if 0 < n ∧ n ≤ maxNegative then some (integer (-n)) else l.double?
  else
    if n ≤ maxUnsigned then some (integer n) else l.double?

/-- The number with the given text. -/
def ofChars? (cs : List Char) : Option Number := do
  (← Lexeme.ofChars? cs).value?

end Number

end GraphQuery
