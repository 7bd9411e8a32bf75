import GraphQuery.Toml.Quoted
import GraphQuery.Toml.Value

/-!
# Numbers, dates and truth values in TOML

A value that is neither a string nor made of others is a word, of letters,
digits and a few marks.  `Scalar.ofWord?` says what a word means; most words
mean nothing.

* An integer is decimal, or has one of the marks `0x`, `0o` and `0b`.  Digits
  may be separated by single underscores, and a decimal number has no zeros in
  front.  It fits into 64 bits with a sign.
* A float has a fraction or an exponent or both.  One that is too large for a
  double is refused, unless it is negative.
* A date has a time or not, and a time a distance from universal time or not;
  a time may stand alone.
-/

namespace GraphQuery.Toml.Scalar

open Json.Quoted (hexValue?)

/-- The characters of words. -/
def isWordChar (c : Char) : Bool :=
  c.isAlphanum || c == '+' || c == '-' || c == '.' || c == ':' || c == '_'

/-- The characters of the digits of a number and their separators. -/
def isDigitOrMark (c : Char) : Bool := c.isDigit || c == '_'

/-! ## Integers -/

/-- The value of a digit in some base. -/
def digit? (base : Nat) (c : Char) : Option Nat :=
  (hexValue? c).bind fun d => if d < base then some d else none

/-- The number whose digits go on behind those of a value; the number may end there or not. -/
def digitsFrom? (base value : Nat) (mayEnd : Bool) : List Char → Option Nat
  | [] => if mayEnd then some value else none
  | c :: rest =>
    if c = '_' then if mayEnd then digitsFrom? base value false rest else none
    else
      match digit? base c with
      | none => none
      | some d => digitsFrom? base (value * base + d) true rest

/-- The number with the given digits and single underscores between them. -/
def digits? (base : Nat) (cs : List Char) : Option Nat := digitsFrom? base 0 false cs

/-- The same for a decimal number without zeros in front. -/
def natural? : List Char → Option Nat
  | ['0'] => some 0
  | '0' :: _ => none
  | cs => digits? 10 cs

/-- The sign, and what follows it. -/
def takeSign : List Char → Bool × List Char
  | '-' :: rest => (true, rest)
  | '+' :: rest => (false, rest)
  | rest => (false, rest)

/-- An integer of any size. -/
def unbounded? : List Char → Option Int
  | '0' :: 'x' :: ds => (digits? 16 ds).map Int.ofNat
  | '0' :: 'o' :: ds => (digits? 8 ds).map Int.ofNat
  | '0' :: 'b' :: ds => (digits? 2 ds).map Int.ofNat
  | cs =>
    let (isNegative, cs) := takeSign cs
    (natural? cs).map fun n => if isNegative then -(n : Int) else n

/-- An integer. -/
def integer? (cs : List Char) : Option Int :=
  (unbounded? cs).bind fun n =>
    if Int64.minValue.toInt ≤ n ∧ n ≤ Int64.maxValue.toInt then some n else none

/-! ## Floats -/

/-- The first value that is too large for a double: half a unit above the largest one. -/
def doubleBound : Nat := Nat.pow 2 1024 - Nat.pow 2 970

/-- The decimal number `digits * 10 ^ exponent` is too large for a double. -/
def isTooLarge (digits : Nat) (exponent : Int) : Bool :=
  if digits = 0 then false
  else if 400 < exponent then true
  else if 0 ≤ exponent then doubleBound ≤ digits * Nat.pow 10 exponent.toNat
  else
    -- a number below one needs no power of ten
    if Nat.log2 digits < exponent.natAbs then false
    else doubleBound * Nat.pow 10 exponent.natAbs ≤ digits

/-- The exponent, which is zero if there is none. -/
def exponent? : List Char → Option Int
  | [] => some 0
  | c :: rest =>
    if c = 'e' ∨ c = 'E' then
      let (isNegative, ds) := takeSign rest
      (digits? 10 ds).map fun n => if isNegative then -(n : Int) else n
    else none

/-- The fraction and what follows it; there is none if the point is missing. -/
def fraction? : List Char → Option (List Char × List Char)
  | '.' :: rest =>
    let ds := rest.takeWhile isDigitOrMark
    (digits? 10 ds).map fun _ => (ds, rest.dropWhile isDigitOrMark)
  | rest => some ([], rest)

/-- The word is a float in decimal. -/
def isDecimal (cs : List Char) : Bool :=
  let (isNegative, cs) := takeSign cs
  let whole := cs.takeWhile isDigitOrMark
  let behind := cs.dropWhile isDigitOrMark
  !behind.isEmpty &&
    match natural? whole, fraction? behind with
    | some w, some (fraction, rest) =>
      match exponent? rest with
      | none => false
      | some e =>
        let places := fraction.countP Char.isDigit
        let digits := w * Nat.pow 10 places + (digits? 10 fraction).getD 0
        isNegative || !isTooLarge digits (e - places)
    | _, _ => false

/-- The word is a float. -/
def isFloat (cs : List Char) : Bool :=
  let word := (takeSign cs).2
  word == "inf".toList || word == "nan".toList || isDecimal cs

/-! ## Dates -/

/-- The number with the given two digits, if it lies in a range. -/
def pair? (low high : Nat) (a b : Char) : Option Nat :=
  if a.isDigit ∧ b.isDigit then
    let n := (a.toNat - '0'.toNat) * 10 + (b.toNat - '0'.toNat)
    if low ≤ n ∧ n ≤ high then some n else none
  else none

/-- The number of days of a month. -/
def daysIn (year month : Nat) : Nat :=
  if month = 2 then
    if year % 4 = 0 ∧ (year % 100 ≠ 0 ∨ year % 400 = 0) then 29 else 28
  else if month = 4 ∨ month = 6 ∨ month = 9 ∨ month = 11 then 30
  else 31

/-- The characters are a year, a month and a day. -/
def isDay : List Char → Bool
  | [a, b, c, d, '-', e, f, '-', g, h] =>
    match pair? 0 99 a b, pair? 0 99 c d, pair? 1 12 e f, pair? 1 31 g h with
    | some century, some year, some month, some day => day ≤ daysIn (century * 100 + year) month
    | _, _, _, _ => false
  | _ => false

/-- What follows an hour, a minute and a second, with a fraction or not. A minute may have sixty-one
seconds. -/
def clock? : List Char → Option (List Char)
  | a :: b :: ':' :: c :: d :: ':' :: e :: f :: rest =>
    match pair? 0 23 a b, pair? 0 59 c d, pair? 0 60 e f with
    | some _, some _, some _ =>
      match rest with
      | '.' :: c :: more => if c.isDigit then some (more.dropWhile Char.isDigit) else none
      | rest => some rest
    | _, _, _ => none
  | _ => none

/-- The characters are a distance from universal time, or none. -/
def isOffset : List Char → Bool
  | [] | ['Z'] | ['z'] => true
  | [sign, a, b, ':', c, d] =>
    (sign == '+' || sign == '-') && (pair? 0 23 a b).isSome && (pair? 0 59 c d).isSome
  | _ => false

/-- The characters are a time with an offset or without. -/
def isClock (cs : List Char) : Bool :=
  match clock? cs with
  | some rest => isOffset rest
  | none => false

/-- The number of characters of a day. -/
def dayLength : Nat := 10

/-- The word is a date, perhaps with a time, or a time alone. -/
def isDate (cs : List Char) : Bool :=
  isDay cs || clock? cs == some [] ||
    (isDay (cs.take dayLength) &&
      match cs.drop dayLength with
      | c :: rest => (c == 'T' || c == 't' || c == ' ') && isClock rest
      | [] => false)

/-! ## Words -/

/-- What a word means. -/
def ofWord? (cs : List Char) : Option Value :=
  if cs = "true".toList then some (.bool true)
  else if cs = "false".toList then some (.bool false)
  else if isDate cs then some (.date (.ofList cs))
  else if isFloat cs then some (.float (.ofList cs))
  else (integer? cs).map .integer

/-- The word at the front, and what follows it. A day may have its time behind a space. -/
def takeWord (cs : List Char) : List Char × List Char :=
  let word := cs.takeWhile isWordChar
  let rest := cs.dropWhile isWordChar
  match rest with
  | ' ' :: more =>
    let time := more.takeWhile isWordChar
    if isDay word && isClock time then (word ++ ' ' :: time, more.dropWhile isWordChar)
    else (word, rest)
  | rest => (word, rest)

/-- The value of the word at the front, and what follows it. -/
def read? (cs : List Char) : Option (Value × List Char) :=
  let (word, rest) := takeWord cs
  (ofWord? word).map fun v => (v, rest)

end GraphQuery.Toml.Scalar
