/-!
# Quoted strings in JSON

`encode` writes the characters of a string between quotes: the quote and the
backslash are escaped, control characters below `U+0020` have a short escape
or the four digits of their code point, and everything else stands as it is.

`decode?` reads what follows an opening quote, up to the closing one.  It takes
every escape of the format; a surrogate has to be followed by its other half.
-/

namespace GraphQuery.Json.Quoted

/-- The mark at both ends of a string. -/
def quote : Char := '\x22'

/-- The mark in front of an escape. -/
def escape : Char := '\\'

/-- A digit in lower-case hexadecimal. -/
def hexDigit (n : Nat) : Char :=
  if n < 10 then Char.ofNat ('0'.toNat + n) else Char.ofNat ('a'.toNat + (n - 10))

/-- The letters of the short escapes with the characters that they stand for. -/
def shortEscapes : List (Char × Char) :=
  [('b', '\x08'), ('t', '\t'), ('n', '\n'), ('f', '\x0c'), ('r', '\r')]

/-- The letter of the short escape for a control character. -/
def shortLetter? (c : Char) : Option Char :=
  (shortEscapes.find? (·.2 == c)).map Prod.fst

/-- A character inside of quotes. -/
def encodeChar (c : Char) : List Char :=
  if c = quote ∨ c = escape then [escape, c]
  else if c.toNat < 0x20 then
    match shortLetter? c with
    | some letter => [escape, letter]
    | none => [escape, 'u', '0', '0', hexDigit (c.toNat / 16), hexDigit (c.toNat % 16)]
  else [c]

/-- A string with its quotes. -/
def encode (s : String) : String :=
  .ofList (quote :: s.toList.flatMap encodeChar ++ [quote])

/-- The value of a hexadecimal digit in either case. -/
def hexValue? (c : Char) : Option Nat :=
  if c.isDigit then some (c.toNat - '0'.toNat)
  else if 'a' ≤ c ∧ c ≤ 'f' then some (c.toNat - 'a'.toNat + 10)
  else if 'A' ≤ c ∧ c ≤ 'F' then some (c.toNat - 'A'.toNat + 10)
  else none

/-- The number with four hexadecimal digits. -/
def unit? (a b c d : Char) : Option Nat := do
  return (((← hexValue? a) * 16 + (← hexValue? b)) * 16 + (← hexValue? c)) * 16 + (← hexValue? d)

/-- The unit is the first half of a character beyond the sixteen-bit range. -/
def isHighSurrogate (n : Nat) : Bool := 0xd800 ≤ n && n ≤ 0xdbff

/-- The unit is the second half of a character beyond the sixteen-bit range. -/
def isLowSurrogate (n : Nat) : Bool := 0xdc00 ≤ n && n ≤ 0xdfff

/-- The character with the given halves. -/
def ofSurrogates (high low : Nat) : Char :=
  Char.ofNat (0x10000 + (high - 0xd800) * 0x400 + (low - 0xdc00))

/-- The character that a letter stands for behind the escape mark. -/
def unescape? (letter : Char) : Option Char :=
  if letter = quote ∨ letter = escape ∨ letter = '/' then some letter
  else (shortEscapes.find? (·.1 == letter)).map Prod.snd

/-- The characters up to the closing quote, and what follows it. -/
def decode? : List Char → Option (List Char × List Char)
  | [] => none
  | c :: rest =>
    if c = quote then some ([], rest)
    else if c.toNat < 0x20 then none
    else if c ≠ escape then (decode? rest).map fun r => (c :: r.1, r.2)
    else
      match rest with
      | [] => none
      | letter :: rest =>
        match unescape? letter with
        | some c => (decode? rest).map fun r => (c :: r.1, r.2)
        | none =>
          if letter ≠ 'u' then none
          else
            match rest with
            | a :: b :: c :: d :: rest =>
              match unit? a b c d with
              | none => none
              | some n =>
                if isLowSurrogate n then none
                else if !isHighSurrogate n then
                  (decode? rest).map fun r => (Char.ofNat n :: r.1, r.2)
                else
                  match rest with
                  | mark :: letter :: a :: b :: c :: d :: rest =>
                    match unit? a b c d with
                    | none => none
                    | some low =>
                      if mark = escape ∧ letter = 'u' ∧ isLowSurrogate low then
                        (decode? rest).map fun r => (ofSurrogates n low :: r.1, r.2)
                      else none
                  | _ => none
            | _ => none

end GraphQuery.Json.Quoted
