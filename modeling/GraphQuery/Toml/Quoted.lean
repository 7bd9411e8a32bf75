import GraphQuery.Json.Quoted

/-!
# Strings in TOML

A string has one of four forms.  It is basic or literal: a basic string has
escapes, a literal one stands as it is.  And it is on one line, between single
quotes, or it may have line breaks, between triple ones.

`encode` picks the first form of `Form.choose` in which the text needs no
escapes, or a basic one if there is none.  `decode?` reads what follows the
opening quotes.  Up to two quotes may stand in front of the closing three.

Line breaks are single characters here; a reader of documents sees to that.
-/

namespace GraphQuery.Toml.Quoted

open Json.Quoted (hexValue?)

/-- The form of a string. -/
inductive Form where
  | basic
  | literal
  | basicLines
  | literalLines
  deriving DecidableEq

namespace Form

/-- The quote of a form. -/
def quote : Form → Char
  | basic | basicLines => '\x22'
  | literal | literalLines => '\x27'

/-- The form has escapes. -/
def hasEscapes : Form → Bool
  | basic | basicLines => true
  | literal | literalLines => false

/-- A string of the form may have line breaks. -/
def hasLines : Form → Bool
  | basicLines | literalLines => true
  | basic | literal => false

/-- The quotes at either end of a string. -/
def quotes (f : Form) : List Char :=
  List.replicate (if f.hasLines then 3 else 1) f.quote

end Form

/-- The mark in front of an escape. -/
def mark : Char := '\\'

/-- The character may stand between tokens of one line. -/
def isBlank (c : Char) : Bool := c == ' ' || c == '\t'

/-- The character may stand in a string or a comment without an escape. -/
def isText (c : Char) : Bool := c == '\t' || (0x20 ≤ c.toNat && c.toNat != 0x7f)

/-- The letters of the short escapes with the characters that they stand for. -/
def shortEscapes : List (Char × Char) :=
  [('b', '\x08'), ('t', '\t'), ('n', '\n'), ('f', '\x0c'), ('r', '\r'), ('\x22', '\x22'),
    ('\\', '\\')]

/-! ## Writing -/

/-- The length of the longest run of a character. -/
def longestRun (c : Char) (cs : List Char) : Nat :=
  go 0 0 cs
where
  /-- The longest run, when one of the given length has just been seen. -/
  go (longest run : Nat) : List Char → Nat
    | [] => longest
    | d :: rest => if d = c then go (max longest (run + 1)) (run + 1) rest else go longest 0 rest

/-- The longest run of quotes that is kept count of. -/
def maxRun : Nat := 255

/-- The quotes in a text can be counted, so that there is a form for it. -/
def isWritable (s : String) : Bool :=
  longestRun Form.basic.quote s.toList ≤ maxRun && longestRun Form.literal.quote s.toList ≤ maxRun

/-- The character is always written as an escape. -/
def isCode (c : Char) : Bool := !isText c && c != '\n'

/-- The form in which a text is written. -/
def Form.choose (cs : List Char) : Form :=
  let hasCodes := cs.any isCode
  let hasMarks := cs.contains mark
  let hasLines := cs.contains '\n'
  let double := longestRun basic.quote cs
  let single := longestRun literal.quote cs
  if !hasCodes && !hasMarks && double == 0 && !hasLines then basic
  else if !hasCodes && single == 0 && !hasLines then literal
  else if !hasCodes && !hasMarks && double ≤ 2 then basicLines
  else if !hasCodes && single ≤ 2 then literalLines
  else if hasLines then basicLines
  else basic

/-- A digit in upper-case hexadecimal. -/
def hexDigit (n : Nat) : Char :=
  if n < 10 then Char.ofNat ('0'.toNat + n) else Char.ofNat ('A'.toNat + (n - 10))

/-- The escape of a character. -/
def escape (c : Char) : List Char :=
  match shortEscapes.find? (·.2 == c) with
  | some e => [mark, e.1]
  | none =>
    let n := c.toNat
    [mark, 'u', hexDigit (n / 0x1000), hexDigit (n / 0x100 % 0x10), hexDigit (n / 0x10 % 0x10),
      hexDigit (n % 0x10)]

/-- How many quotes may stand next to each other without an escape. -/
def Form.allowedRun (f : Form) : Nat := if f.hasLines then 2 else 0

/-- The characters of a basic string, behind so many quotes. -/
def encodeBasic (f : Form) (run : Nat) : List Char → List Char
  | [] => []
  | c :: rest =>
    if c = f.quote then
      if run < f.allowedRun then c :: encodeBasic f (run + 1) rest
      else escape c ++ encodeBasic f 0 rest
    else if c = '\n' ∧ f.hasLines then c :: encodeBasic f 0 rest
    else if c = mark ∨ c = '\t' ∨ !isText c then escape c ++ encodeBasic f 0 rest
    else c :: encodeBasic f 0 rest

/-- The characters between the quotes of a form. A line break in front of them is not one of
theirs. -/
def encodeBody (f : Form) (cs : List Char) : List Char :=
  (if f.hasLines && cs.contains '\n' then ['\n'] else [])
    ++ if f.hasEscapes then encodeBasic f 0 cs else cs

/-- A text with its quotes. -/
def encode (s : String) : String :=
  let f := Form.choose s.toList
  .ofList (f.quotes ++ encodeBody f s.toList ++ f.quotes)

/-! ## Reading -/

/-- What was read last. -/
inductive Progress where
  /-- A character of the text, or nothing. -/
  | text
  /-- The mark of an escape. -/
  | mark
  /-- The mark and blanks behind it, which have to end with the line. -/
  | lineEnd
  /-- The mark, the end of its line, and blanks and line breaks, which are no part of the text. -/
  | skip
  /-- Digits of a code point, of which so many are left. -/
  | digits (left value : Nat)

/-- The progress that a character continues: what is no gap ends the gaps behind a mark. -/
def Progress.resume (p : Progress) (c : Char) : Progress :=
  match p with
  | skip => if isBlank c ∨ c = '\n' then skip else text
  | p => p

/-- The quotes of the text in front of the last three, and what follows those, when three quotes
have been seen. -/
def overhang (q : Char) : List Char → List Char × List Char
  | c :: d :: rest =>
    if c = q then if d = q then ([q, q], rest) else ([q], d :: rest) else ([], c :: d :: rest)
  | [c] => if c = q then ([q], []) else ([], [c])
  | [] => ([], [])

/-- The end of a string at a character, if it is there: quotes of the text, and what follows the
closing quotes. -/
def closing? (f : Form) (c : Char) (rest : List Char) : Option (List Char × List Char) :=
  if c ≠ f.quote then none
  else if !f.hasLines then some ([], rest)
  else
    match rest with
    | d :: e :: rest => if d = f.quote ∧ e = f.quote then some (overhang f.quote rest) else none
    | _ => none

/-- The character with the given code point. -/
def char? (n : Nat) : Option Char :=
  if n.isValidChar then some (.ofNat n) else none

/-- The character put in front of what was read. -/
def push (c : Char) (r : Option (List Char × List Char)) : Option (List Char × List Char) :=
  r.map fun r => (c :: r.1, r.2)

/-- The characters of a text up to the closing quotes, and what follows those. -/
def decode? (f : Form) : Progress → List Char → Option (List Char × List Char)
  | _, [] => none
  | p, c :: rest =>
    match p.resume c with
    | .text =>
      match closing? f c rest with
      | some r => some r
      | none =>
        if c = mark ∧ f.hasEscapes then decode? f .mark rest
        else if isText c ∨ (f.hasLines ∧ c = '\n') then push c (decode? f .text rest)
        else none
    | .mark =>
      match shortEscapes.lookup c with
      | some d => push d (decode? f .text rest)
      | none =>
        if c = 'u' then decode? f (.digits 4 0) rest
        else if c = 'U' then decode? f (.digits 8 0) rest
        else if f.hasLines ∧ c = '\n' then decode? f .skip rest
        else if f.hasLines ∧ isBlank c then decode? f .lineEnd rest
        else none
    | .lineEnd =>
      if isBlank c then decode? f .lineEnd rest
      else if c = '\n' then decode? f .skip rest
      else none
    | .skip => decode? f .skip rest
    | .digits left value =>
      match hexValue? c with
      | none => none
      | some d =>
        if left ≤ 1 then
          match char? (value * 16 + d) with
          | none => none
          | some e => push e (decode? f .text rest)
        else decode? f (.digits (left - 1) (value * 16 + d)) rest

/-- Take off the opening quotes of a string. Of triple quotes, a line break behind them goes too. -/
def open? : List Char → Option (Form × List Char)
  | '\x22' :: '\x22' :: '\x22' :: rest => some (.basicLines, dropBreak rest)
  | '\x27' :: '\x27' :: '\x27' :: rest => some (.literalLines, dropBreak rest)
  | '\x22' :: rest => some (.basic, rest)
  | '\x27' :: rest => some (.literal, rest)
  | _ => none
where
  /-- The characters without a line break in front. -/
  dropBreak : List Char → List Char
    | '\n' :: rest => rest
    | rest => rest

/-- The text that a string stands for, and what follows the string. -/
def read? (cs : List Char) : Option (String × List Char) := do
  let (f, cs) ← open? cs
  let (text, rest) ← decode? f .text cs
  return (.ofList text, rest)

/-- The text that a string of one line stands for, and what follows the string. -/
def readLine? : List Char → Option (String × List Char)
  | '\x22' :: rest => (decode? .basic .text rest).map fun r => (.ofList r.1, r.2)
  | '\x27' :: rest => (decode? .literal .text rest).map fun r => (.ofList r.1, r.2)
  | _ => none

end GraphQuery.Toml.Quoted
