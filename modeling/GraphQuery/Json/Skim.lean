import GraphQuery.Json.Reader

/-!
# Skimming JSON

A value may be passed over without being read.  Brackets, commas, strings and
numbers still have to stand where they may, but what they stand for is not
looked at: strings may hold any bytes and any surrogates, numbers may be out of
range, and there is no limit to the nesting.

`Skim.members?` takes the text of an object apart into the bytes of its keys
and values.  What of those is wanted can then be read.
-/

namespace GraphQuery.Json.Skim

/-- A text that is not known to be well formed. -/
abbrev Bytes := List UInt8

/-- The character of a byte. A byte above 127 becomes one that means nothing between strings. -/
def mark (b : UInt8) : Char := .ofNat b.toNat

/-- The bytes without blanks in front. -/
def skipBlanks (bytes : Bytes) : Bytes := bytes.dropWhile fun b => Token.isBlank (mark b)

/-- What follows the given character behind blanks. -/
def skipMark? (c : Char) (bytes : Bytes) : Option Bytes :=
  match skipBlanks bytes with
  | b :: rest => if mark b = c then some rest else none
  | [] => none

/-- What follows the closing quote of a string whose opening quote was taken off. -/
def skipString? : Bytes → Option Bytes
  | [] => none
  | b :: rest =>
    if mark b = Quoted.quote then some rest
    else if b.toNat < 0x20 then none
    else if mark b ≠ Quoted.escape then skipString? rest
    else
      match rest with
      | [] => none
      | letter :: rest =>
        if (Quoted.unescape? (mark letter)).isSome then skipString? rest
        else if mark letter ≠ 'u' then none
        else
          match rest with
          | a :: b :: c :: d :: rest =>
            if (Quoted.unit? (mark a) (mark b) (mark c) (mark d)).isSome then skipString? rest
            else none
          | _ => none

/-- The token that begins with the byte, and what follows it. Strings are empty, and null stands for
all numbers. -/
def next? (b : UInt8) (rest : Bytes) : Option (Token × Bytes) :=
  match Token.punctuation? (mark b) with
  | some t => some (t, rest)
  | none =>
    if mark b = Quoted.quote then (skipString? rest).map (.string "", ·)
    else if (mark b).isDigit ∨ mark b = '-' then
      let isInside (b : UInt8) : Bool := Token.isNumberChar (mark b)
      (Number.Lexeme.ofChars? (mark b :: (rest.takeWhile isInside).map mark)).map fun _ =>
        (.atom null, rest.dropWhile isInside)
    else
      let isInside (b : UInt8) : Bool := (mark b).isAlpha
      (Token.word? (mark b :: (rest.takeWhile isInside).map mark)).map fun v =>
        (.atom v, rest.dropWhile isInside)

/-- What follows a value. Each token takes at least one byte, so the length of the text bounds their
number. -/
def skipValue? (bytes : Bytes) : Option Bytes :=
  go bytes.length (Reader.start none) bytes
where
  /-- What follows the value that has been begun, of at most `fuel` bytes. -/
  go : Nat → Reader → Bytes → Option Bytes
    | 0, r, bytes => r.finish?.map fun _ => bytes
    | fuel + 1, r, bytes =>
      match r.finish?, bytes with
      | some _, bytes => some bytes
      | none, [] => none
      | none, b :: rest =>
        if Token.isBlank (mark b) then go fuel r rest
        else do
          let (t, rest) ← next? b rest
          go fuel (← r.step? t) rest

/-- The bytes in front of the rest. -/
def upTo (rest bytes : Bytes) : Bytes := bytes.take (bytes.length - rest.length)

/-- A member of an object, as the bytes of its key and of its value. -/
structure Member where
  key : Bytes
  value : Bytes

/-- The member in front, and what follows it. -/
def member? (bytes : Bytes) : Option (Member × Bytes) := do
  let key := skipBlanks bytes
  let afterKey ← skipMark? Quoted.quote key >>= skipString?
  let value ← skipMark? ':' afterKey
  let rest ← skipValue? value
  return (⟨upTo afterKey key, upTo rest value⟩, rest)

/-- The members of an object, if the text is one. -/
def members? (bytes : Bytes) : Option (List Member) := do
  let inside ← skipMark? '\x7b' bytes
  match skipMark? '\x7d' inside with
  | some rest => finish [] rest
  | none => go bytes.length [] inside
where
  /-- The members, in reverse order, of an object behind which the text ends. -/
  finish (members : List Member) (rest : Bytes) : Option (List Member) :=
    if (skipBlanks rest).isEmpty then some members.reverse else none
  /-- The members behind some others, of which there are at most `fuel`. -/
  go : Nat → List Member → Bytes → Option (List Member)
    | 0, _, _ => none
    | fuel + 1, before, bytes => do
      let (m, rest) ← member? bytes
      match skipMark? ',' rest with
      | some rest => go fuel (m :: before) rest
      | none => finish (m :: before) (← skipMark? '\x7d' rest)

end GraphQuery.Json.Skim
