import GraphQuery.Json.Token
import GraphQuery.Proofs.References
import Mathlib

/-!
# The tokens of a written document

`Json.text` writes a document without blanks, and `Token.scan?` splits a text
into tokens.  `Json.Exact.scan?_text` says that the text of a document is split
into the tokens of the document, `Json.tokens`, and into nothing else, provided
that the document is `Exact`: its numbers are integers of 64 bits.

A text is scanned from the front, so what is shown of a part of a text is how
it is scanned with something behind it (`Scans`).  A number and a word end only
where nothing follows that may stand in one (`Ends`).  Brackets, commas and
colons never do, and these are all that ever follows a value.

* `Number.ofChars?_text`: the decimal text of an integer is read as that
  integer.
* `Quoted.decode?_flatMap_encodeChar`: what is written between quotes is read
  as the characters that were there, up to the closing quote.
* `Scans.intercalate` and `Scans.enclose` put the parts together.
-/

namespace GraphQuery

/-! ## Numbers -/

namespace Number

variable {n : Nat} {i : Int}

theorem ofDigits_toDigits : ofDigits (Nat.toDigits 10 n) = n := by
  have hcomm : ofDigits (Nat.toDigits 10 n) = Nat.ofDigitChars 10 (Nat.toDigits 10 n) 0 := by
    simp only [ofDigits, Nat.ofDigitChars, digit, Nat.mul_comm 10]
  rw [hcomm, Nat.ofDigitChars_ten_toDigits]

/-- Only the text of zero begins with a zero. -/
theorem eq_zero_of_head?_toDigits (h : (Nat.toDigits 10 n).head? = some '0') : n = 0 := by
  induction n using Nat.strongRecOn with
  | ind n ih =>
    by_cases hn : n < 10
    · rw [Nat.toDigits_of_lt_base hn] at h
      interval_cases n
      · rfl
      all_goals exact absurd h (by decide)
    · rw [Nat.toDigits_of_base_le (by decide) (Nat.le_of_not_lt hn), List.head?_append] at h
      obtain ⟨c, hc⟩ := Option.ne_none_iff_exists'.mp
        (mt List.head?_eq_none_iff.mp (Nat.toDigits_ne_nil (n := n / 10) (b := 10)))
      rw [hc, Option.some_or] at h
      have hzero := ih (n / 10) (by omega) (hc.trans h)
      omega

theorem takeWhole?_toDigits :
    takeWhole? (Nat.toDigits 10 n) = some (Nat.toDigits 10 n, []) := by
  have htake : (Nat.toDigits 10 n).takeWhile Char.isDigit = Nat.toDigits 10 n :=
    List.takeWhile_eq_self_iff.mpr isDigit_of_mem_toDigits
  have hdrop : (Nat.toDigits 10 n).dropWhile Char.isDigit = [] :=
    List.dropWhile_eq_nil_iff.mpr isDigit_of_mem_toDigits
  have hempty : (Nat.toDigits 10 n).isEmpty = false :=
    List.isEmpty_eq_false_iff.mpr Nat.toDigits_ne_nil
  have hdigits : takeDigits? (Nat.toDigits 10 n) = some (Nat.toDigits 10 n, []) := by
    rw [takeDigits?, htake, hdrop, hempty]
    rfl
  have halone : ¬((Nat.toDigits 10 n).head? = some '0' ∧ (Nat.toDigits 10 n).length ≠ 1) := by
    rintro ⟨hhead, hlength⟩
    obtain rfl := eq_zero_of_head?_toDigits hhead
    exact hlength rfl
  rw [takeWhole?, hdigits]
  exact if_neg halone

theorem lexeme_toDigits :
    Lexeme.ofChars? (Nat.toDigits 10 n) = some ⟨false, Nat.toDigits 10 n, [], false, []⟩ := by
  have hsign : takeSign (Nat.toDigits 10 n) = (false, Nat.toDigits 10 n) := by
    unfold takeSign
    split
    next rest h => exact absurd h (toDigits_ne_minus n rest)
    next => rfl
  rw [Lexeme.ofChars?, hsign]
  simp only [takeWhole?_toDigits]
  rfl

theorem lexeme_minus_toDigits :
    Lexeme.ofChars? ('-' :: Nat.toDigits 10 n) =
      some ⟨true, Nat.toDigits 10 n, [], false, []⟩ := by
  rw [Lexeme.ofChars?, takeSign]
  simp only [takeWhole?_toDigits]
  rfl

theorem ofChars?_toDigits (h : n ≤ maxUnsigned) :
    ofChars? (Nat.toDigits 10 n) = some (integer n) := by
  rw [ofChars?, lexeme_toDigits]
  show (if ofDigits (Nat.toDigits 10 n) ≤ maxUnsigned then _ else _) = _
  rw [ofDigits_toDigits, if_pos h]

theorem ofChars?_minus_toDigits (hpos : 0 < n) (h : n ≤ maxNegative) :
    ofChars? ('-' :: Nat.toDigits 10 n) = some (integer (-n)) := by
  rw [ofChars?, lexeme_minus_toDigits]
  show (if 0 < ofDigits (Nat.toDigits 10 n) ∧ ofDigits (Nat.toDigits 10 n) ≤ maxNegative
    then _ else _) = _
  rw [ofDigits_toDigits, if_pos ⟨hpos, h⟩]

/-- An integer of 64 bits is read from its decimal text. -/
theorem ofChars?_text (hlow : -2 ^ 63 ≤ i) (hhigh : i < 2 ^ 64) :
    ofChars? (integer i).text.toList = some (integer i) := by
  have hunsigned : maxUnsigned = 2 ^ 64 - 1 := rfl
  have hnegative : maxNegative = 2 ^ 63 := rfl
  rw [text]
  by_cases hi : 0 ≤ i
  · rw [toList_toString_of_nonneg hi, ofChars?_toDigits (by omega), Int.toNat_of_nonneg hi]
  · have hback : -((-i).toNat : Int) = i := by omega
    rw [toList_toString_of_neg hi, ofChars?_minus_toDigits (by omega) (by omega), hback]

end Number

namespace Json

/-! ## Strings -/

namespace Quoted

variable {c : Char} {cs rest : List Char}

theorem hexValue?_hexDigit {n : Nat} (h : n < 16) : hexValue? (hexDigit n) = some n := by
  interval_cases n <;> decide

/-- A control character is read from the four digits of its code point. -/
theorem unit?_hexDigit (h : c.toNat < 0x20) :
    unit? '0' '0' (hexDigit (c.toNat / 16)) (hexDigit (c.toNat % 16)) = some c.toNat := by
  have hzero : hexValue? '0' = some 0 := by decide
  rw [unit?, hzero, hexValue?_hexDigit (by omega), hexValue?_hexDigit (by omega)]
  simp only [Option.bind_eq_bind, Option.bind_some, Option.pure_def, Option.some.injEq]
  omega

/-- The letter of a short escape stands for the character that it was written for. -/
theorem unescape?_of_shortLetter? {letter : Char} (h : shortLetter? c = some letter) :
    unescape? letter = some c := by
  have hall : ∀ p ∈ shortEscapes, unescape? p.1 = some p.2 := by decide
  obtain ⟨p, hp, rfl⟩ := Option.map_eq_some_iff.mp h
  have hc : p.2 = c := by simpa using List.find?_some hp
  rw [hall p (List.mem_of_find?_eq_some hp), hc]

/-! Reading goes on behind a character, behind a short escape and behind the digits of a code
point. -/

theorem decode?_cons_of_ne (hquote : c ≠ quote) (hcontrol : ¬c.toNat < 0x20)
    (hescape : c ≠ escape) :
    decode? (c :: rest) = (decode? rest).map fun r => (c :: r.1, r.2) := by
  rw [decode?.eq_def]
  simp only [if_neg hquote, if_neg hcontrol, if_pos hescape]

theorem decode?_escape {letter : Char} (h : unescape? letter = some c) :
    decode? (escape :: letter :: rest) = (decode? rest).map fun r => (c :: r.1, r.2) := by
  have hquote : escape ≠ quote := by decide
  have hcontrol : ¬escape.toNat < 0x20 := by decide
  rw [decode?.eq_def]
  simp only [if_neg hquote, if_neg hcontrol, ne_eq, not_true_eq_false, if_false, h]

theorem decode?_unit {n : Nat} {a b c d : Char} (rest : List Char) (h : unit? a b c d = some n)
    (hlow : isLowSurrogate n = false) (hhigh : isHighSurrogate n = false) :
    decode? (escape :: 'u' :: a :: b :: c :: d :: rest) =
      (decode? rest).map fun r => (Char.ofNat n :: r.1, r.2) := by
  have hquote : escape ≠ quote := by decide
  have hcontrol : ¬escape.toNat < 0x20 := by decide
  have hletter : unescape? 'u' = none := by decide
  rw [decode?.eq_def]
  simp [hquote, hcontrol, hletter, h, hlow, hhigh]

/-- Reading goes on behind a character that was written. -/
theorem decode?_encodeChar :
    decode? (encodeChar c ++ rest) = (decode? rest).map fun r => (c :: r.1, r.2) := by
  by_cases hmark : c = quote ∨ c = escape
  · rw [encodeChar, if_pos hmark]
    exact decode?_escape (if_pos (hmark.imp_right Or.inl))
  · rw [encodeChar, if_neg hmark]
    obtain ⟨hquote, hescape⟩ := not_or.mp hmark
    by_cases hcontrol : c.toNat < 0x20
    · rw [if_pos hcontrol]
      cases hletter : shortLetter? c with
      | some letter => exact decode?_escape (unescape?_of_shortLetter? hletter)
      | none =>
        have hlow : isLowSurrogate c.toNat = false := by
          simp only [isLowSurrogate, Bool.and_eq_false_iff, decide_eq_false_iff_not]
          omega
        have hhigh : isHighSurrogate c.toNat = false := by
          simp only [isHighSurrogate, Bool.and_eq_false_iff, decide_eq_false_iff_not]
          omega
        have hunit := decode?_unit rest (unit?_hexDigit hcontrol) hlow hhigh
        rwa [Char.ofNat_toNat] at hunit
    · rw [if_neg hcontrol]
      exact decode?_cons_of_ne hquote hcontrol hescape

/-- What was written between quotes is read up to the closing one. -/
theorem decode?_flatMap_encodeChar :
    decode? (cs.flatMap encodeChar ++ quote :: rest) = some (cs, rest) := by
  induction cs with
  | nil =>
    rw [List.flatMap_nil, List.nil_append, decode?.eq_def]
    exact if_pos rfl
  | cons c cs ih =>
    rw [List.flatMap_cons, List.append_assoc, decode?_encodeChar, ih, Option.map_some]

end Quoted

/-! ## Documents and their tokens -/

/-- Numbers are integers of 64 bits, keys are sorted without repetition, and at most so many arrays
and objects are open at once. -/
inductive Exact : Nat → Json → Prop where
  | null {levels : Nat} : Exact levels null
  | bool {levels : Nat} {b : Bool} : Exact levels (bool b)
  | number {levels : Nat} {n : Int} (hlow : -2 ^ 63 ≤ n) (hhigh : n < 2 ^ 64) :
    Exact levels (number (.integer n))
  | string {levels : Nat} {s : String} : Exact levels (string s)
  | array {levels : Nat} {items : List Json} (hitems : ∀ item ∈ items, Exact levels item) :
    Exact (levels + 1) (array items)
  | object {levels : Nat} {members : List (String × Json)}
    (hsorted : members.Pairwise fun m m' => m.1 < m'.1)
    (hvalues : ∀ m ∈ members, Exact levels m.2) :
    Exact (levels + 1) (object members)

/-- The tokens that a document is written with. -/
def tokens : Json → List Token
  | null => [.atom null]
  | bool b => [.atom (bool b)]
  | number n => [.atom (number n)]
  | string s => [.string s]
  | array items => .openArray :: ([.comma].intercalate (itemTokens items) ++ [.closeArray])
  | object members =>
    .openObject :: ([.comma].intercalate (memberTokens members) ++ [.closeObject])
where
  /-- The tokens of each item. -/
  itemTokens : List Json → List (List Token)
    | [] => []
    | item :: items => item.tokens :: itemTokens items
  /-- The tokens of each member. -/
  memberTokens : List (String × Json) → List (List Token)
    | [] => []
    | (key, value) :: members => (.string key :: .colon :: value.tokens) :: memberTokens members

variable {items : List Json} {members : List (String × Json)}

theorem itemTokens_eq_map : tokens.itemTokens items = items.map tokens := by
  induction items with
  | nil => rfl
  | cons item items ih => rw [tokens.itemTokens, ih, List.map_cons]

theorem memberTokens_eq_map : tokens.memberTokens members =
    members.map fun m => .string m.1 :: .colon :: m.2.tokens := by
  induction members with
  | nil => rfl
  | cons m members ih => rw [tokens.memberTokens, ih, List.map_cons]

theorem toList_text_array : (array items).text.toList =
    '[' :: ([','].intercalate (items.map fun item => item.text.toList) ++ [']']) := by
  rw [text, itemTexts_eq_map, String.toList_append, String.toList_append,
    String.toList_intercalate, List.map_map]
  rfl

theorem toList_text_object : (object members).text.toList =
    '\x7b' :: ([','].intercalate (members.map fun m =>
      (Quoted.encode m.1).toList ++ ':' :: m.2.text.toList) ++ ['\x7d']) := by
  have hmembers : (text.memberTexts members).map String.toList =
      members.map fun m => (Quoted.encode m.1).toList ++ ':' :: m.2.text.toList := by
    rw [memberTexts_eq_map, List.map_map]
    refine List.map_congr_left fun m _ => ?_
    rw [Function.comp_apply, String.toList_append, String.toList_append, List.append_assoc]
    rfl
  rw [text, String.toList_append, String.toList_append, String.toList_intercalate, hmembers]
  rfl

namespace Token

variable {c : Char} {cs cs' rest : List Char} {t u : Token} {ts ts' us : List Token}

/-! ## Scanning from the front -/

/-- More fuel changes nothing. -/
theorem go_mono {n m : Nat} (h : scan?.go n cs = some ts) (hle : n ≤ m) :
    scan?.go m cs = some ts := by
  induction n generalizing m cs ts with
  | zero =>
    cases cs with
    | nil =>
      rw [scan?.go] at h
      rwa [scan?.go]
    | cons c cs => cases h
  | succ n ih =>
    obtain ⟨m, rfl⟩ : ∃ k, m = k + 1 := ⟨m - 1, by omega⟩
    have hle : n ≤ m := Nat.le_of_succ_le_succ hle
    cases cs with
    | nil =>
      rw [scan?.go] at h
      rwa [scan?.go]
    | cons c cs =>
      rw [scan?.go] at h ⊢
      by_cases hblank : isBlank c = true
      · rw [if_pos hblank] at h ⊢
        exact ih h hle
      · rw [if_neg hblank] at h ⊢
        obtain ⟨⟨t, rest⟩, hnext, h⟩ := Option.bind_eq_some_iff.mp h
        obtain ⟨us, hus, h⟩ := Option.bind_eq_some_iff.mp h
        rw [hnext]
        exact Option.bind_eq_some_iff.mpr ⟨_, rfl, Option.bind_eq_some_iff.mpr ⟨us, ih hus hle, h⟩⟩

/-- A text is scanned token by token. -/
theorem scan?_cons (hblank : isBlank c = false) (hnext : next? c cs = some (t, rest))
    (hlength : rest.length ≤ cs.length) (h : scan? rest = some us) :
    scan? (c :: cs) = some (t :: us) := by
  rw [scan?, List.length_cons, scan?.go, if_neg (Bool.eq_false_iff.mp hblank), hnext]
  exact Option.bind_eq_some_iff.mpr ⟨_, rfl, Option.bind_eq_some_iff.mpr
    ⟨us, go_mono h hlength, rfl⟩⟩

/-- No number and no word goes on here. -/
def Ends (cs : List Char) : Prop := ∀ c ∈ cs.head?, isNumberChar c = false ∧ c.isAlpha = false

/-- Wherever the text ends, it is split into the tokens. -/
def Scans (cs : List Char) (ts : List Token) : Prop :=
  ∀ rest us, Ends rest → scan? rest = some us → scan? (cs ++ rest) = some (ts ++ us)

theorem ends_nil : Ends [] := fun c h => absurd h (by simp)

theorem takeWhile_of_head {p : Char → Bool} (hcs : ∀ c ∈ cs, p c = true)
    (hrest : ∀ c ∈ rest.head?, p c = false) :
    (cs ++ rest).takeWhile p = cs ∧ (cs ++ rest).dropWhile p = rest := by
  rw [List.takeWhile_append_of_pos hcs, List.dropWhile_append_of_pos hcs]
  cases rest with
  | nil => simp
  | cons d rest => simp [hrest d rfl]

/-! ## Tokens of one character -/

theorem mem_of_punctuation? (h : punctuation? c = some t) :
    c ∈ ['[', ']', '\x7b', '\x7d', ',', ':'] := by
  unfold punctuation? at h
  split_ifs at h
  all_goals simp [*]

/-- A bracket, a comma or a colon is no blank and stands in no number or word. -/
theorem mark_of_punctuation? (h : punctuation? c = some t) :
    isBlank c = false ∧ isNumberChar c = false ∧ c.isAlpha = false := by
  have hall : ∀ c ∈ ['[', ']', '\x7b', '\x7d', ',', ':'],
      isBlank c = false ∧ isNumberChar c = false ∧ c.isAlpha = false := by
    simp [isBlank, isNumberChar]
  exact hall c (mem_of_punctuation? h)

theorem ends_cons (h : punctuation? c = some t) : Ends (c :: rest) := by
  intro d hd
  obtain rfl := Option.mem_some.mp hd
  exact (mark_of_punctuation? h).2

theorem scan?_punctuation (h : punctuation? c = some t) (hrest : scan? rest = some us) :
    scan? (c :: rest) = some (t :: us) := by
  have hnext : next? c rest = some (t, rest) := by
    simp only [next?, h]
  exact scan?_cons (mark_of_punctuation? h).1 hnext (Nat.le_refl _) hrest

/-- What begins a number or a word is neither a blank nor a mark. -/
theorem begins (h : isNumberChar c = true ∨ c.isAlpha = true) :
    isBlank c = false ∧ punctuation? c = none ∧ c ≠ Quoted.quote := by
  have hblank : ∀ c ∈ [' ', '\t', '\n', '\r', Quoted.quote],
      isNumberChar c = false ∧ c.isAlpha = false := by
    simp [isNumberChar, Quoted.quote]
  have hne : c ∉ [' ', '\t', '\n', '\r', Quoted.quote] := by
    intro hmem
    obtain ⟨hnumber, halpha⟩ := hblank c hmem
    rcases h with h | h
    · exact absurd h (Bool.eq_false_iff.mp hnumber)
    · exact absurd h (Bool.eq_false_iff.mp halpha)
  refine ⟨?_, ?_, fun hquote => hne (by simp [hquote])⟩
  · simp_all [isBlank]
  · cases hmark : punctuation? c with
    | none => rfl
    | some t =>
      obtain ⟨-, hnumber, halpha⟩ := mark_of_punctuation? hmark
      rw [hnumber, halpha] at h
      simp at h

namespace Scans

theorem nil : Scans [] [] := fun _ _ _ h => h

/-- What is begun by a bracket, a comma or a colon ends what stands in front of it. -/
theorem append (h : Scans cs ts) (hc : punctuation? c = some t) (h' : Scans cs' ts') :
    Scans (cs ++ c :: cs') (ts ++ t :: ts') := by
  intro rest us hrest hus
  rw [List.append_assoc, List.append_assoc]
  exact h _ _ (ends_cons hc) (scan?_punctuation hc (h' rest us hrest hus))

/-- Parts with commas between them are scanned part by part. -/
theorem intercalate {css : List (List Char)} {tss : List (List Token)}
    (h : List.Forall₂ Scans css tss) :
    Scans ([','].intercalate css) ([comma].intercalate tss) := by
  induction h with
  | nil => exact nil
  | @cons cs ts css tss hfirst hrest ih =>
    cases hrest with
    | nil =>
      rw [List.intercalate_singleton, List.intercalate_singleton]
      exact hfirst
    | cons hsecond hrest =>
      rw [List.intercalate_cons_cons, List.intercalate_cons_cons, List.append_assoc,
        List.append_assoc]
      exact hfirst.append rfl ih

/-- A text between brackets is scanned with them. -/
theorem enclose {d : Char} (hc : punctuation? c = some t) (hd : punctuation? d = some u)
    (h : Scans cs ts) : Scans (c :: (cs ++ [d])) (t :: (ts ++ [u])) :=
  nil.append hc (h.append hd nil)

/-! ## Strings, numbers and words -/

theorem string (s : String) : Scans (Quoted.encode s).toList [.string s] := by
  intro rest us _ hus
  have hnext : next? Quoted.quote (s.toList.flatMap Quoted.encodeChar ++ Quoted.quote :: rest) =
      some (.string s, rest) := by
    have hmark : punctuation? Quoted.quote = none := by decide
    simp only [next?, hmark, if_true, Quoted.decode?_flatMap_encodeChar, Option.map_some,
      String.ofList_toList]
  have hlength : rest.length ≤
      (s.toList.flatMap Quoted.encodeChar ++ Quoted.quote :: rest).length := by
    rw [List.length_append, List.length_cons]
    omega
  rw [Quoted.encode, String.toList_ofList, List.cons_append, List.cons_append, List.append_assoc]
  exact scan?_cons (by decide) hnext hlength hus

/-- A number is scanned as a whole. -/
theorem number {n : Number} (hc : c.isDigit = true ∨ c = '-')
    (hcs : ∀ d ∈ cs, isNumberChar d = true) (h : Number.ofChars? (c :: cs) = some n) :
    Scans (c :: cs) [.atom (.number n)] := by
  intro rest us hrest hus
  have hnumber : isNumberChar c = true := by
    rcases hc with hc | rfl
    · simp [isNumberChar, hc]
    · rfl
  obtain ⟨hblank, hmark, hquote⟩ := begins (Or.inl hnumber)
  obtain ⟨htake, hdrop⟩ := takeWhile_of_head hcs fun d hd => (hrest d hd).1
  have hnext : next? c (cs ++ rest) = some (.atom (.number n), rest) := by
    simp only [next?, hmark, if_neg hquote, if_pos hc, htake, hdrop, h, Option.map_some]
  exact scan?_cons hblank hnext (by simp) hus

/-- A word is scanned as a whole. -/
theorem word {v : Json} (hc : c.isAlpha = true) (hnumber : ¬(c.isDigit = true ∨ c = '-'))
    (hcs : cs.all Char.isAlpha = true) (h : word? (c :: cs) = some v) :
    Scans (c :: cs) [.atom v] := by
  intro rest us hrest hus
  obtain ⟨hblank, hmark, hquote⟩ := begins (Or.inr hc)
  obtain ⟨htake, hdrop⟩ :=
    takeWhile_of_head (List.all_eq_true.mp hcs) fun d hd => (hrest d hd).2
  have hnext : next? c (cs ++ rest) = some (.atom v, rest) := by
    simp only [next?, hmark, if_neg hquote, if_neg hnumber, htake, hdrop, h, Option.map_some]
  exact scan?_cons hblank hnext (by simp) hus

theorem integer {i : Int} (hlow : -2 ^ 63 ≤ i) (hhigh : i < 2 ^ 64) :
    Scans (Number.integer i).text.toList [.atom (.number (.integer i))] := by
  have hread := Number.ofChars?_text hlow hhigh
  have hdigits : ∀ n : Nat, ∀ d ∈ Nat.toDigits 10 n, isNumberChar d = true := by
    intro n d hd
    simp [isNumberChar, isDigit_of_mem_toDigits d hd]
  rw [Number.text] at hread ⊢
  by_cases hi : 0 ≤ i
  · rw [toList_toString_of_nonneg hi] at hread ⊢
    obtain ⟨c, cs, hcs⟩ :=
      List.exists_cons_of_ne_nil (Nat.toDigits_ne_nil (n := i.toNat) (b := 10))
    have hall := hdigits i.toNat
    have hc : c.isDigit = true := isDigit_of_mem_toDigits c (hcs ▸ List.mem_cons_self)
    rw [hcs] at hread hall ⊢
    exact number (Or.inl hc) (fun d hd => hall d (List.mem_cons_of_mem c hd)) hread
  · rw [toList_toString_of_neg hi] at hread ⊢
    exact number (Or.inr rfl) (hdigits _) hread

end Scans

end Token

/-! ## Documents -/

/-- The text of a document is split into its tokens. -/
theorem Exact.scans {levels : Nat} {j : Json} (h : j.Exact levels) :
    Token.Scans j.text.toList j.tokens := by
  induction h with
  | null => exact .word (by decide) (by decide) rfl rfl
  | @bool levels b =>
    cases b with
    | false => exact .word (by decide) (by decide) rfl rfl
    | true => exact .word (by decide) (by decide) rfl rfl
  | number hlow hhigh => exact .integer hlow hhigh
  | @string levels s => exact .string s
  | @array levels items hitems ih =>
    rw [toList_text_array, tokens, itemTokens_eq_map]
    refine .enclose rfl rfl (.intercalate ?_)
    rw [List.forall₂_map_left_iff, List.forall₂_map_right_iff, List.forall₂_same]
    exact ih
  | @object levels members hsorted hvalues ih =>
    rw [toList_text_object, tokens, memberTokens_eq_map]
    refine .enclose rfl rfl (.intercalate ?_)
    rw [List.forall₂_map_left_iff, List.forall₂_map_right_iff, List.forall₂_same]
    exact fun m hm => (Token.Scans.string m.1).append rfl (ih m hm)

/-- The text of a document is split into its tokens and nothing else. -/
theorem Exact.scan?_text {levels : Nat} {j : Json} (h : j.Exact levels) :
    Token.scan? j.text.toList = some j.tokens := by
  have hscan := h.scans [] [] Token.ends_nil rfl
  rwa [List.append_nil, List.append_nil] at hscan

end Json

end GraphQuery
