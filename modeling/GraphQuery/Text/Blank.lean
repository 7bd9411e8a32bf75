/-!
# Blank and control characters

The two Unicode classes that a predicate name must avoid.

* `isBlank` is the property `White_Space`: six ASCII characters and the
  separators of the general categories `Zs`, `Zl` and `Zp`.
* `isControl` is the general category `Cc`: the two blocks of 32 control
  codes and `DEL`.

Both are tables of code point ranges.  `isBlank_of_isWhitespace` says that
the table contains the class of the core library, which knows ASCII only.
-/

namespace GraphQuery.Text

/-- The code point ranges of the Unicode property `White_Space`. -/
def blankRanges : List (Nat × Nat) :=
  [(0x09, 0x0d), (0x20, 0x20), (0x85, 0x85), (0xa0, 0xa0), (0x1680, 0x1680),
    (0x2000, 0x200a), (0x2028, 0x2029), (0x202f, 0x202f), (0x205f, 0x205f),
    (0x3000, 0x3000)]

/-- The code point ranges of the Unicode general category `Cc`. -/
def controlRanges : List (Nat × Nat) :=
  [(0x00, 0x1f), (0x7f, 0x9f)]

/-- A character belongs to a table when one of its ranges holds the code point. -/
def inRanges (ranges : List (Nat × Nat)) (c : Char) : Bool :=
  ranges.any fun r => r.1 ≤ c.toNat && c.toNat ≤ r.2

/-- The character has the Unicode property `White_Space`. -/
def isBlank (c : Char) : Bool :=
  inRanges blankRanges c

/-- The character has the Unicode general category `Cc`. -/
def isControl (c : Char) : Bool :=
  inRanges controlRanges c

/-- Every character of the text is blank; the empty text counts. -/
def allBlank (s : String) : Bool :=
  s.toList.all isBlank

/-- Every ASCII blank of the core library is blank here. -/
theorem isBlank_of_isWhitespace {c : Char} (h : c.isWhitespace = true) : isBlank c = true := by
  simp only [Char.isWhitespace, Bool.or_eq_true, decide_eq_true_eq] at h
  rcases h with ((rfl | rfl) | rfl) | rfl <;> decide

end GraphQuery.Text
