import GraphQuery.Error

/-!
# Cancellation tokens

A token carries a flag and possibly a deadline.  A copy of a token carries the
same flag and the same deadline, so raising the flag reaches all copies, in
both directions; a deadline reaches the copies alone, because it never
changes.

`Flags` says which flags have been handed out and which are raised.
`TokenHistory` is the list of all tokens that a caller holds, as it grows by
new tokens and copies.  A `Clock` that cannot show a deadline gives out.
-/

namespace GraphQuery

/-- A point in time or a length of time, in units that the caller chooses. -/
abbrev Time := Nat

/-- A handle by which work is called off. -/
structure Token where
  flag : Nat
  deadline? : Option Time
  deriving DecidableEq

/-- The flags that were handed out, numbered from zero, and those that are raised. -/
structure Flags where
  issued : Nat
  raised : List Nat

namespace Flags

/-- No flag was handed out. -/
def empty : Flags := ⟨0, []⟩

/-- A token with a flag of its own. -/
def issue (flags : Flags) (deadline? : Option Time) : Token × Flags :=
  (⟨flags.issued, deadline?⟩, { flags with issued := flags.issued + 1 })

/-- Raise the flag of a token. -/
def cancel (flags : Flags) (t : Token) : Flags :=
  { flags with raised := t.flag :: flags.raised }

/-- The flag of the token is raised, or its deadline has come. -/
def isCancelled (flags : Flags) (now : Time) (t : Token) : Bool :=
  flags.raised.contains t.flag || t.deadline?.any (· ≤ now)

/-- Refuse to go on with a cancelled token. -/
def check (flags : Flags) (now : Time) (t : Token) : Verdict :=
  .ofBool (!flags.isCancelled now t) .cancelled

end Flags

/-- The time until the deadline, if there is one; none is left once it has come. -/
def Token.remaining? (t : Token) (now : Time) : Option Time :=
  t.deadline?.map (· - now)

/-! ## Histories of tokens -/

/-- A clock with a last time. -/
structure Clock where
  now : Time
  /-- The last time that the clock can show. -/
  last : Time

/-- The time after a while, if the clock can show it. -/
def Clock.after? (clock : Clock) (length : Time) : Option Time :=
  if clock.now + length ≤ clock.last then some (clock.now + length) else none

/-- What may be done with tokens; those that exist are numbered from zero. -/
inductive TokenStep where
  /-- Make a token without a deadline. -/
  | make
  /-- Make a token whose deadline comes after the given length of time. -/
  | timeout (length : Time)
  /-- Make a token with the given deadline. -/
  | deadline (time : Time)
  /-- Copy a token. -/
  | copy (index : Nat)
  /-- Raise the flag of a token. -/
  | cancel (index : Nat)
  deriving DecidableEq

/-- Why a step with tokens is not possible. -/
inductive TokenFault where
  /-- There is no token with the number. -/
  | unknown
  /-- The deadline is behind the last time of the clock. -/
  | tooLate
  deriving DecidableEq

/-- The tokens that were made, in order, with their flags. -/
structure TokenHistory where
  flags : Flags
  tokens : List Token

namespace TokenHistory

/-- No token was made. -/
def empty : TokenHistory := ⟨.empty, []⟩

/-- The history with a new token of its own flag. -/
def issue (h : TokenHistory) (deadline? : Option Time) : TokenHistory :=
  ⟨(h.flags.issue deadline?).2, h.tokens ++ [(h.flags.issue deadline?).1]⟩

/-- Go on with the token of the given number. -/
def withToken (h : TokenHistory) (index : Nat) (f : Token → TokenHistory) :
    Except TokenFault TokenHistory :=
  match h.tokens[index]? with
  | some t => .ok (f t)
  | none => .error .unknown

/-- The history after a step at the time of the clock. -/
def step (h : TokenHistory) (clock : Clock) : TokenStep → Except TokenFault TokenHistory
  | .make => .ok (h.issue none)
  | .timeout length =>
    match clock.after? length with
    | some time => .ok (h.issue (some time))
    | none => .error .tooLate
  | .deadline time => .ok (h.issue (some time))
  | .copy index => h.withToken index fun t => { h with tokens := h.tokens ++ [t] }
  | .cancel index => h.withToken index fun t => { h with flags := h.flags.cancel t }

end TokenHistory

end GraphQuery
