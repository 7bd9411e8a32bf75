import GraphQuery.Cancellation
import Mathlib.Logic.Relation
import Mathlib.Tactic.SplitIfs

/-!
# Families of tokens

A token, its copies and the copies of these make up a family.  The flags that
tokens carry say nothing of it: a flag is a number.  Here the families are read
off the steps that were taken instead.  `TokenEvent.makers` are the steps that
made the tokens, so they say which token is a copy of which (`IsCopy`), and two
tokens are kin (`IsKin`) if a chain of copies leads from one to the other, in
whichever directions.

`TokenRecord.reachesFamily` says of every sequence of steps that a cancellation
reaches the kin of the cancelled token and nobody else, and that a deadline
reaches the copies of the token that was made with it.

* `TokenHistory.takes_of_step` lists what a step can do.
* `Mirrors` is what ties flags to families, and `Mirrors.take` carries it
  through a step: a copy is the token it was made from, and a token that is no
  copy has a flag of its own.
* `Mirrors.isKin_of_flag` and `Mirrors.eq_of_isKin` conclude that kin are the
  tokens with the same flag.
-/

namespace GraphQuery

/-! ## Tokens with their past -/

/-- A step with tokens, and the clock by which it is taken. -/
structure TokenEvent where
  clock : Clock
  step : TokenStep

namespace TokenEvent

/-- There is one more token after the event. -/
def makesToken (e : TokenEvent) : Bool :=
  match e.step with
  | .make | .timeout _ | .deadline _ | .copy _ => true
  | .cancel _ => false

/-- The deadline of a token that is made by the event and is no copy. -/
def due? (e : TokenEvent) : Option Time :=
  match e.step with
  | .timeout length => some (e.clock.now + length)
  | .deadline time => some time
  | .make | .copy _ | .cancel _ => none

/-- With so many tokens the event can take place: it is about one of them, or it makes a new one,
whose deadline the clock can show. -/
def IsPossible (e : TokenEvent) (tokens : Nat) : Prop :=
  match e.step with
  | .make | .deadline _ => True
  | .timeout length => e.clock.now + length ≤ e.clock.last
  | .copy i | .cancel i => i < tokens

end TokenEvent

/-- Tokens with their past. -/
structure TokenRecord where
  history : TokenHistory
  /-- The events that took place. -/
  events : List TokenEvent

namespace TokenRecord

/-- No token was made. -/
def start : TokenRecord := ⟨.empty, []⟩

/-- The record after a step is tried. A step that is not possible changes nothing. -/
def attempt (r : TokenRecord) (e : TokenEvent) : TokenRecord :=
  match r.history.step e.clock e.step with
  | .ok h => ⟨h, r.events ++ [e]⟩
  | .error _ => r

/-- The record after several steps are tried, one after the other. -/
def attemptAll (r : TokenRecord) (attempts : List TokenEvent) : TokenRecord :=
  attempts.foldl attempt r

end TokenRecord

/-! ## Families -/

namespace TokenEvent

/-- The events that made the tokens, in the order of the tokens. -/
def makers (events : List TokenEvent) : List TokenEvent := events.filter makesToken

/-- The first token was copied from the second. -/
def IsCopy (events : List TokenEvent) (i j : Nat) : Prop :=
  ∃ e, (makers events)[i]? = some e ∧ e.step = .copy j

/-- A chain of copies, each of them in either direction, leads from one token to the other. -/
def IsKin (events : List TokenEvent) : Nat → Nat → Prop := Relation.EqvGen (IsCopy events)

/-- The chain of copies that ends with the token started from one that was made with a deadline,
which has come. -/
def IsDue (events : List TokenEvent) (i : Nat) (now : Time) : Prop :=
  ∃ origin e time, Relation.ReflTransGen (IsCopy events) i origin ∧
    (makers events)[origin]? = some e ∧ e.due? = some time ∧ time ≤ now

/-- The token or kin of it was cancelled. -/
def IsCalledOff (events : List TokenEvent) (i : Nat) : Prop :=
  ∃ e ∈ events, ∃ j, e.step = .cancel j ∧ IsKin events i j

/-- The token was made by the event, and not as a copy. -/
structure IsFounder (events : List TokenEvent) (i : Nat) (e : TokenEvent) : Prop where
  maker : (makers events)[i]? = some e
  not_copy : ∀ j, e.step ≠ .copy j

variable {events : List TokenEvent} {e e' : TokenEvent} {i j : Nat}

theorem makers_concat :
    makers (events ++ [e]) = makers events ++ if e.makesToken then [e] else [] := by
  rw [makers, List.filter_append, List.filter_cons, List.filter_nil]
  rfl

/-- Only the last event can have made a token that was not there before. -/
theorem getElem?_makers_concat : (makers (events ++ [e]))[i]? = some e' ↔
    (makers events)[i]? = some e' ∨ e.makesToken = true ∧ i = (makers events).length ∧ e = e' := by
  rw [makers_concat]
  grind

theorem isCopy_concat (h : IsCopy (events ++ [e]) i j) :
    IsCopy events i j ∨ i = (makers events).length ∧ e.step = .copy j := by
  obtain ⟨d, hmaker, hd⟩ := h
  rcases getElem?_makers_concat.mp hmaker with hold | ⟨-, hi, rfl⟩
  · exact Or.inl ⟨d, hold, hd⟩
  · exact Or.inr ⟨hi, hd⟩

theorem isFounder_concat (h : IsFounder (events ++ [e]) i e') :
    IsFounder events i e' ∨ e.makesToken = true ∧ i = (makers events).length ∧ e = e' := by
  rcases getElem?_makers_concat.mp h.maker with hold | hnew
  · exact Or.inl ⟨hold, h.not_copy⟩
  · exact Or.inr hnew

end TokenEvent

open TokenEvent

/-! ## What a step does -/

namespace TokenHistory

variable {h h' : TokenHistory} {e : TokenEvent} {i : Nat} {t : Token}

/-- What an event does to the history. -/
inductive Takes (h : TokenHistory) : TokenEvent → TokenHistory → Prop where
  | issued {e : TokenEvent} (hmakes : e.makesToken = true) (hcopy : ∀ i, e.step ≠ .copy i) :
    Takes h e (h.issue e.due?)
  | copied {clock : Clock} {i : Nat} {t : Token} (ht : h.tokens[i]? = some t) :
    Takes h ⟨clock, .copy i⟩ { h with tokens := h.tokens ++ [t] }
  | cancelled {clock : Clock} {i : Nat} {t : Token} (ht : h.tokens[i]? = some t) :
    Takes h ⟨clock, .cancel i⟩ { h with flags := h.flags.cancel t }

theorem withToken_eq_ok_iff {f : Token → TokenHistory} :
    h.withToken i f = .ok h' ↔ ∃ t, h.tokens[i]? = some t ∧ f t = h' := by
  unfold withToken
  cases h.tokens[i]? <;> simp

theorem exists_withToken_iff {f : Token → TokenHistory} :
    (∃ h', h.withToken i f = .ok h') ↔ i < h.tokens.length := by
  simp only [withToken_eq_ok_iff]
  constructor
  · rintro ⟨-, t, ht, -⟩
    exact (List.getElem?_eq_some_iff.mp ht).1
  · intro hlt
    exact ⟨_, _, List.getElem?_eq_getElem hlt, rfl⟩

theorem takes_of_step (hstep : h.step e.clock e.step = .ok h') : h.Takes e h' := by
  obtain ⟨clock, step⟩ := e
  cases step with
  | make =>
    obtain rfl := Except.ok.inj hstep
    exact .issued rfl fun _ => TokenStep.noConfusion
  | deadline time =>
    obtain rfl := Except.ok.inj hstep
    exact .issued rfl fun _ => TokenStep.noConfusion
  | timeout length =>
    simp only [TokenHistory.step, Clock.after?] at hstep
    split_ifs at hstep
    obtain rfl := Except.ok.inj hstep
    exact .issued rfl fun _ => TokenStep.noConfusion
  | copy i =>
    obtain ⟨t, ht, rfl⟩ := withToken_eq_ok_iff.mp hstep
    exact .copied ht
  | cancel i =>
    obtain ⟨t, ht, rfl⟩ := withToken_eq_ok_iff.mp hstep
    exact .cancelled ht

/-- A step is refused only for want of its token, or if its deadline is too late. -/
theorem exists_step_iff :
    (∃ h', h.step e.clock e.step = .ok h') ↔ e.IsPossible h.tokens.length := by
  obtain ⟨clock, step⟩ := e
  cases step with
  | make => exact ⟨fun _ => trivial, fun _ => ⟨_, rfl⟩⟩
  | deadline time => exact ⟨fun _ => trivial, fun _ => ⟨_, rfl⟩⟩
  | timeout length =>
    simp only [TokenHistory.step, Clock.after?, IsPossible]
    split_ifs with hlast <;> simp [hlast]
  | copy i => exact exists_withToken_iff
  | cancel i => exact exists_withToken_iff

theorem Takes.eq_issue (htakes : h.Takes e h') (hmakes : e.makesToken = true)
    (hcopy : ∀ i, e.step ≠ .copy i) : h' = h.issue e.due? := by
  cases htakes with
  | issued => rfl
  | copied => exact absurd rfl (hcopy _)
  | cancelled => cases hmakes

/-- The tokens stay as they are, and the flags stay raised. -/
structure Keeps (h h' : TokenHistory) : Prop where
  tokens {i : Nat} {t : Token} (ht : h.tokens[i]? = some t) : h'.tokens[i]? = some t
  raised : h.flags.raised ⊆ h'.flags.raised

theorem Keeps.refl : h.Keeps h := ⟨id, fun _ => id⟩

theorem Keeps.trans {h'' : TokenHistory} (hk : h.Keeps h') (hk' : h'.Keeps h'') : h.Keeps h'' where
  tokens ht := hk'.tokens (hk.tokens ht)
  raised _ hflag := hk'.raised (hk.raised hflag)

theorem Takes.keeps (htakes : h.Takes e h') : h.Keeps h' := by
  have happend (t : Token) {i : Nat} {u : Token} (hu : h.tokens[i]? = some u) :
      (h.tokens ++ [t])[i]? = some u :=
    (List.getElem?_append_left (List.getElem?_eq_some_iff.mp hu).1).trans hu
  cases htakes with
  | issued => exact ⟨happend _, fun _ => id⟩
  | copied => exact ⟨happend _, fun _ => id⟩
  | cancelled => exact ⟨id, List.subset_cons_self _ _⟩

end TokenHistory

namespace Flags

variable {flags flags' : Flags} {now now' : Time} {t : Token}

theorem isCancelled_iff : flags.isCancelled now t = true ↔
    t.flag ∈ flags.raised ∨ ∃ time, t.deadline? = some time ∧ time ≤ now := by
  simp [isCancelled, Option.any_eq_true]

/-- A token that is cancelled stays so when more flags are raised and time goes by. -/
theorem isCancelled_mono (hraised : flags.raised ⊆ flags'.raised) (hnow : now ≤ now')
    (h : flags.isCancelled now t = true) : flags'.isCancelled now' t = true := by
  rw [isCancelled_iff] at h ⊢
  rcases h with hflag | ⟨time, htime, hcome⟩
  · exact Or.inl (hraised hflag)
  · exact Or.inr ⟨time, htime, Nat.le_trans hcome hnow⟩

end Flags

/-! ## Flags and families -/

/-- The tokens of a history and their flags are what the events have made of them. -/
structure Mirrors (events : List TokenEvent) (h : TokenHistory) : Prop where
  length : h.tokens.length = (makers events).length
  /-- A copy is made later than the token it is made from, and is the same. -/
  copied : ∀ i j, IsCopy events i j → j < i ∧ ∃ t, h.tokens[i]? = some t ∧ h.tokens[j]? = some t
  /-- A token that is no copy has its own deadline. -/
  founded : ∀ i e, IsFounder events i e → ∃ t, h.tokens[i]? = some t ∧ t.deadline? = e.due?
  /-- A token that is no copy has its own flag. -/
  apart : ∀ i j e e' t u, IsFounder events i e → IsFounder events j e' →
    h.tokens[i]? = some t → h.tokens[j]? = some u → t.flag = u.flag → i = j
  /-- The next flag is not in use. -/
  issued : ∀ t ∈ h.tokens, t.flag < h.flags.issued
  /-- The flags of the tokens that were cancelled are raised. -/
  cancelled : ∀ e ∈ events, ∀ i, e.step = .cancel i →
    ∃ t, h.tokens[i]? = some t ∧ t.flag ∈ h.flags.raised
  /-- No other flag is raised. -/
  raised : ∀ flag ∈ h.flags.raised, ∃ e ∈ events, ∃ i t,
    e.step = .cancel i ∧ h.tokens[i]? = some t ∧ t.flag = flag

namespace Mirrors

variable {events : List TokenEvent} {h h' : TokenHistory} {e : TokenEvent} {i j : Nat}
  {t u : Token} {now : Time}

theorem start : Mirrors [] .empty where
  length := rfl
  copied i j h := by
    obtain ⟨e, hmaker, -⟩ := h
    cases hmaker
  founded i e h := by cases h.maker
  apart i j e e' t u h := by cases h.maker
  issued := List.forall_mem_nil _
  cancelled := List.forall_mem_nil _
  raised := List.forall_mem_nil _

/-- The flag of a new token that is no copy is not in use. -/
theorem flag_lt (hm : Mirrors events h) (ht : h.tokens[i]? = some t)
    (hu : (h.issue e.due?).tokens[h.tokens.length]? = some u) : t.flag < u.flag := by
  obtain rfl : (h.flags.issue e.due?).1 = u :=
    Option.some.inj (List.getElem?_concat_length.symm.trans hu)
  exact hm.issued t (List.mem_of_getElem? ht)

/-- After a step, tokens that are no copies still have different flags. -/
theorem take_apart {d d' : TokenEvent} (hm : Mirrors events h) (htakes : h.Takes e h')
    (hd : IsFounder (events ++ [e]) i d) (hd' : IsFounder (events ++ [e]) j d')
    (ht : h'.tokens[i]? = some t) (hu : h'.tokens[j]? = some u) (hflag : t.flag = u.flag) :
    i = j := by
  have hback {i : Nat} {d : TokenEvent} {t : Token} (hd : IsFounder events i d)
      (ht : h'.tokens[i]? = some t) : h.tokens[i]? = some t := by
    obtain ⟨t', ht', -⟩ := hm.founded i d hd
    rwa [Option.some.inj (ht.symm.trans (htakes.keeps.tokens ht'))]
  -- Flags are numbered as they are issued, so the flag of a token that is new exceeds the others.
  rcases isFounder_concat hd with hold | ⟨hmakes, hi, rfl⟩ <;>
    rcases isFounder_concat hd' with hold' | ⟨hmakes', hj, rfl⟩
  · exact hm.apart i j d d' t u hold hold' (hback hold ht) (hback hold' hu) hflag
  · obtain rfl := htakes.eq_issue hmakes' hd'.not_copy
    rw [hj, ← hm.length] at hu
    exact absurd hflag (Nat.ne_of_lt (hm.flag_lt (hback hold ht) hu))
  · obtain rfl := htakes.eq_issue hmakes hd.not_copy
    rw [hi, ← hm.length] at ht
    exact absurd hflag (Nat.ne_of_gt (hm.flag_lt (hback hold' hu) ht))
  · rw [hi, hj]

/-- The relations are kept up by a step. -/
theorem take (hm : Mirrors events h) (htakes : h.Takes e h') : Mirrors (events ++ [e]) h' where
  length := by
    rw [makers_concat, List.length_append, ← hm.length]
    cases htakes with
    | issued hmakes => simp [TokenHistory.issue, hmakes]
    | copied | cancelled => simp [makesToken]
  copied i j hij := by
    rcases isCopy_concat hij with hold | ⟨hi, hcopies⟩
    · obtain ⟨hlt, t, hit, hjt⟩ := hm.copied i j hold
      exact ⟨hlt, t, htakes.keeps.tokens hit, htakes.keeps.tokens hjt⟩
    · rw [hi, ← hm.length]
      have hkeeps := htakes.keeps
      cases htakes with
      | issued hmakes hcopy => exact absurd hcopies (hcopy j)
      | copied ht =>
        obtain rfl := TokenStep.copy.inj hcopies
        exact ⟨(List.getElem?_eq_some_iff.mp ht).1, _, List.getElem?_concat_length,
          hkeeps.tokens ht⟩
      | cancelled => cases hcopies
  founded i d hd := by
    rcases isFounder_concat hd with hold | ⟨hmakes, hi, rfl⟩
    · obtain ⟨t, hit, hdue⟩ := hm.founded i d hold
      exact ⟨t, htakes.keeps.tokens hit, hdue⟩
    · obtain rfl := htakes.eq_issue hmakes hd.not_copy
      rw [hi, ← hm.length]
      exact ⟨_, List.getElem?_concat_length, rfl⟩
  apart _ _ _ _ _ _ := hm.take_apart htakes
  issued := by
    cases htakes with
    | issued =>
      intro t ht
      rcases List.mem_append.mp ht with hold | hnew
      · exact Nat.lt_succ_of_lt (hm.issued t hold)
      · obtain rfl := List.mem_singleton.mp hnew
        exact Nat.lt_succ_self _
    | copied ht =>
      intro u hu
      rcases List.mem_append.mp hu with hold | hnew
      · exact hm.issued u hold
      · obtain rfl := List.mem_singleton.mp hnew
        exact hm.issued u (List.mem_of_getElem? ht)
    | cancelled => exact hm.issued
  cancelled d hmem i hd := by
    rcases List.mem_append.mp hmem with hold | hnew
    · obtain ⟨t, hit, hraised⟩ := hm.cancelled d hold i hd
      exact ⟨t, htakes.keeps.tokens hit, htakes.keeps.raised hraised⟩
    · obtain rfl := List.mem_singleton.mp hnew
      cases htakes with
      | issued hmakes => simp [makesToken, hd] at hmakes
      | copied => cases hd
      | cancelled ht =>
        obtain rfl := TokenStep.cancel.inj hd
        exact ⟨_, ht, List.mem_cons_self⟩
  raised flag hflag := by
    have hold (hflag : flag ∈ h.flags.raised) : ∃ d ∈ events ++ [e], ∃ i t,
        d.step = .cancel i ∧ h'.tokens[i]? = some t ∧ t.flag = flag := by
      obtain ⟨d, hmem, i, t, hd, hit, ht⟩ := hm.raised flag hflag
      exact ⟨d, List.mem_append_left _ hmem, i, t, hd, htakes.keeps.tokens hit, ht⟩
    cases htakes with
    | issued | copied => exact hold hflag
    | cancelled ht =>
      rcases List.mem_cons.mp hflag with rfl | hmem
      · exact ⟨_, List.mem_concat_self, _, _, rfl, ht, rfl⟩
      · exact hold hmem

/-! ### Kin -/

/-- Kin are the same token. -/
theorem eq_of_isKin (hm : Mirrors events h) (hkin : IsKin events i j) :
    h.tokens[i]? = h.tokens[j]? := by
  induction hkin with
  | rel i j hcopy =>
    obtain ⟨-, t, hi, hj⟩ := hm.copied i j hcopy
    rw [hi, hj]
  | refl i => rfl
  | symm i j _ ih => exact ih.symm
  | trans i j k _ _ ih ih' => exact ih.trans ih'

/-- Every chain of copies starts from a token that is no copy. -/
theorem exists_founder (hm : Mirrors events h) (ht : h.tokens[i]? = some t) :
    ∃ origin e, Relation.ReflTransGen (IsCopy events) i origin ∧ IsFounder events origin e := by
  -- A token is later than the one that it was copied from.
  induction i using Nat.strongRecOn with
  | _ i ih =>
    have hlt : i < (makers events).length := hm.length ▸ (List.getElem?_eq_some_iff.mp ht).1
    have hmaker := List.getElem?_eq_getElem hlt
    by_cases hcopy : ∃ j, IsCopy events i j
    · obtain ⟨j, hj⟩ := hcopy
      obtain ⟨hjlt, u, hu, hju⟩ := hm.copied i j hj
      rw [ht] at hu
      obtain ⟨origin, e, hchain, he⟩ := ih j hjlt (hu ▸ hju)
      exact ⟨origin, e, .head hj hchain, he⟩
    · exact ⟨i, _, .refl, hmaker, fun j hj => hcopy ⟨j, _, hmaker, hj⟩⟩

theorem isKin_of_chain (hchain : Relation.ReflTransGen (IsCopy events) i j) : IsKin events i j :=
  Relation.EqvGen.reflTransGen_le_eqvGen _ _ _ hchain

/-- Tokens with the same flag are kin. -/
theorem isKin_of_flag (hm : Mirrors events h) (ht : h.tokens[i]? = some t)
    (hu : h.tokens[j]? = some u) (hflag : t.flag = u.flag) : IsKin events i j := by
  obtain ⟨o, d, hchain, hd⟩ := hm.exists_founder ht
  obtain ⟨o', d', hchain', hd'⟩ := hm.exists_founder hu
  have hkin := isKin_of_chain hchain
  have hkin' := isKin_of_chain hchain'
  -- The tokens from which the two chains started carry the same flag, too.
  obtain rfl : o = o' := hm.apart o o' d d' t u hd hd' ((hm.eq_of_isKin hkin).symm.trans ht)
    ((hm.eq_of_isKin hkin').symm.trans hu) hflag
  exact .trans _ _ _ hkin (.symm _ _ hkin')

theorem isCalledOff_iff (hm : Mirrors events h) (ht : h.tokens[i]? = some t) :
    t.flag ∈ h.flags.raised ↔ IsCalledOff events i := by
  constructor
  · intro hraised
    obtain ⟨e, hmem, j, u, hcancel, hu, hflag⟩ := hm.raised t.flag hraised
    exact ⟨e, hmem, j, hcancel, hm.isKin_of_flag ht hu hflag.symm⟩
  · rintro ⟨e, hmem, j, hcancel, hkin⟩
    obtain ⟨u, hu, hraised⟩ := hm.cancelled e hmem j hcancel
    obtain rfl : t = u := Option.some.inj (ht.symm.trans ((hm.eq_of_isKin hkin).trans hu))
    exact hraised

/-- A token has the deadline of the one that its chain of copies started from. -/
theorem isDue_iff (hm : Mirrors events h) (ht : h.tokens[i]? = some t) :
    (∃ time, t.deadline? = some time ∧ time ≤ now) ↔ IsDue events i now := by
  have hfounded {o : Nat} {d : TokenEvent} (hchain : Relation.ReflTransGen (IsCopy events) i o)
      (hd : IsFounder events o d) : t.deadline? = d.due? := by
    obtain ⟨u, hu, hdue⟩ := hm.founded o d hd
    have heq := hm.eq_of_isKin (isKin_of_chain hchain)
    rwa [Option.some.inj (ht.symm.trans (heq.trans hu))]
  constructor
  · rintro ⟨time, htime, hcome⟩
    obtain ⟨o, d, hchain, hd⟩ := hm.exists_founder ht
    exact ⟨o, d, time, hchain, hd.maker, (hfounded hchain hd).symm.trans htime, hcome⟩
  · rintro ⟨o, d, time, hchain, hmaker, hdue, hcome⟩
    have hcopy (j : Nat) : d.step ≠ .copy j := fun hj => by simp [due?, hj] at hdue
    exact ⟨time, (hfounded hchain ⟨hmaker, hcopy⟩).trans hdue, hcome⟩

theorem isCancelled_iff (hm : Mirrors events h) (ht : h.tokens[i]? = some t) :
    h.flags.isCancelled now t = true ↔ IsDue events i now ∨ IsCalledOff events i := by
  rw [Flags.isCancelled_iff, hm.isDue_iff ht, hm.isCalledOff_iff ht, or_comm]

end Mirrors

/-! ## Every sequence of steps -/

namespace TokenRecord

variable {r : TokenRecord} {e : TokenEvent} {attempts : List TokenEvent} {i : Nat} {t : Token}

/-- A step is taken or changes nothing. -/
theorem attempt_cases (r : TokenRecord) (e : TokenEvent) : r.attempt e = r ∨
    ∃ h, r.history.Takes e h ∧ r.attempt e = ⟨h, r.events ++ [e]⟩ := by
  unfold attempt
  cases hstep : r.history.step e.clock e.step with
  | ok h => exact Or.inr ⟨h, TokenHistory.takes_of_step hstep, rfl⟩
  | error _ => exact Or.inl rfl

theorem mirrors_attempt (hm : Mirrors r.events r.history) :
    Mirrors (r.attempt e).events (r.attempt e).history := by
  rcases attempt_cases r e with hsame | ⟨h, htakes, htaken⟩
  · rwa [hsame]
  · rw [htaken]
    exact hm.take htakes

theorem mirrors_attemptAll (hm : Mirrors r.events r.history) :
    Mirrors (r.attemptAll attempts).events (r.attemptAll attempts).history := by
  induction attempts generalizing r with
  | nil => exact hm
  | cons e attempts ih => exact ih (mirrors_attempt hm)

theorem attempt_keeps (r : TokenRecord) (e : TokenEvent) :
    r.history.Keeps (r.attempt e).history := by
  rcases attempt_cases r e with hsame | ⟨h, htakes, htaken⟩
  · rw [hsame]
    exact .refl
  · rw [htaken]
    exact htakes.keeps

/-- Whatever is tried, tokens stay as they are and flags stay raised. -/
theorem attemptAll_keeps (r : TokenRecord) (attempts : List TokenEvent) :
    r.history.Keeps (r.attemptAll attempts).history := by
  induction attempts generalizing r with
  | nil => exact .refl
  | cons e attempts ih => exact (attempt_keeps r e).trans (ih (r.attempt e))

/-- A step that cancels no kin of a token does not raise its flag. -/
theorem raised_attempt (hm : Mirrors r.events r.history) (ht : r.history.tokens[i]? = some t)
    (hforeign : ∀ j, e.step = .cancel j → ¬IsKin r.events i j) :
    t.flag ∈ (r.attempt e).history.flags.raised ↔ t.flag ∈ r.history.flags.raised := by
  rcases attempt_cases r e with hsame | ⟨h, htakes, htaken⟩
  · rw [hsame]
  · rw [htaken]
    cases htakes with
    | issued | copied => rfl
    | @cancelled _ j u hu =>
      have hne : t.flag ≠ u.flag := fun hflag => hforeign j rfl (hm.isKin_of_flag ht hu hflag)
      exact List.mem_cons.trans (or_iff_right hne)

/-- What cancellations and deadlines have reached in a record, and what steps can add to it. -/
structure ReachesFamily (r : TokenRecord) : Prop where
  /-- There are as many tokens as were made. -/
  length : r.history.tokens.length = (makers r.events).length
  /-- A step is taken unless it is about a token that does not exist, or its deadline is too
  late. -/
  possible : ∀ e : TokenEvent, (∃ h, r.history.step e.clock e.step = .ok h) ↔
    e.IsPossible r.history.tokens.length
  /-- A token is cancelled exactly when the deadline has come with which its chain of copies
  started, or when kin of it was cancelled. -/
  cancelled : ∀ (i : Nat) (t : Token) (now : Time), r.history.tokens[i]? = some t →
    (r.history.flags.isCancelled now t = true ↔ IsDue r.events i now ∨ IsCalledOff r.events i)
  /-- The check of such a token fails, and no other check does. -/
  checked : ∀ (i : Nat) (t : Token) (now : Time), r.history.tokens[i]? = some t →
    (r.history.flags.check now t = .error .cancelled ↔
      IsDue r.events i now ∨ IsCalledOff r.events i) ∧
    (r.history.flags.check now t = .ok () ↔ ¬(IsDue r.events i now ∨ IsCalledOff r.events i))
  /-- Whatever is tried later, a token stays the same, and cancelled if it was. -/
  stays : ∀ (i : Nat) (t : Token) (attempts : List TokenEvent) (now now' : Time),
    r.history.tokens[i]? = some t → now ≤ now' →
    (r.attemptAll attempts).history.tokens[i]? = some t ∧
      (r.history.flags.isCancelled now t = true →
        (r.attemptAll attempts).history.flags.isCancelled now' t = true)
  /-- A step changes nothing about a token, unless it cancels kin of it. -/
  outside : ∀ (i : Nat) (t : Token) (e : TokenEvent), r.history.tokens[i]? = some t →
    (∀ j, e.step = .cancel j → ¬IsKin r.events i j) →
      (r.attempt e).history.tokens[i]? = some t ∧
        ∀ now, (r.attempt e).history.flags.isCancelled now t = r.history.flags.isCancelled now t

/-- At every moment of every sequence of steps, cancellations have reached the families of the
cancelled tokens and nothing else. The clock need not go forward from step to step; only the two
times that `ReachesFamily.stays` compares are in order. -/
theorem reachesFamily (attempts : List TokenEvent) : ReachesFamily (start.attemptAll attempts) := by
  have hm : Mirrors (start.attemptAll attempts).events (start.attemptAll attempts).history :=
    mirrors_attemptAll Mirrors.start
  exact
    { length := hm.length
      possible := fun _ => TokenHistory.exists_step_iff
      cancelled := fun _ _ _ => hm.isCancelled_iff
      checked := by
        intro i t now ht
        rw [← hm.isCancelled_iff ht]
        simp [Flags.check]
      stays := by
        intro i t later now now' ht hnow
        have hkeeps := attemptAll_keeps (start.attemptAll attempts) later
        exact ⟨hkeeps.tokens ht, Flags.isCancelled_mono hkeeps.raised hnow⟩
      outside := by
        intro i t e ht hforeign
        refine ⟨(attempt_keeps _ e).tokens ht, fun now => ?_⟩
        rw [Bool.eq_iff_iff, Flags.isCancelled_iff, Flags.isCancelled_iff,
          raised_attempt hm ht hforeign] }

/-- A copy is cancelled: the token that it was made from is so, too, and another token is not. -/
example :
    let r := start.attemptAll [⟨⟨0, 9⟩, .timeout 5⟩, ⟨⟨1, 9⟩, .copy 0⟩, ⟨⟨2, 9⟩, .make⟩,
      ⟨⟨3, 9⟩, .cancel 1⟩]
    r.history.tokens.map (r.history.flags.isCancelled 3) = [true, true, false] := by
  decide

end TokenRecord

end GraphQuery
