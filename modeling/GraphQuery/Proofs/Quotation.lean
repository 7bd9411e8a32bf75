import GraphQuery.Toml.Quoted
import Mathlib

/-!
# Strings are read as they were written

A text is written in one of four forms, and which one it is depends on the
quotes, marks, line breaks and control characters in it.  `read?_encode` says
that the reader gets every text back, whatever is in it and in whichever form
it was written, and goes on behind the closing quotes.

The writer puts a quote, a character or an escape after the other.  `Encodes`
has one constructor for each of them, and its number says how many quotes stand
directly in front: a form with line breaks may have two, and the others none.

* `encodes_encodeBody`: what is written between the quotes is of this kind.
* `Encodes.decode?_append`: what is of this kind is read back.  The closing
  quotes are found at the first of the quotes in front of them, which is why the
  proof looks at what comes behind a quote.
-/

namespace GraphQuery.Toml.Quoted

open Json.Quoted (hexValue?)

variable {f : Form} {c : Char} {cs text rest : List Char}

/-! ## Forms -/

theorem quotes_of_one (h : f.hasLines = false) : f.quotes = [f.quote] := by
  simp [Form.quotes, h]

theorem quotes_of_lines (h : f.hasLines = true) : f.quotes = List.replicate 3 f.quote := by
  simp [Form.quotes, h]

theorem allowedRun_of_one (h : f.hasLines = false) : f.allowedRun = 0 := by
  simp [Form.allowedRun, h]

theorem allowedRun_of_lines (h : f.hasLines = true) : f.allowedRun = 2 := by
  simp [Form.allowedRun, h]

theorem quote_ne_mark : f.quote ≠ mark := by cases f <;> decide

theorem quote_ne_break : f.quote ≠ '\n' := by cases f <;> decide

theorem return_ne_quote : '\r' ≠ f.quote := by cases f <;> decide

theorem quote_lt : f.quote.toNat < 0x80 := by cases f <;> decide

/-! ## One character -/

theorem hexValue?_hexDigit {n : Nat} (h : n < 16) : hexValue? (hexDigit n) = some n := by
  interval_cases n <;> decide

theorem closing?_of_ne (h : c ≠ f.quote) : closing? f c rest = none := if_pos h

/-- A text goes on behind a character that is neither a quote nor a mark. -/
theorem decode?_cons (hclosing : closing? f c rest = none) (hmark : ¬(c = mark ∧ f.hasEscapes))
    (htext : isText c ∨ (f.hasLines ∧ c = '\n')) :
    decode? f .text (c :: rest) = push c (decode? f .text rest) := by
  rw [decode?.eq_def]
  simp only [Progress.resume, hclosing, if_neg hmark, if_pos htext]

theorem decode?_mark (h : f.hasEscapes) :
    decode? f .text (mark :: rest) = decode? f .mark rest := by
  rw [decode?.eq_def]
  simp only [Progress.resume, closing?_of_ne quote_ne_mark.symm, true_and, if_pos h]

theorem decode?_digit {left value d : Nat} (hc : hexValue? c = some d) (hleft : 1 < left) :
    decode? f (.digits left value) (c :: rest) =
      decode? f (.digits (left - 1) (value * 16 + d)) rest := by
  rw [decode?.eq_def]
  simp only [Progress.resume, hc, if_neg (Nat.not_le.mpr hleft)]

theorem decode?_lastDigit {value d : Nat} {e : Char} (hc : hexValue? c = some d)
    (he : char? (value * 16 + d) = some e) :
    decode? f (.digits 1 value) (c :: rest) = push e (decode? f .text rest) := by
  rw [decode?.eq_def]
  simp only [Progress.resume, hc, Nat.le_refl, if_true, he]

theorem char?_toNat : char? c.toNat = some c := by
  have hvalid : c.toNat.isValidChar := c.valid
  rw [char?, if_pos hvalid, Char.ofNat_toNat]

/-- The escape of a character stands for the character. -/
theorem decode?_escape (hf : f.hasEscapes) (hc : c.toNat < 0x80) :
    decode? f .text (escape c ++ rest) = push c (decode? f .text rest) := by
  rw [escape]
  cases hfind : shortEscapes.find? (·.2 == c) with
  | some e =>
    have hall : ∀ e ∈ shortEscapes, shortEscapes.lookup e.1 = some e.2 := by decide
    have hletter := hall e (List.mem_of_find?_eq_some hfind)
    have hec : e.2 = c := by simpa using List.find?_some hfind
    rw [List.cons_append, decode?_mark hf, List.cons_append, decode?.eq_def]
    simp only [Progress.resume, hletter, hec, List.nil_append]
  | none =>
    have hu : shortEscapes.lookup 'u' = none := by decide
    have hvalue : ((c.toNat / 0x1000 * 16 + c.toNat / 0x100 % 0x10) * 16 +
        c.toNat / 0x10 % 0x10) * 16 + c.toNat % 0x10 = c.toNat := by omega
    simp only [List.cons_append, List.nil_append]
    rw [decode?_mark hf, decode?.eq_def]
    simp only [Progress.resume, hu, if_true]
    rw [decode?_digit (hexValue?_hexDigit (by omega)) (by decide),
      decode?_digit (hexValue?_hexDigit (by omega)) (by decide),
      decode?_digit (hexValue?_hexDigit (by omega)) (by decide),
      decode?_lastDigit (hexValue?_hexDigit (by omega))]
    rw [Nat.zero_mul, Nat.zero_add, hvalue, char?_toNat]

/-! ## The characters between the quotes -/

/-- What a form reads as the given characters, behind so many quotes of theirs. -/
inductive Encodes (f : Form) : Nat → List Char → List Char → Prop where
  | nil {run : Nat} : Encodes f run [] []
  | quote {run : Nat} {cs text : List Char} (hrun : run < f.allowedRun)
      (htext : Encodes f (run + 1) cs text) : Encodes f run (f.quote :: cs) (f.quote :: text)
  | plain {run : Nat} {c : Char} {cs text : List Char} (hquote : c ≠ f.quote)
      (hmark : ¬(c = mark ∧ f.hasEscapes)) (hc : isText c ∨ (f.hasLines ∧ c = '\n'))
      (htext : Encodes f 0 cs text) : Encodes f run (c :: cs) (c :: text)
  | escape {run : Nat} {c : Char} {cs text : List Char} (hf : f.hasEscapes) (hc : c.toNat < 0x80)
      (htext : Encodes f 0 cs text) : Encodes f run (c :: cs) (escape c ++ text)

theorem escape_eq_cons : ∃ more, escape c = mark :: more := by
  rw [escape]
  split
  · exact ⟨_, rfl⟩
  · exact ⟨_, rfl⟩

namespace Encodes

variable {run : Nat}

/-- A quote stands in front only where one is allowed. -/
theorem run_lt (h : Encodes f run cs text) (hhead : text.head? = some f.quote) :
    run < f.allowedRun := by
  cases h with
  | nil => cases hhead
  | quote hrun => exact hrun
  | plain hquote => exact absurd (Option.some.inj hhead) hquote
  | escape =>
    obtain ⟨more, hmore⟩ := escape_eq_cons
    rw [hmore] at hhead
    exact absurd (Option.some.inj hhead) quote_ne_mark.symm

/-- A line break stands in front only where the text has one. -/
theorem mem_of_head? (h : Encodes f run cs text) (hhead : text.head? = some '\n') : '\n' ∈ cs := by
  cases h with
  | nil => cases hhead
  | quote => exact absurd (Option.some.inj hhead) quote_ne_break
  | plain => exact Option.some.inj hhead ▸ List.mem_cons_self
  | escape =>
    obtain ⟨more, hmore⟩ := escape_eq_cons
    rw [hmore] at hhead
    exact absurd (Option.some.inj hhead) (by decide)

/-- Behind some quotes the text ends, or a character follows that is none. -/
theorem run_or_more (h : Encodes f run cs text) (hrun : run ≤ f.allowedRun) :
    ∃ k, run + k ≤ f.allowedRun ∧
      ((cs = List.replicate k f.quote ∧ text = List.replicate k f.quote) ∨
        ∃ d more, d ≠ f.quote ∧ text = List.replicate k f.quote ++ d :: more) := by
  induction h with
  | nil => exact ⟨0, hrun, .inl ⟨rfl, rfl⟩⟩
  | quote hlt _ ih =>
    obtain ⟨k, hk, hrest⟩ := ih hlt
    refine ⟨k + 1, by omega, hrest.imp ?_ ?_⟩
    · rintro ⟨rfl, rfl⟩
      exact ⟨rfl, rfl⟩
    · rintro ⟨d, more, hd, rfl⟩
      exact ⟨d, more, hd, rfl⟩
  | plain hquote => exact ⟨0, hrun, .inr ⟨_, _, hquote, rfl⟩⟩
  | escape =>
    obtain ⟨more, hmore⟩ := escape_eq_cons
    exact ⟨0, hrun, .inr ⟨mark, _, quote_ne_mark.symm, by rw [hmore]; rfl⟩⟩

end Encodes

/-! ## The closing quotes -/

theorem overhang_replicate {q : Char} {k : Nat} (hk : k ≤ 2) (hrest : rest.head? ≠ some q) :
    overhang q (List.replicate k q ++ rest) = (List.replicate k q, rest) := by
  match rest, hrest with
  | [], _ => interval_cases k <;> simp [overhang]
  | [c], hrest =>
    have hc : c ≠ q := fun h => hrest (congrArg some h)
    interval_cases k <;> simp [overhang, hc]
  | c :: d :: rest, hrest =>
    have hc : c ≠ q := fun h => hrest (congrArg some h)
    interval_cases k <;> simp [overhang, hc]

/-- The closing quotes are found behind as many quotes as may stand next to each other. -/
theorem decode?_closing {k : Nat} (hk : k ≤ f.allowedRun) (hrest : rest.head? ≠ some f.quote) :
    decode? f .text (List.replicate k f.quote ++ (f.quotes ++ rest)) =
      some (List.replicate k f.quote, rest) := by
  cases hlines : f.hasLines with
  | false =>
    obtain rfl : k = 0 := Nat.le_zero.mp (allowedRun_of_one hlines ▸ hk)
    rw [quotes_of_one hlines, decode?.eq_def]
    simp [Progress.resume, closing?, hlines]
  | true =>
    have hk : k ≤ 2 := allowedRun_of_lines hlines ▸ hk
    have hclosing : closing? f f.quote
        (f.quote :: f.quote :: (List.replicate k f.quote ++ rest)) =
          some (List.replicate k f.quote, rest) := by
      simp [closing?, hlines, overhang_replicate hk hrest]
    rw [quotes_of_lines hlines, ← List.append_assoc, List.replicate_append_replicate, Nat.add_comm,
      ← List.replicate_append_replicate, List.append_assoc, decode?.eq_def]
    simp only [Progress.resume, List.replicate_succ, List.replicate_zero, List.cons_append,
      List.nil_append, hclosing]

/-- A quote in front of others is none of the closing ones, if something else follows too soon. -/
theorem closing?_of_run {k : Nat} {d : Char} (hk : k < f.allowedRun) (hd : d ≠ f.quote) :
    closing? f f.quote (List.replicate k f.quote ++ d :: rest) = none := by
  cases hlines : f.hasLines with
  | false => exact absurd (allowedRun_of_one hlines ▸ hk) (Nat.not_lt_zero k)
  | true =>
    have hk : k < 2 := allowedRun_of_lines hlines ▸ hk
    interval_cases k
    · cases rest with
      | nil => simp [closing?, hlines]
      | cons e rest => simp [closing?, hlines, hd]
    · simp [closing?, hlines, hd]

/-- What a form reads as the given characters is read as these, up to the closing quotes. -/
theorem Encodes.decode?_append {run : Nat} (h : Encodes f run cs text)
    (hrest : rest.head? ≠ some f.quote) :
    decode? f .text (text ++ (f.quotes ++ rest)) = some (cs, rest) := by
  induction h with
  | nil => exact decode?_closing (Nat.zero_le _) hrest
  | @quote run cs text hrun htext ih =>
    obtain ⟨k, hk, ⟨rfl, rfl⟩ | ⟨d, more, hd, rfl⟩⟩ := htext.run_or_more hrun
    · exact decode?_closing (k := k + 1) (by omega) hrest
    · have hclosing : closing? f f.quote
          (List.replicate k f.quote ++ d :: more ++ (f.quotes ++ rest)) = none := by
        rw [List.append_assoc, List.cons_append]
        exact closing?_of_run (by omega) hd
      have hquote : isText f.quote := by cases f <;> decide
      rw [List.cons_append,
        decode?_cons hclosing (fun hmark => quote_ne_mark hmark.1) (.inl hquote), ih]
      rfl
  | plain hquote hmark hc _ ih =>
    rw [List.cons_append, decode?_cons (closing?_of_ne hquote) hmark hc, ih]
    rfl
  | escape hf hc _ ih =>
    rw [List.append_assoc, decode?_escape hf hc, ih]
    rfl

/-! ## The writer -/

/-- What is no text is in front of the printable characters, or the last one of seven bits. -/
theorem lt_of_not_isText (h : !isText c) : c.toNat < 0x80 := by
  by_contra hlarge
  have htext : isText c := by
    simp only [isText, Bool.or_eq_true, Bool.and_eq_true, decide_eq_true_eq, bne_iff_ne]
    omega
  simp [htext] at h

/-- A form with escapes can be used for every text. -/
theorem encodes_encodeBasic {run : Nat} (hf : f.hasEscapes) :
    Encodes f run cs (encodeBasic f run cs) := by
  induction cs generalizing run with
  | nil => exact .nil
  | cons c cs ih =>
    rw [encodeBasic]
    by_cases hquote : c = f.quote
    · rw [if_pos hquote]
      split
      next hrun => exact hquote ▸ .quote hrun ih
      next => exact .escape hf (hquote ▸ quote_lt) ih
    rw [if_neg hquote]
    split
    next hbreak =>
      have hmark : ¬(c = mark ∧ f.hasEscapes) := fun h =>
        absurd (hbreak.1.symm.trans h.1) (by decide)
      exact .plain hquote hmark (.inr hbreak.symm) ih
    split
    next hescape =>
      refine .escape hf ?_ ih
      rcases hescape with rfl | rfl | htext
      · decide
      · decide
      · exact lt_of_not_isText htext
    next hescape =>
      obtain ⟨hmark, htext⟩ := not_or.mp hescape
      exact .plain hquote (fun h => hmark h.1) (.inl (by simpa using (not_or.mp htext).2)) ih

theorem le_longestRun_go {q : Char} {longest run : Nat} :
    longest ≤ longestRun.go q longest run cs := by
  induction cs generalizing longest run with
  | nil => exact Nat.le_refl _
  | cons c cs ih =>
    rw [longestRun.go]
    split
    · exact Nat.le_trans (Nat.le_max_left ..) ih
    · exact ih

/-- A text without escapes stands for itself, if its quotes are few enough, and the other
characters such as the form may have. -/
theorem encodes_self {longest run : Nat} (hf : f.hasEscapes = false)
    (hchars : ∀ c ∈ cs, isText c ∨ (f.hasLines ∧ c = '\n'))
    (hrun : longestRun.go f.quote longest run cs ≤ f.allowedRun) : Encodes f run cs cs := by
  induction cs generalizing longest run with
  | nil => exact .nil
  | cons c cs ih =>
    have hcs := fun d hd => hchars d (List.mem_cons_of_mem c hd)
    rw [longestRun.go] at hrun
    split at hrun
    next hquote =>
      have hlt : run < f.allowedRun :=
        Nat.le_trans (Nat.le_trans (Nat.le_max_right ..) le_longestRun_go) hrun
      exact hquote ▸ .quote hlt (ih hcs hrun)
    next hquote =>
      exact .plain hquote (by simp [hf]) (hchars c List.mem_cons_self) (ih hcs hrun)

theorem isText_or_break (h : cs.any isCode = false) : ∀ c ∈ cs, isText c ∨ c = '\n' := by
  intro c hc
  have hcode := List.any_eq_false.mp h c hc
  simp only [isCode, Bool.and_eq_true, Bool.not_eq_true', bne_iff_ne, not_and, not_not] at hcode
  exact Classical.or_iff_not_imp_left.mpr fun htext => hcode (Bool.eq_false_iff.mpr htext)

/-- A form without escapes is picked only for a text that needs none. -/
theorem of_choose (hchoose : Form.choose cs = f) (hf : f.hasEscapes = false) :
    (∀ c ∈ cs, isText c ∨ (f.hasLines ∧ c = '\n')) ∧ longestRun f.quote cs ≤ f.allowedRun := by
  simp only [Form.choose] at hchoose
  split at hchoose
  · exact absurd hf (hchoose ▸ by decide)
  split at hchoose
  next h =>
    simp only [Bool.and_eq_true, Bool.not_eq_true', beq_iff_eq] at h
    obtain ⟨⟨hcodes, hrun⟩, hlines⟩ := h
    have hbreak : '\n' ∉ cs := by simpa using hlines
    subst hchoose
    refine ⟨fun c hc => .inl ((isText_or_break hcodes c hc).resolve_right ?_), Nat.le_of_eq hrun⟩
    rintro rfl
    exact hbreak hc
  split at hchoose
  · exact absurd hf (hchoose ▸ by decide)
  split at hchoose
  next h =>
    simp only [Bool.and_eq_true, Bool.not_eq_true', decide_eq_true_eq] at h
    obtain ⟨hcodes, hrun⟩ := h
    subst hchoose
    exact ⟨fun c hc => (isText_or_break hcodes c hc).imp_right fun hbreak => ⟨rfl, hbreak⟩, hrun⟩
  split at hchoose
  · exact absurd hf (hchoose ▸ by decide)
  · exact absurd hf (hchoose ▸ by decide)

/-- What is written between the quotes, behind a line break perhaps. -/
theorem encodes_encodeBody (hchoose : Form.choose cs = f) :
    ∃ text, Encodes f 0 cs text ∧
      encodeBody f cs = (if f.hasLines && cs.contains '\n' then ['\n'] else []) ++ text := by
  refine ⟨_, ?_, rfl⟩
  cases hf : f.hasEscapes with
  | true => exact encodes_encodeBasic hf
  | false =>
    obtain ⟨hchars, hrun⟩ := of_choose hchoose hf
    exact encodes_self hf hchars hrun

/-! ## The opening quotes -/

/-- A single quote opens a string of one line, unless two more of its kind follow. -/
theorem open?_of_one (hf : f.hasLines = false) (h : ∀ more, text ≠ f.quote :: f.quote :: more) :
    open? (f.quotes ++ text) = some (f, text) := by
  cases f with
  | basicLines | literalLines => cases hf
  | basic | literal =>
    simp only [Form.quotes, hf, Bool.false_eq_true, if_false, List.replicate_one,
      List.singleton_append, Form.quote] at h ⊢
    rw [open?.eq_def]
    split
    all_goals simp_all

theorem open?_of_lines (hf : f.hasLines) : open? (f.quotes ++ text) =
    some (f, open?.dropBreak text) := by
  cases f with
  | basic | literal => cases hf
  | basicLines | literalLines => rfl

theorem dropBreak_of_ne (h : text.head? ≠ some '\n') : open?.dropBreak text = text := by
  rw [open?.dropBreak.eq_def]
  split
  next => exact absurd rfl h
  next => rfl

variable {s : String}

theorem toList_encode {f : Form} (hchoose : Form.choose s.toList = f) :
    (encode s).toList = f.quotes ++ encodeBody f s.toList ++ f.quotes := by
  subst hchoose
  exact String.toList_ofList

/-- The opening quotes are taken off what was written, and the line break behind them. -/
theorem open?_encodeBody (hchoose : Form.choose cs = f) (hrest : rest.head? ≠ some f.quote) :
    ∃ text, Encodes f 0 cs text ∧
      open? (f.quotes ++ (encodeBody f cs ++ (f.quotes ++ rest))) =
        some (f, text ++ (f.quotes ++ rest)) := by
  obtain ⟨text, h, hbody⟩ := encodes_encodeBody hchoose
  rw [hbody]
  refine ⟨text, h, ?_⟩
  cases hlines : f.hasLines with
  | false =>
    refine open?_of_one hlines fun more hmore => ?_
    cases text with
    | nil =>
      rw [quotes_of_one hlines] at hmore
      exact hrest (congrArg List.head? (List.cons.inj hmore).2)
    | cons c text =>
      have hlt := h.run_lt (congrArg some (List.cons.inj hmore).1)
      exact absurd (allowedRun_of_one hlines ▸ hlt) (Nat.not_lt_zero 0)
  | true =>
    rw [open?_of_lines hlines, Bool.true_and]
    cases hbreak : cs.contains '\n' with
    | true => rfl
    | false =>
      refine congrArg (fun text => some (f, text)) (dropBreak_of_ne ?_)
      cases text with
      | nil =>
        rw [quotes_of_lines hlines]
        exact fun hhead => quote_ne_break (Option.some.inj hhead)
      | cons c text =>
        exact fun hhead => absurd (h.mem_of_head? hhead) (by simpa using hbreak)

/-- Every text is read as it was written, up to the closing quotes. -/
theorem read?_encode (hrest : ∀ f : Form, rest.head? ≠ some f.quote) :
    read? ((encode s).toList ++ rest) = some (s, rest) := by
  generalize hchoose : Form.choose s.toList = f
  obtain ⟨text, htext, hopen⟩ := open?_encodeBody hchoose (hrest f)
  rw [toList_encode hchoose, List.append_assoc, List.append_assoc, read?, hopen]
  simp only [Option.bind_eq_bind, Option.bind_some, htext.decode?_append (hrest f),
    Option.pure_def, String.ofList_toList]

example : encode "it's \"here\"\n" = "\"\"\"\nit's \"here\"\n\"\"\"" := by decide

example : encode "c:\\\r" = "\"c:\\\\\\r\"" := by decide

/-! ## The characters of a written string -/

theorem exists_encode : ∃ (f : Form) (more : List Char), (encode s).toList = f.quote :: more := by
  obtain ⟨more, hmore⟩ : ∃ more, (Form.choose s.toList).quotes =
      (Form.choose s.toList).quote :: more := by
    cases hlines : (Form.choose s.toList).hasLines with
    | false => exact ⟨_, quotes_of_one hlines⟩
    | true => exact ⟨_, quotes_of_lines hlines⟩
  exact ⟨_, _, (toList_encode rfl).trans (by rw [hmore, List.cons_append, List.cons_append])⟩

theorem hexDigit_ne_return {n : Nat} (h : n < 16) : hexDigit n ≠ '\r' := by
  interval_cases n <;> decide

theorem return_notMem_escape (hc : c.toNat < 0x80) : '\r' ∉ escape c := by
  rw [escape]
  split
  next e he =>
    have hall : ∀ e ∈ shortEscapes, '\r' ∉ [mark, e.1] := by decide
    exact hall e (List.mem_of_find?_eq_some he)
  next =>
    have hdigit : ∀ n, '\r' ≠ hexDigit (n % 0x10) :=
      fun n => (hexDigit_ne_return (Nat.mod_lt n (by decide))).symm
    have hfirst : '\r' ≠ hexDigit (c.toNat / 0x1000) := (hexDigit_ne_return (by omega)).symm
    simp [hdigit, hfirst, mark]

theorem Encodes.return_notMem {run : Nat} (h : Encodes f run cs text) : '\r' ∉ text := by
  induction h with
  | nil => exact List.not_mem_nil
  | quote _ _ ih => exact List.not_mem_cons_of_ne_of_not_mem return_ne_quote ih
  | plain _ _ hc _ ih =>
    refine List.not_mem_cons_of_ne_of_not_mem ?_ ih
    rintro rfl
    exact hc.elim (by decide) fun hbreak => absurd hbreak.2 (by decide)
  | escape _ hc _ ih =>
    exact fun hmem => (List.mem_append.mp hmem).elim (return_notMem_escape hc) ih

/-- No carriage return is written; for the one in a text there is an escape. -/
theorem return_notMem_encode : '\r' ∉ (encode s).toList := by
  generalize hchoose : Form.choose s.toList = f
  obtain ⟨text, htext, hbody⟩ := encodes_encodeBody hchoose
  have hquotes : '\r' ∉ f.quotes := fun h => return_ne_quote (List.eq_of_mem_replicate h)
  have hbreak : '\r' ∉ (if f.hasLines && s.toList.contains '\n' then ['\n'] else []) := by
    split
    · decide
    · decide
  rw [toList_encode hchoose, hbody]
  simp only [List.mem_append, not_or]
  exact ⟨⟨hquotes, hbreak, htext.return_notMem⟩, hquotes⟩

end GraphQuery.Toml.Quoted
