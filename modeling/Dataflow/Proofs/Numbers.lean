import Dataflow.Json.Reader
import Dataflow.Proofs.Strings

/-! # Written numbers are read back

A number has no closing character: it goes on as long as the text does, so what follows a written
number must not go on with it. Integers are read back exactly. Whether a double is read back as the
same bits is a property of its digits; what is shown here is that the digits read the same with and
without text behind them, and that they are never taken for an integer.

* `Token.Ends`: text that does not go on with a number.
* `Token.number_write_integer`: a written integer is read as that integer.
* `Token.number_append`: what is read from a number does not depend on the text after it.
* `Token.number_eq_double`: a text with a point or an exponent is read as a double.
-/

namespace Dataflow.Json

namespace Token

/-! ## Text that does not go on with a digit -/

section
variable {rest : List Char} (hrest : startsWithDigit rest = false)
include hrest

theorem takeWhile_append (cs : List Char) :
    (cs ++ rest).takeWhile Char.isDigit = cs.takeWhile Char.isDigit := by
  induction cs with
  | nil =>
    cases rest with
    | nil => rfl
    | cons c rest => exact List.takeWhile_cons_of_neg (Bool.eq_false_iff.1 hrest)
  | cons c cs ih => simp only [List.cons_append, List.takeWhile_cons, ih]

theorem dropWhile_append (cs : List Char) :
    (cs ++ rest).dropWhile Char.isDigit = cs.dropWhile Char.isDigit ++ rest := by
  induction cs with
  | nil =>
    cases rest with
    | nil => rfl
    | cons c rest => exact List.dropWhile_cons_of_neg (Bool.eq_false_iff.1 hrest)
  | cons c cs ih =>
    simp only [List.cons_append, List.dropWhile_cons, ih]
    split <;> rfl

theorem startsWithDigit_append (cs : List Char) :
    startsWithDigit (cs ++ rest) = startsWithDigit cs := by
  cases cs with
  | nil => exact hrest
  | cons c cs => rfl

theorem accumulate_append (n : Nat) (cs : List Char) :
    accumulate n (cs ++ rest) = ((accumulate n cs).1, (accumulate n cs).2 ++ rest) := by
  induction cs generalizing n with
  | nil =>
    cases rest with
    | nil => rfl
    | cons c rest =>
      have hc : c.isDigit = false := hrest
      simp [accumulate, digit?, hc]
  | cons c cs ih =>
    simp only [List.cons_append, accumulate]
    split
    · split
      · exact ih _
      · rfl
    · rfl

end

/-! ## The end of a number -/

/-- Text that does not go on with a number. -/
def Ends (rest : List Char) : Prop :=
  ∀ c ∈ rest.head?, c.isDigit = false ∧ c ≠ '.' ∧ c ≠ 'e' ∧ c ≠ 'E'

theorem Ends.nil : Ends [] := by simp [Ends]

theorem Ends.startsWithDigit {rest : List Char} (h : Ends rest) :
    startsWithDigit rest = false := by
  cases rest with
  | nil => rfl
  | cons c rest => exact (h c rfl).1

theorem Ends.afterInteger {rest : List Char} (h : Ends rest) (negative : Bool) (n dropped : Nat) :
    afterInteger negative n dropped rest =
      if dropped = 0 then .ok (integerNumber negative n, rest)
      else scaled negative n dropped rest := by
  unfold Token.afterInteger
  split
  · exact absurd rfl (h _ rfl).2.1
  · exact absurd rfl (h _ rfl).2.2.1
  · exact absurd rfl (h _ rfl).2.2.2
  · rfl

theorem Ends.optionalExponent {rest : List Char} (h : Ends rest) (negative : Bool) (n : Nat)
    (e : Int) : optionalExponent negative n e rest = scaled negative n e rest := by
  unfold Token.optionalExponent
  split
  · exact absurd rfl (h _ rfl).2.2.1
  · exact absurd rfl (h _ rfl).2.2.2
  · rfl

/-! ## Integers -/

theorem le_ofDigitChars (ds : List Char) (n : Nat) : n ≤ Nat.ofDigitChars 10 ds n := by
  induction ds generalizing n with
  | nil => exact Nat.le_refl n
  | cons d ds ih =>
    rw [Nat.ofDigitChars_cons]
    have := ih (10 * n + (d.toNat - '0'.toNat))
    omega

theorem accumulate_digit {d : Char} (hd : d.isDigit = true) (n : Nat) (cs : List Char) :
    accumulate n (d :: cs) =
      if 10 * n + (d.toNat - '0'.toNat) < Nat.pow 2 64 then
        accumulate (10 * n + (d.toNat - '0'.toNat)) cs
      else (n, d :: cs) := by
  have hdigit : digit? d = some (d.toNat - '0'.toNat) := if_pos hd
  rw [accumulate, hdigit, Nat.mul_comm 10 n]

/-- Digits whose number fits 64 bits are all taken into the significand. -/
theorem accumulate_digits {ds rest : List Char} {n : Nat} (hds : ∀ d ∈ ds, d.isDigit = true)
    (hfits : Nat.ofDigitChars 10 ds n < Nat.pow 2 64) (hrest : startsWithDigit rest = false) :
    accumulate n (ds ++ rest) = (Nat.ofDigitChars 10 ds n, rest) := by
  induction ds generalizing n with
  | nil => exact accumulate_append hrest n []
  | cons d ds ih =>
    obtain ⟨hd, hds⟩ := List.forall_mem_cons.1 hds
    rw [Nat.ofDigitChars_cons] at hfits ⊢
    have hle := le_ofDigitChars ds (10 * n + (d.toNat - '0'.toNat))
    rw [List.cons_append, accumulate_digit hd, if_pos (Nat.lt_of_le_of_lt hle hfits)]
    exact ih hds hfits

theorem accumulate_eq_of_nil {ds : List Char} {n : Nat} (hn : n < Nat.pow 2 64)
    (hds : ∀ d ∈ ds, d.isDigit = true) (h : (accumulate n ds).2 = []) :
    (accumulate n ds).1 = Nat.ofDigitChars 10 ds n ∧ Nat.ofDigitChars 10 ds n < Nat.pow 2 64 := by
  induction ds generalizing n with
  | nil => exact ⟨rfl, hn⟩
  | cons d ds ih =>
    obtain ⟨hd, hds⟩ := List.forall_mem_cons.1 hds
    rw [accumulate_digit hd] at h ⊢
    rw [Nat.ofDigitChars_cons]
    split at h
    · rename_i hfits
      rw [if_pos hfits]
      exact ih hfits hds h
    · cases h

theorem digitChars_of_pos {n : Nat} (h : 0 < n) :
    ∃ d ds, Decimal.digitChars n = d :: ds ∧ d.isDigit = true ∧ d ≠ '0' := by
  induction n using Nat.strongRecOn with
  | _ n ih =>
    unfold Decimal.digitChars at ih ⊢
    by_cases hn : n < 10
    · refine ⟨n.digitChar, [], Nat.toDigits_of_lt_base hn, ?_, ?_⟩
      · simpa using hn
      · simpa using Nat.ne_of_gt h
    · obtain ⟨d, ds, hds, hd⟩ := ih (n / 10) (by omega) (by omega)
      exact ⟨d, ds ++ [(n % 10).digitChar],
        by rw [Nat.toDigits_of_base_le (by omega) (by omega), hds]; rfl, hd⟩

theorem isDigit_of_mem_digitChars {n : Nat} {d : Char} (h : d ∈ Decimal.digitChars n) :
    d.isDigit = true :=
  Nat.isDigit_of_mem_toDigits (by omega) (by omega) h

/-- The digits of a number that fits 64 bits are read as that number. -/
theorem unsignedNumber_digitChars (negative : Bool) {n : Nat} (hn : n < Nat.pow 2 64)
    {rest : List Char} (hrest : Ends rest) :
    unsignedNumber negative (Decimal.digitChars n ++ rest) =
      .ok (integerNumber negative n, rest) := by
  rcases Nat.eq_zero_or_pos n with rfl | hpos
  · show unsignedNumber negative ('0' :: rest) = _
    rw [unsignedNumber, hrest.startsWithDigit, hrest.afterInteger]
    rfl
  · have hvalue : Nat.ofDigitChars 10 (Decimal.digitChars n) 0 = n := Nat.ofDigitChars_ten_toDigits
    have hdigits : ∀ d ∈ Decimal.digitChars n, d.isDigit = true :=
      fun _ => isDigit_of_mem_digitChars
    have hend := hrest.startsWithDigit
    have htake : rest.takeWhile Char.isDigit = [] := takeWhile_append hend []
    have hdrop : rest.dropWhile Char.isDigit = rest := dropWhile_append hend []
    have hall := accumulate_digits hdigits (by rwa [hvalue]) hend
    obtain ⟨d, ds, hds, hdigit, hzero⟩ := digitChars_of_pos hpos
    rw [hvalue, hds] at hall
    rw [hds, List.cons_append, unsignedNumber]
    · rw [← List.cons_append, hall]
      simp [hdigit, htake, hdrop, hrest.afterInteger]
    · exact hzero

/-- A written integer is read as that integer. -/
theorem number_write_integer {n : Number} (hn : ∀ x, n ≠ .double x) {rest : List Char}
    (hrest : Ends rest) : number (n.write ++ rest) = .ok (n, rest) := by
  cases n with
  | natural n =>
    have hread := unsignedNumber_digitChars false n.toNat_lt hrest
    have hsign : ∀ cs, Decimal.digitChars n.toNat ++ rest ≠ '-' :: cs := by
      intro cs h
      rw [h] at hread
      cases hread
    show number (Decimal.digitChars n.toNat ++ rest) = _
    rw [number]
    · simpa [integerNumber] using hread
    · exact hsign
  | negative n =>
    have hfits : n.val + 1 < Nat.pow 2 64 := Nat.lt_trans (Nat.succ_lt_succ n.isLt) (by decide)
    show unsignedNumber true (Decimal.digitChars (n.val + 1) ++ rest) = _
    rw [unsignedNumber_digitChars true hfits hrest]
    have hrange : 0 < n.val + 1 ∧ n.val + 1 ≤ 9223372036854775808 := by omega
    simp [integerNumber, hrange]
  | double x => exact absurd rfl (hn x)

/-! ## The parts of a double

The fraction and the exponent of a number make it a double. Each of their readers ends in `scaled`,
and none looks further than the number goes. -/

variable {rest : List Char}

/-- A reader of the end of a number that makes it a double, whatever follows the number. -/
def MakesDouble (read : List Char → Step Number) : Prop :=
  ∀ {cs n tail}, read cs = .ok (n, tail) →
    (∃ x, n = .double x) ∧ ∀ {rest}, Ends rest → read (cs ++ rest) = .ok (n, tail ++ rest)

/-- An exponent after its sign. -/
def exponentDigits (negative minus : Bool) (n : Nat) (e : Int) : List Char → Step Number
  | [] => .error (.ended .value)
  | c :: cs =>
    if c.isDigit then
      let size : Int := digitsValue ((c :: cs).takeWhile Char.isDigit)
      scaled negative n (if minus then e - size else e + size) ((c :: cs).dropWhile Char.isDigit)
    else .error .invalidNumber

theorem exponentPart_cons (negative : Bool) (n : Nat) (e : Int) (c : Char) (cs : List Char) :
    exponentPart negative n e (c :: cs) =
      if c = '+' then exponentDigits negative false n e cs
      else if c = '-' then exponentDigits negative true n e cs
      else exponentDigits negative false n e (c :: cs) := by
  split
  · subst c
    cases cs <;> rfl
  split
  · subst c
    cases cs <;> rfl
  · rename_i hplus hminus
    unfold exponentPart
    split
    rename_i sign
    split at sign
    · exact absurd (List.cons.inj (by assumption)).1 hplus
    · exact absurd (List.cons.inj (by assumption)).1 hminus
    · cases sign
      rfl

theorem optionalExponent_cons (negative : Bool) (n : Nat) (e : Int) (c : Char) (cs : List Char) :
    optionalExponent negative n e (c :: cs) =
      if c = 'e' ∨ c = 'E' then exponentPart negative n e cs
      else scaled negative n e (c :: cs) := by
  by_cases h : c = 'e' ∨ c = 'E'
  · rcases h with rfl | rfl <;> rfl
  · obtain ⟨hlower, hupper⟩ := not_or.1 h
    rw [if_neg h, optionalExponent]
    · exact fun _ heq => hlower (List.cons.inj heq).1
    · exact fun _ heq => hupper (List.cons.inj heq).1

theorem afterInteger_cons (negative : Bool) (n dropped : Nat) (c : Char) (cs : List Char) :
    afterInteger negative n dropped (c :: cs) =
      if c = '.' then fraction negative n dropped cs
      else if c = 'e' ∨ c = 'E' then exponentPart negative n dropped cs
      else if dropped = 0 then .ok (integerNumber negative n, c :: cs)
      else scaled negative n dropped (c :: cs) := by
  by_cases hpoint : c = '.'
  · subst c
    rfl
  by_cases h : c = 'e' ∨ c = 'E'
  · rcases h with rfl | rfl <;> rfl
  · obtain ⟨hlower, hupper⟩ := not_or.1 h
    rw [if_neg hpoint, if_neg h, afterInteger]
    · exact fun _ heq => hpoint (List.cons.inj heq).1
    · exact fun _ heq => hlower (List.cons.inj heq).1
    · exact fun _ heq => hupper (List.cons.inj heq).1

variable (negative : Bool) (n : Nat) (e : Int)

theorem scaled_makesDouble : MakesDouble (scaled negative n e) := by
  intro cs m tail h
  unfold scaled at h ⊢
  split at h
  · cases h
  · cases h
    exact ⟨⟨_, rfl⟩, fun _ => rfl⟩

theorem exponentDigits_makesDouble (minus : Bool) :
    MakesDouble (exponentDigits negative minus n e) := by
  intro cs m tail h
  cases cs with
  | nil => cases h
  | cons c cs =>
    rw [exponentDigits] at h
    split at h
    · rename_i hc
      obtain ⟨hdouble, happend⟩ := scaled_makesDouble _ _ _ h
      refine ⟨hdouble, fun hrest => ?_⟩
      rw [List.cons_append, exponentDigits, ← List.cons_append, if_pos hc]
      have hend := hrest.startsWithDigit
      simp only [takeWhile_append hend, dropWhile_append hend]
      exact happend hrest
    · cases h

theorem exponentPart_makesDouble : MakesDouble (exponentPart negative n e) := by
  intro cs m tail h
  cases cs with
  | nil => cases h
  | cons c cs =>
    simp only [List.cons_append, exponentPart_cons] at h ⊢
    by_cases hplus : c = '+'
    · simp only [if_pos hplus] at h ⊢
      exact exponentDigits_makesDouble _ _ _ _ h
    by_cases hminus : c = '-'
    · simp only [if_neg hplus, if_pos hminus] at h ⊢
      exact exponentDigits_makesDouble _ _ _ _ h
    · simp only [if_neg hplus, if_neg hminus] at h ⊢
      exact exponentDigits_makesDouble _ _ _ _ h

theorem optionalExponent_makesDouble : MakesDouble (optionalExponent negative n e) := by
  intro cs m tail h
  cases cs with
  | nil =>
    obtain ⟨hdouble, happend⟩ := scaled_makesDouble negative n e h
    exact ⟨hdouble, fun hrest => (hrest.optionalExponent negative n e).trans (happend hrest)⟩
  | cons c cs =>
    simp only [List.cons_append, optionalExponent_cons] at h ⊢
    by_cases hmark : c = 'e' ∨ c = 'E'
    · simp only [if_pos hmark] at h ⊢
      exact exponentPart_makesDouble _ _ _ h
    · simp only [if_neg hmark] at h ⊢
      exact scaled_makesDouble _ _ _ h

theorem fraction_eq (cs : List Char) :
    fraction negative n e cs =
      if cs.length - (accumulate n cs).2.length = 0 ∧ ¬ startsWithDigit (accumulate n cs).2 then
        .error (if (accumulate n cs).2 = [] then .ended .value else .invalidNumber)
      else
        optionalExponent negative (accumulate n cs).1
          (e - ((cs.length - (accumulate n cs).2.length : Nat) : Int))
          ((accumulate n cs).2.dropWhile Char.isDigit) := rfl

theorem fraction_makesDouble : MakesDouble (fraction negative n e) := by
  intro cs m tail h
  rw [fraction_eq] at h
  split at h
  · cases h
  · rename_i hdigits
    obtain ⟨hdouble, happend⟩ := optionalExponent_makesDouble _ _ _ h
    refine ⟨hdouble, fun {rest} hrest => ?_⟩
    have hplaces : (cs ++ rest).length - ((accumulate n cs).2 ++ rest).length =
        cs.length - (accumulate n cs).2.length := by
      simp only [List.length_append]
      omega
    have hend := hrest.startsWithDigit
    simp only [fraction_eq, accumulate_append hend, hplaces, startsWithDigit_append hend,
      dropWhile_append hend, if_neg hdigits]
    exact happend hrest

/-! ## Whole numbers -/

variable {negative n e} {cs tail : List Char} {m : Number}

theorem afterInteger_append (hrest : Ends rest) {dropped : Nat}
    (h : afterInteger negative n dropped cs = .ok (m, tail)) :
    afterInteger negative n dropped (cs ++ rest) = .ok (m, tail ++ rest) := by
  cases cs with
  | nil =>
    rw [Ends.nil.afterInteger] at h
    rw [List.nil_append, hrest.afterInteger]
    split at h
    · rw [if_pos ‹_›]
      cases h
      rfl
    · rw [if_neg ‹_›]
      exact (scaled_makesDouble _ _ _ h).2 hrest
  | cons c cs =>
    rw [afterInteger_cons] at h
    rw [List.cons_append, afterInteger_cons]
    split at h
    · rw [if_pos ‹_›]
      exact (fraction_makesDouble _ _ _ h).2 hrest
    split at h
    · rw [if_neg ‹_›, if_pos ‹_›]
      exact (exponentPart_makesDouble _ _ _ h).2 hrest
    rw [if_neg ‹_›, if_neg ‹_›]
    split at h
    · rw [if_pos ‹_›]
      cases h
      rfl
    · rw [if_neg ‹_›]
      exact (scaled_makesDouble _ _ _ h).2 hrest

theorem unsignedNumber_append (hrest : Ends rest)
    (h : unsignedNumber negative cs = .ok (m, tail)) :
    unsignedNumber negative (cs ++ rest) = .ok (m, tail ++ rest) := by
  unfold unsignedNumber at h
  split at h
  · cases h
  · split at h
    · cases h
    · rename_i hdigit
      rw [List.cons_append, unsignedNumber, startsWithDigit_append hrest.startsWithDigit,
        if_neg hdigit]
      exact afterInteger_append hrest h
  · rename_i c cs hzero
    split at h
    · rename_i hdigit
      rw [List.cons_append, unsignedNumber, if_pos hdigit, ← List.cons_append]
      · have hend := hrest.startsWithDigit
        simp only [accumulate_append hend, takeWhile_append hend, dropWhile_append hend]
        exact afterInteger_append hrest h
      · exact hzero
    · cases h

/-- **What is read from a number** does not depend on text behind it that does not go on with it. -/
theorem number_append (hrest : Ends rest) (h : number cs = .ok (m, tail)) :
    number (cs ++ rest) = .ok (m, tail ++ rest) := by
  unfold number at h
  split at h
  · exact unsignedNumber_append hrest h
  · rename_i hsign
    have hread := unsignedNumber_append hrest h
    cases cs with
    | nil => cases h
    | cons c cs =>
      rw [List.cons_append, number]
      · exact hread
      · exact fun _ heq => hsign cs (by rw [(List.cons.inj heq).1])

/-! ## Integers and doubles -/

theorem afterInteger_double_or {dropped : Nat}
    (h : afterInteger negative n dropped cs = .ok (m, tail)) :
    (∃ x, m = .double x) ∨ cs = tail := by
  unfold afterInteger at h
  split at h
  · exact .inl (fraction_makesDouble _ _ _ h).1
  · exact .inl (exponentPart_makesDouble _ _ _ h).1
  · exact .inl (exponentPart_makesDouble _ _ _ h).1
  · split at h
    · cases h
      exact .inr rfl
    · exact .inl (scaled_makesDouble _ _ _ h).1

theorem mem_accumulate {c : Char} (hc : c ∈ cs) (n : Nat) :
    c.isDigit = true ∨ c ∈ (accumulate n cs).2 := by
  induction cs generalizing n with
  | nil => cases hc
  | cons d ds ih =>
    unfold accumulate
    split
    · rename_i hd
      split
      · rcases List.mem_cons.1 hc with rfl | hc
        · refine .inl (Decidable.byContradiction fun hdigit => ?_)
          rw [digit?, if_neg hdigit] at hd
          cases hd
        · exact ih hc _
      · exact .inr hc
    · exact .inr hc

theorem mem_dropWhile_isDigit {c : Char} (hc : c ∈ cs) :
    c.isDigit = true ∨ c ∈ cs.dropWhile Char.isDigit := by
  induction cs with
  | nil => cases hc
  | cons d ds ih =>
    by_cases hd : d.isDigit = true
    · rw [List.dropWhile_cons_of_pos hd]
      rcases List.mem_cons.1 hc with rfl | hc
      · exact .inl hd
      · exact ih hc
    · rw [List.dropWhile_cons_of_neg hd]
      exact .inr hc

theorem unsignedNumber_double_or (h : unsignedNumber negative cs = .ok (m, tail)) :
    (∃ x, m = .double x) ∨ ∀ c ∈ cs, c.isDigit = true ∨ c ∈ tail := by
  unfold unsignedNumber at h
  split at h
  · cases h
  · split at h
    · cases h
    · refine (afterInteger_double_or h).imp_right fun heq c hc => ?_
      rcases List.mem_cons.1 hc with rfl | hc
      · exact .inl rfl
      · exact .inr (heq ▸ hc)
  · split at h
    · refine (afterInteger_double_or h).imp_right fun heq c hc => ?_
      rcases mem_accumulate hc 0 with hdigit | hc
      · exact .inl hdigit
      · exact heq ▸ mem_dropWhile_isDigit hc
    · cases h

/-- A number with a point or an exponent is a double. -/
theorem number_eq_double (h : number cs = .ok (m, [])) (hmark : '.' ∈ cs ∨ 'e' ∈ cs) :
    ∃ x, m = .double x := by
  have key {negative : Bool} {cs : List Char} (h : unsignedNumber negative cs = .ok (m, []))
      (hmark : '.' ∈ cs ∨ 'e' ∈ cs) : ∃ x, m = .double x := by
    refine (unsignedNumber_double_or h).resolve_right fun hall => ?_
    rcases hmark with hmark | hmark
    · simpa using hall _ hmark
    · simpa using hall _ hmark
  unfold number at h
  split at h
  · exact key h (by simpa using hmark)
  · exact key h hmark

end Token

/-! ## Printed doubles -/

/-- Printed digits start with a digit and go on with a point or an exponent. -/
def Fractional (text : String) : Prop :=
  ∃ c cs, text.toList = c :: cs ∧ c.isDigit = true ∧ ('.' ∈ cs ∨ 'e' ∈ cs)

theorem digitChars_eq_cons (n : Nat) :
    ∃ d ds, Decimal.digitChars n = d :: ds ∧ d.isDigit = true := by
  cases h : Decimal.digitChars n with
  | nil => exact absurd h Nat.toDigits_ne_nil
  | cons d ds => exact ⟨d, ds, rfl, Token.isDigit_of_mem_digitChars (h ▸ List.mem_cons_self)⟩

theorem positional_fractional (d : Decimal.Digits) : Fractional (Decimal.positional true d) := by
  obtain ⟨c, cs, hdigits, hc⟩ := digitChars_eq_cons d.coefficient
  unfold Decimal.positional
  simp only [hdigits]
  split
  · exact ⟨c, _, String.toList_ofList, hc, .inl (by simp)⟩
  split
  · rename_i hplaces
    obtain ⟨k, hk⟩ := Nat.exists_eq_add_of_lt hplaces
    have hwhole : (c :: cs).length - (-d.exponent).toNat = k + 1 := by omega
    rw [hwhole]
    exact ⟨c, _, String.toList_ofList, hc, .inl (by simp)⟩
  · exact ⟨'0', _, String.toList_ofList, rfl, .inl (by simp)⟩

theorem scientific_fractional (d : Decimal.Digits) : Fractional (Decimal.scientific d) := by
  obtain ⟨c, cs, hdigits, hc⟩ := digitChars_eq_cons d.coefficient
  unfold Decimal.scientific
  simp only [hdigits]
  cases cs with
  | nil => exact ⟨c, _, String.toList_ofList, hc, .inr (by simp)⟩
  | cons c' cs => exact ⟨c, _, String.toList_ofList, hc, .inr (by simp)⟩

/-- A printed double starts like a number and has a point or an exponent. -/
theorem doubleText_eq {x : Binary64} (hx : x.isFinite = true) :
    ∃ c cs, (doubleText x).toList = c :: cs ∧ Reader.startsNumber c = true ∧
      ('.' ∈ cs ∨ 'e' ∈ cs) := by
  have signed (negative : Bool) {text : String} (h : Fractional text) :
      ∃ c cs, ((if negative then "-" else "") ++ text).toList = c :: cs ∧
        Reader.startsNumber c = true ∧ ('.' ∈ cs ∨ 'e' ∈ cs) := by
    obtain ⟨c, cs, htext, hc, hmark⟩ := h
    cases negative with
    | false => exact ⟨c, cs, by simpa using htext, by simp [Reader.startsNumber, hc], hmark⟩
    | true =>
      exact ⟨'-', c :: cs, by simp [htext], rfl,
        hmark.imp (List.mem_cons_of_mem _) (List.mem_cons_of_mem _)⟩
  unfold doubleText
  cases hparts : x.parts with
  | nan => simp [Binary64.isFinite, hparts] at hx
  | infinite negative => simp [Binary64.isFinite, hparts] at hx
  | finite negative m q =>
    by_cases hm : m = 0
    · simp only [if_pos hm]
      exact signed negative ⟨'0', ['.', '0'], rfl, rfl, .inl (by simp)⟩
    · simp only [if_neg hm]
      refine signed negative ?_
      split
      · exact positional_fractional _
      · exact scientific_fractional _

theorem isBlank_of_startsNumber {c : Char} (h : Reader.startsNumber c = true) :
    Token.isBlank c = false := by
  have hne (b : Char) (hb : Reader.startsNumber b = false) : c ≠ b := by
    rintro rfl
    cases h.symm.trans hb
  simp [Token.isBlank, hne ' ' rfl, hne '\n' rfl, hne '\t' rfl, hne '\r' rfl]

end Dataflow.Json

namespace Dataflow

open Json Json.Token

/-- A finite double whose printed digits read back as the same bits. Not every finite double is one:
a significand is rounded before it is scaled, which may end at a neighbour. -/
structure Binary64.RoundTrips (x : Binary64) : Prop where
  finite : x.isFinite = true
  readsBack : Reader.binary64 (doubleText x).toList = .ok (x, [])

/-- A printed double that reads back as the same bits does so with any text behind it, and it
is read as a double also where an integer would do. -/
theorem Json.number_doubleText {x : Binary64} (hx : x.RoundTrips) {rest : List Char}
    (hrest : Ends rest) :
    Token.number ((doubleText x).toList ++ rest) = .ok (.double x, rest) := by
  obtain ⟨c, cs, htext, hc, hmark⟩ := doubleText_eq hx.finite
  have hread := hx.readsBack
  rw [htext, Reader.binary64, dropBlank_cons (isBlank_of_startsNumber hc)] at hread
  simp only [if_pos hc] at hread
  obtain ⟨m, tail, hnumber, hm⟩ := Step.andThen_eq_ok hread
  simp only [Except.ok.injEq, Prod.mk.injEq] at hm
  obtain ⟨hm, rfl⟩ := hm
  obtain ⟨y, rfl⟩ := number_eq_double hnumber
    (hmark.imp (List.mem_cons_of_mem _) (List.mem_cons_of_mem _))
  obtain rfl : y = x := hm
  rw [htext]
  exact number_append hrest hnumber

/-- **A written number** is read as that number. -/
theorem Json.number_write {n : Json.Number} (hn : ∀ x, n = .double x → x.RoundTrips)
    {rest : List Char} (hrest : Ends rest) : Token.number (n.write ++ rest) = .ok (n, rest) := by
  by_cases h : ∃ x, n = .double x
  · obtain ⟨x, rfl⟩ := h
    exact number_doubleText (hn x rfl) hrest
  · exact number_write_integer (fun x hx => h ⟨x, hx⟩) hrest

/-- A number starts like one, and a double that is none is written as `null`. -/
theorem Json.Number.write_eq (n : Json.Number) :
    (∃ c cs, n.write = c :: cs ∧ Reader.startsNumber c = true) ∨
      n.write = ['n', 'u', 'l', 'l'] ∧ ∃ x, n = .double x ∧ x.isFinite = false := by
  cases n with
  | natural n =>
    obtain ⟨c, cs, hcs, hc⟩ := digitChars_eq_cons n.toNat
    exact .inl ⟨c, cs, hcs, by simp [Reader.startsNumber, hc]⟩
  | negative n => exact .inl ⟨'-', _, rfl, rfl⟩
  | double x =>
    cases hx : x.isFinite with
    | true =>
      obtain ⟨c, cs, hcs, hc, _⟩ := doubleText_eq hx
      exact .inl ⟨c, cs, hcs, hc⟩
    | false =>
      refine .inr ⟨?_, x, rfl, hx⟩
      cases hparts : x.parts with
      | nan => simp [Number.write, doubleText, hparts]
      | infinite negative => simp [Number.write, doubleText, hparts]
      | finite negative m q => simp [Binary64.isFinite, hparts] at hx

end Dataflow
