import Dataflow.Proofs.Numbers

/-!
# The grammar of tokens

What a string and a number are in JSON, as predicates on characters that no reader takes part in.
What is read from a token depends on its characters alone, not on the text behind it
(`stringTail_append`, `number_fixed`), and passing over one ends exactly where it ends
(`skipString_append`, `skipNumber_append`).
-/

namespace Dataflow.Json

open Token

/-! ## Strings -/

/-- The three ranges of hexadecimal digits. -/
def IsHex (c : Char) : Prop :=
  ('0' ≤ c ∧ c ≤ '9') ∨ ('a' ≤ c ∧ c ≤ 'f') ∨ ('A' ≤ c ∧ c ≤ 'F')

/-- The characters of a string, from behind its opening quote up to its closing one. Any four
hexadecimal digits make an escape, a surrogate without a partner included. -/
inductive IsString : List Char → Prop
  | close : IsString ['"']
  | plain {c : Char} {cs : List Char} :
    c ≠ '"' → c ≠ '\\' → 0x20 ≤ c.toNat → IsString cs → IsString (c :: cs)
  | simple {c : Char} {cs : List Char} :
    c ∈ ['"', '\\', '/', 'b', 'f', 'n', 'r', 't'] → IsString cs → IsString ('\\' :: c :: cs)
  | unicode {a b c d : Char} {cs : List Char} :
    IsHex a → IsHex b → IsHex c → IsHex d → IsString cs →
      IsString ('\\' :: 'u' :: a :: b :: c :: d :: cs)

theorem isHex_digitChar {n : Nat} (h : n < 16) : IsHex (Nat.digitChar n) := by
  revert n
  unfold IsHex
  decide

theorem IsString.escaped_append (c : Char) {cs : List Char} (h : IsString cs) :
    IsString (escaped c ++ cs) := by
  unfold escaped
  -- the two-character escapes: quote, backslash and five control characters
  iterate 7
    split
    · exact .simple (by decide) h
  split
  · rename_i hcontrol
    exact .unicode (.inl (by decide)) (.inl (by decide)) (isHex_digitChar (by omega))
      (isHex_digitChar (by omega)) h
  · rename_i hquote hslash _ _ _ _ _ hcontrol
    exact .plain hquote hslash (Nat.le_of_not_lt hcontrol) h

theorem isString_escapedAll (cs : List Char) : IsString (escapedAll cs ++ ['"']) := by
  induction cs with
  | nil => exact .close
  | cons c cs ih =>
    rw [escapedAll, List.append_assoc]
    exact .escaped_append c ih

theorem hexValue?_of_isHex {c : Char} (h : IsHex c) : ∃ n, hexValue? c = some n := by
  unfold hexValue?
  split
  · exact ⟨_, rfl⟩
  split
  · exact ⟨_, rfl⟩
  split
  · exact ⟨_, rfl⟩
  · rename_i hdigit hlower hupper
    rcases h with h | h | h
    · exact absurd h hdigit
    · exact absurd h hlower
    · exact absurd h hupper

theorem hexEscape_of_isHex {a b c d : Char} (ha : IsHex a) (hb : IsHex b) (hc : IsHex c)
    (hd : IsHex d) : ∃ n, ∀ rest, hexEscape (a :: b :: c :: d :: rest) = .ok (n, rest) := by
  obtain ⟨p, hp⟩ := hexValue?_of_isHex ha
  obtain ⟨q, hq⟩ := hexValue?_of_isHex hb
  obtain ⟨r, hr⟩ := hexValue?_of_isHex hc
  obtain ⟨s, hs⟩ := hexValue?_of_isHex hd
  exact ⟨_, fun rest => by rw [hexEscape, hp, hq, hr, hs]⟩

theorem simpleEscape?_of_mem {c : Char} (h : c ∈ ['"', '\\', '/', 'b', 'f', 'n', 'r', 't']) :
    c ≠ 'u' ∧ ∃ e, simpleEscape? c = some e := by
  simp only [List.mem_cons, List.not_mem_nil, or_false] at h
  rcases h with rfl | rfl | rfl | rfl | rfl | rfl | rfl | rfl <;> exact ⟨by decide, _, rfl⟩

theorem skipString_slash {rest after : List Char} (h : skipEscape rest = .ok after) :
    skipString ('\\' :: rest) = skipString after := by
  rw [skipString]
  split
  · rename_i heq
    cases h.symm.trans heq
  · rename_i heq
    cases h.symm.trans heq
    rfl

/-- Passing over a string ends behind its closing quote. -/
theorem skipString_append {cs : List Char} (h : IsString cs) (rest : List Char) :
    skipString (cs ++ rest) = .ok rest := by
  induction h with
  | close => rw [List.cons_append, skipString, List.nil_append]
  | plain hquote hslash hcontrol _ ih =>
    rw [List.cons_append, skipString, if_neg (Nat.not_lt.2 hcontrol), ih]
    · exact hquote
    · exact hslash
  | @simple c cs hc _ ih =>
    obtain ⟨hu, e, he⟩ := simpleEscape?_of_mem hc
    have hskip : skipEscape (c :: (cs ++ rest)) = .ok (cs ++ rest) := by
      rw [skipEscape, he]
      exact hu
    exact (skipString_slash hskip).trans ih
  | @unicode a b c d cs ha hb hc hd _ ih =>
    obtain ⟨n, hn⟩ := hexEscape_of_isHex ha hb hc hd
    have hskip : skipEscape ('u' :: a :: b :: c :: d :: (cs ++ rest)) = .ok (cs ++ rest) := by
      rw [skipEscape, hn]
      rfl
    exact (skipString_slash hskip).trans ih

/-- What a reader makes of the front of a string is the same whatever follows the string: it fails,
or it leaves a shorter string. -/
def ReadsFront {α : Type} (read : List Char → Step α) (cs : List Char) : Prop :=
  ∃ outcome : Step α, (∀ rest, read (cs ++ rest) = outcome.map fun p => (p.1, p.2 ++ rest)) ∧
    ∀ a after, outcome = .ok (a, after) → IsString after ∧ after.length < cs.length

theorem ReadsFront.of_error {α : Type} {read : List Char → Step α} {cs : List Char} (fault : Fault)
    (h : ∀ rest, read (cs ++ rest) = .error fault) : ReadsFront read cs :=
  ⟨.error fault, h, nofun⟩

theorem ReadsFront.of_ok {α : Type} {read : List Char → Step α} {cs after : List Char} (a : α)
    (h : ∀ rest, read (cs ++ rest) = .ok (a, after ++ rest)) (hafter : IsString after)
    (hlength : after.length < cs.length) : ReadsFront read cs := by
  refine ⟨.ok (a, after), h, ?_⟩
  rintro _ _ ⟨⟩
  exact ⟨hafter, hlength⟩

/-- Only another escape can end a surrogate pair. -/
theorem readsFront_trailingUnit {cs : List Char} (h : IsString cs) :
    ReadsFront trailingUnit cs := by
  cases h with
  | close => exact .of_error .unfinishedPair fun rest => rfl
  | plain hquote hslash _ _ =>
    refine .of_error .unfinishedPair fun rest => ?_
    rw [List.cons_append, trailingUnit]
    · exact nofun
    · exact fun heq => hslash (List.cons.inj heq).1
    · exact fun _ heq => hslash (List.cons.inj heq).1
  | simple hc _ =>
    obtain ⟨hu, -⟩ := simpleEscape?_of_mem hc
    refine .of_error .unfinishedPair fun rest => ?_
    simp only [List.cons_append]
    rw [trailingUnit]
    · exact nofun
    · exact nofun
    · exact fun _ heq => hu (List.cons.inj (List.cons.inj heq).2).1
  | @unicode a b c d cs ha hb hc hd hcs =>
    obtain ⟨n, hn⟩ := hexEscape_of_isHex ha hb hc hd
    have hread (rest : List Char) :
        trailingUnit ('\\' :: 'u' :: a :: b :: c :: d :: (cs ++ rest)) =
          if isTrailing n then .ok (n, cs ++ rest) else .error .loneSurrogate := by
      rw [trailingUnit, hn]
      rfl
    by_cases htrailing : isTrailing n
    · refine .of_ok n (fun rest => (hread rest).trans (if_pos htrailing)) hcs ?_
      simp only [List.length_cons]
      omega
    · exact .of_error _ fun rest => (hread rest).trans (if_neg htrailing)

theorem readsFront_unicodeEscape {a b c d : Char} {cs : List Char} (ha : IsHex a) (hb : IsHex b)
    (hc : IsHex c) (hd : IsHex d) (hcs : IsString cs) :
    ReadsFront unicodeEscape (a :: b :: c :: d :: cs) := by
  obtain ⟨n, hn⟩ := hexEscape_of_isHex ha hb hc hd
  have hread (rest : List Char) :
      unicodeEscape (a :: b :: c :: d :: (cs ++ rest)) =
        if isTrailing n then .error .loneSurrogate
        else if isLeading n then
          (trailingUnit (cs ++ rest)).andThen fun m rest =>
            .ok (Char.ofNat ((n - 0xD800) * 0x400 + (m - 0xDC00) + 0x10000), rest)
        else .ok (Char.ofNat n, cs ++ rest) := by
    rw [unicodeEscape, hn]
    rfl
  by_cases htrailing : isTrailing n
  · exact .of_error _ fun rest => (hread rest).trans (if_pos htrailing)
  by_cases hleading : isLeading n
  · obtain ⟨outcome, hunit, hshort⟩ := readsFront_trailingUnit hcs
    cases outcome with
    | error fault =>
      refine .of_error fault fun rest => ?_
      simp only [List.cons_append, hread, if_neg htrailing, if_pos hleading, hunit]
      rfl
    | ok p =>
      obtain ⟨m, after⟩ := p
      obtain ⟨hafter, hlength⟩ := hshort m after rfl
      let c := Char.ofNat ((n - 0xD800) * 0x400 + (m - 0xDC00) + 0x10000)
      refine .of_ok c (fun rest => ?_) hafter ?_
      · simp only [List.cons_append, hread, if_neg htrailing, if_pos hleading, hunit]
        rfl
      · simp only [List.length_cons]
        omega
  · refine .of_ok (Char.ofNat n) (fun rest => ?_) hcs ?_
    · simp only [List.cons_append, hread, if_neg htrailing, if_neg hleading]
    · simp only [List.length_cons]
      omega

theorem readsFront_escape {cs : List Char} (h : IsString ('\\' :: cs)) : ReadsFront escape cs := by
  cases h with
  | plain _ hslash _ _ => exact absurd rfl hslash
  | @simple c cs hc hcs =>
    obtain ⟨hu, e, he⟩ := simpleEscape?_of_mem hc
    refine .of_ok e (fun rest => ?_) hcs (Nat.lt_succ_self _)
    rw [List.cons_append, escape, he]
    exact hu
  | @unicode a b c d cs ha hb hc hd hcs =>
    obtain ⟨outcome, hread, hshort⟩ := readsFront_unicodeEscape ha hb hc hd hcs
    refine ⟨outcome, hread, fun e after ho => ?_⟩
    obtain ⟨hafter, hlength⟩ := hshort e after ho
    exact ⟨hafter, Nat.lt_succ_of_lt hlength⟩

/-- What is read from a string does not depend on the text behind its closing quote. -/
theorem stringTail_append {cs : List Char} (h : IsString cs) :
    ∃ outcome : Except Fault (List Char), ∀ rest,
      stringTail (cs ++ rest) = outcome.map fun s => (s, rest) := by
  -- a surrogate pair is read as one character, so the induction is on the length
  induction hn : cs.length using Nat.strongRecOn generalizing cs with
  | _ n ih =>
    have hescape {tail : List Char} (hcs : cs = '\\' :: tail) :
        ∃ outcome : Except Fault (List Char), ∀ rest,
          stringTail (cs ++ rest) = outcome.map fun s => (s, rest) := by
      subst hcs
      obtain ⟨outcome, hread, hshort⟩ := readsFront_escape h
      cases outcome with
      | error fault =>
        refine ⟨.error fault, fun rest => ?_⟩
        rw [List.cons_append, stringTail_slash, hread]
        rfl
      | ok p =>
        obtain ⟨c, after⟩ := p
        obtain ⟨hafter, hlength⟩ := hshort c after rfl
        simp only [List.length_cons] at hn
        obtain ⟨tail, htail⟩ := ih after.length (by omega) hafter rfl
        refine ⟨tail.map (c :: ·), fun rest => ?_⟩
        rw [List.cons_append, stringTail_slash, hread]
        simp only [Except.map, Step.andThen_ok, htail]
        cases tail <;> rfl
    cases h with
    | close => exact ⟨.ok [], fun rest => by rw [List.cons_append, stringTail]; rfl⟩
    | @plain c cs hquote hslash hcontrol hcs =>
      obtain ⟨tail, htail⟩ := ih cs.length (by simp only [List.length_cons] at hn; omega) hcs rfl
      refine ⟨tail.map (c :: ·), fun rest => ?_⟩
      rw [List.cons_append, stringTail_plain hquote hslash (Nat.not_lt.2 hcontrol), htail]
      cases tail <;> rfl
    | simple _ _ => exact hescape rfl
    | unicode _ _ _ _ _ => exact hescape rfl

/-! ## Numbers -/

/-- One digit or more. -/
def IsDigits (ds : List Char) : Prop :=
  ds ≠ [] ∧ ∀ d ∈ ds, d.isDigit = true

/-- The digits before the point. Only zero itself starts with a zero. -/
inductive IsInteger : List Char → Prop
  | zero : IsInteger ['0']
  | digits {d : Char} {ds : List Char} : d ≠ '0' → IsDigits (d :: ds) → IsInteger (d :: ds)

/-- The point with the digits behind it, or nothing. -/
inductive IsFraction : List Char → Prop
  | none : IsFraction []
  | digits {ds : List Char} : IsDigits ds → IsFraction ('.' :: ds)

/-- The exponent with its mark, or nothing. -/
inductive IsExponent : List Char → Prop
  | none : IsExponent []
  | digits {mark : Char} {sign ds : List Char} :
    mark ∈ ['e', 'E'] → sign ∈ [[], ['+'], ['-']] → IsDigits ds → IsExponent (mark :: (sign ++ ds))

/-- The texts that are numbers by the grammar of RFC 8259. -/
inductive IsNumber : List Char → Prop
  | positive {whole fraction exponent : List Char} :
    IsInteger whole → IsFraction fraction → IsExponent exponent →
      IsNumber (whole ++ (fraction ++ exponent))
  | negative {whole fraction exponent : List Char} :
    IsInteger whole → IsFraction fraction → IsExponent exponent →
      IsNumber ('-' :: (whole ++ (fraction ++ exponent)))

theorem IsInteger.eq_cons {whole : List Char} (h : IsInteger whole) :
    ∃ d ds, whole = d :: ds ∧ d.isDigit = true := by
  cases h with
  | zero => exact ⟨_, _, rfl, rfl⟩
  | digits _ hds => exact ⟨_, _, rfl, hds.2 _ List.mem_cons_self⟩

section
variable {ds rest : List Char}

theorem IsDigits.dropWhile_append (h : IsDigits ds) (hrest : startsWithDigit rest = false) :
    (ds ++ rest).dropWhile Char.isDigit = rest := by
  rw [List.dropWhile_append_of_pos h.2]
  exact Token.dropWhile_append hrest []

theorem IsDigits.takeWhile_append (h : IsDigits ds) (hrest : startsWithDigit rest = false) :
    (ds ++ rest).takeWhile Char.isDigit = ds := by
  have hnone : rest.takeWhile Char.isDigit = [] := Token.takeWhile_append hrest []
  rw [List.takeWhile_append_of_pos h.2, hnone, List.append_nil]

theorem IsDigits.startsWithDigit_append (h : IsDigits ds) (rest : List Char) :
    startsWithDigit (ds ++ rest) = true := by
  cases ds with
  | nil => exact absurd rfl h.1
  | cons d ds => exact h.2 d List.mem_cons_self

theorem IsExponent.startsWithDigit_append {exponent : List Char} (h : IsExponent exponent)
    (hrest : Ends rest) : startsWithDigit (exponent ++ rest) = false := by
  cases h with
  | none => exact hrest.startsWithDigit
  | digits hmark _ _ =>
    simp only [List.mem_cons, List.not_mem_nil, or_false] at hmark
    rcases hmark with rfl | rfl <;> rfl

theorem IsFraction.startsWithDigit_append {fraction : List Char} (h : IsFraction fraction)
    (hrest : startsWithDigit rest = false) : startsWithDigit (fraction ++ rest) = false := by
  cases h with
  | none => exact hrest
  | digits _ => rfl

end

theorem skipExponent_of_startsWithDigit {cs : List Char} (h : startsWithDigit cs = true) :
    skipExponent cs = .ok (cs.dropWhile Char.isDigit) := by
  cases cs with
  | nil => cases h
  | cons d ds =>
    have hd : d.isDigit = true := h
    have hplus : d ≠ '+' := by rintro rfl; cases hd
    have hminus : d ≠ '-' := by rintro rfl; cases hd
    simp [skipExponent, hplus, hminus, startsWithDigit, hd]

section
variable {whole fraction exponent rest : List Char}

theorem skipExponent_append {sign ds : List Char} (hsign : sign ∈ [[], ['+'], ['-']])
    (hds : IsDigits ds) (hrest : startsWithDigit rest = false) :
    skipExponent (sign ++ ds ++ rest) = .ok rest := by
  have hskip : skipExponent (ds ++ rest) = .ok rest := by
    rw [skipExponent_of_startsWithDigit (hds.startsWithDigit_append rest),
      hds.dropWhile_append hrest]
  have hsigned : (if startsWithDigit (ds ++ rest) then .ok ((ds ++ rest).dropWhile Char.isDigit)
      else .error .invalidNumber : Except Fault (List Char)) = .ok rest := by
    rw [if_pos (hds.startsWithDigit_append rest), hds.dropWhile_append hrest]
  simp only [List.mem_cons, List.not_mem_nil, or_false] at hsign
  rcases hsign with rfl | rfl | rfl
  · exact hskip
  · exact hsigned
  · exact hsigned

theorem skipOptionalExponent_append (h : IsExponent exponent) (hrest : Ends rest) :
    skipOptionalExponent (exponent ++ rest) = .ok rest := by
  cases h with
  | none =>
    rw [List.nil_append]
    unfold skipOptionalExponent
    split
    · exact absurd rfl (hrest _ rfl).2.2.1
    · exact absurd rfl (hrest _ rfl).2.2.2
    · rfl
  | digits hmark hsign hds =>
    have hskip := skipExponent_append hsign hds hrest.startsWithDigit
    simp only [List.mem_cons, List.not_mem_nil, or_false] at hmark
    rcases hmark with rfl | rfl <;> exact hskip

theorem skipAfterInteger_append (hfraction : IsFraction fraction) (hexponent : IsExponent exponent)
    (hrest : Ends rest) : skipAfterInteger (fraction ++ (exponent ++ rest)) = .ok rest := by
  have hskip := skipOptionalExponent_append hexponent hrest
  cases hfraction with
  | digits hds =>
    have htail := hexponent.startsWithDigit_append hrest
    rw [List.cons_append, skipAfterInteger, if_pos (hds.startsWithDigit_append _),
      hds.dropWhile_append htail, hskip]
  | none =>
    cases hexponent with
    | none =>
      rw [← hskip]
      simp only [List.nil_append]
      unfold skipAfterInteger
      split
      · exact absurd rfl (hrest _ rfl).2.1
      · rfl
    | digits hmark _ _ =>
      rw [← hskip]
      simp only [List.mem_cons, List.not_mem_nil, or_false] at hmark
      rcases hmark with rfl | rfl <;> rfl

theorem skipInteger_append (h : IsInteger whole) (hrest : startsWithDigit rest = false) :
    skipNumber (whole ++ rest) = skipAfterInteger rest ∧
      skipNumber ('-' :: (whole ++ rest)) = skipAfterInteger rest := by
  cases h with
  | zero => simp [skipNumber, hrest]
  | @digits d ds hzero hds =>
    have hd : d.isDigit = true := hds.2 d List.mem_cons_self
    have hminus : d ≠ '-' := by rintro rfl; cases hd
    have hdrop := hds.dropWhile_append hrest
    rw [List.cons_append] at hdrop
    simp [skipNumber, hzero, hminus, startsWithDigit, hd, hdrop]

/-- Passing over a number ends behind it, if the text does not go on with it. -/
theorem skipNumber_append {cs : List Char} (h : IsNumber cs) (hrest : Ends rest) :
    skipNumber (cs ++ rest) = .ok rest := by
  cases h with
  | positive hwhole hfraction hexponent =>
    have htail := hfraction.startsWithDigit_append (hexponent.startsWithDigit_append hrest)
    obtain ⟨hskip, -⟩ := skipInteger_append hwhole htail
    simp only [List.append_assoc]
    rw [hskip, skipAfterInteger_append hfraction hexponent hrest]
  | negative hwhole hfraction hexponent =>
    have htail := hfraction.startsWithDigit_append (hexponent.startsWithDigit_append hrest)
    obtain ⟨-, hskip⟩ := skipInteger_append hwhole htail
    simp only [List.cons_append, List.append_assoc]
    rw [hskip, skipAfterInteger_append hfraction hexponent hrest]

end

/-! ## Numbers that are read -/

section
variable {whole fraction exponent : List Char} (negative : Bool) (n : Nat) (e : Int)

theorem exponentPart_append {sign ds : List Char} (hsign : sign ∈ [[], ['+'], ['-']])
    (hds : IsDigits ds) : ∃ e', ∀ rest, startsWithDigit rest = false →
      exponentPart negative n e (sign ++ ds ++ rest) = scaled negative n e' rest := by
  obtain ⟨d, tail, rfl⟩ := List.exists_cons_of_ne_nil hds.1
  have hd : d.isDigit = true := hds.2 d List.mem_cons_self
  have hdigits (minus : Bool) : ∃ e', ∀ rest, startsWithDigit rest = false →
      exponentDigits negative minus n e (d :: tail ++ rest) = scaled negative n e' rest := by
    let size : Int := digitsValue (d :: tail)
    refine ⟨if minus then e - size else e + size, fun rest hrest => ?_⟩
    rw [List.cons_append, exponentDigits, if_pos hd, ← List.cons_append, hds.takeWhile_append hrest,
      hds.dropWhile_append hrest]
  have hplus : d ≠ '+' := by rintro rfl; cases hd
  have hminus : d ≠ '-' := by rintro rfl; cases hd
  simp only [List.mem_cons, List.not_mem_nil, or_false] at hsign
  rcases hsign with rfl | rfl | rfl
  · obtain ⟨e', he⟩ := hdigits false
    exact ⟨e', fun rest hrest => by
      rw [List.nil_append, List.cons_append, exponentPart_cons, if_neg hplus, if_neg hminus]
      exact he rest hrest⟩
  · exact hdigits false
  · exact hdigits true

theorem optionalExponent_append (h : IsExponent exponent) : ∃ e', ∀ rest, Ends rest →
    optionalExponent negative n e (exponent ++ rest) = scaled negative n e' rest := by
  cases h with
  | none => exact ⟨e, fun rest hrest => hrest.optionalExponent negative n e⟩
  | digits hmark hsign hds =>
    obtain ⟨e', he⟩ := exponentPart_append negative n e hsign hds
    refine ⟨e', fun rest hrest => ?_⟩
    rw [List.cons_append, optionalExponent_cons, if_pos (by simpa using hmark)]
    exact he rest hrest.startsWithDigit

theorem accumulate_suffix (n : Nat) (cs : List Char) : (accumulate n cs).2 <:+ cs := by
  induction cs generalizing n with
  | nil => exact List.suffix_rfl
  | cons c cs ih =>
    unfold accumulate
    split
    · split
      · exact (ih _).trans (List.suffix_cons c cs)
      · exact List.suffix_rfl
    · exact List.suffix_rfl

theorem dropWhile_accumulate {ds : List Char} (h : IsDigits ds) (n : Nat) :
    (accumulate n ds).2.dropWhile Char.isDigit = [] := by
  have hall : ∀ d ∈ (accumulate n ds).2, d.isDigit = true :=
    fun d hd => h.2 d ((accumulate_suffix n ds).subset hd)
  rw [← List.append_nil (accumulate n ds).2, List.dropWhile_append_of_pos hall]
  rfl

theorem fraction_append {ds : List Char} (hds : IsDigits ds) : ∃ m e', ∀ rest,
    startsWithDigit rest = false →
      Token.fraction negative n e (ds ++ rest) = optionalExponent negative m e' rest := by
  refine ⟨(accumulate n ds).1, e - ((ds.length - (accumulate n ds).2.length : Nat) : Int),
    fun rest hrest => ?_⟩
  have hplaces : (ds ++ rest).length - ((accumulate n ds).2 ++ rest).length =
      ds.length - (accumulate n ds).2.length := by
    simp only [List.length_append]
    omega
  -- a digit is taken into the significand, or there is no room for the first one
  have hdigits : ¬ (ds.length - (accumulate n ds).2.length = 0 ∧
      ¬ startsWithDigit (accumulate n ds).2) := by
    rintro ⟨hlength, hstart⟩
    have hsuffix := accumulate_suffix n ds
    have heq : (accumulate n ds).2 = ds := hsuffix.eq_of_length_le (by omega)
    have hfirst := hds.startsWithDigit_append []
    rw [List.append_nil] at hfirst
    rw [heq] at hstart
    exact hstart hfirst
  simp only [fraction_eq, accumulate_append hrest, hplaces, startsWithDigit_append hrest,
    dropWhile_append hrest, if_neg hdigits, dropWhile_accumulate hds, List.nil_append]

/-- What is made of a number is the same whatever follows. -/
def Fixed (read : List Char → Step Number) (cs : List Char) : Prop :=
  ∃ outcome : Except Fault Number, ∀ rest, Ends rest →
    read (cs ++ rest) = outcome.map fun m => (m, rest)

theorem scaled_append : ∃ outcome : Except Fault Number, ∀ rest,
    scaled negative n e rest = outcome.map fun m => (m, rest) := by
  unfold scaled
  cases (Binary64.ofNat n).scale e with
  | none => exact ⟨.error .numberOutOfRange, fun _ => rfl⟩
  | some x => exact ⟨.ok (.double (if negative then x.neg else x)), fun _ => rfl⟩

theorem afterInteger_fixed (dropped : Nat) (hfraction : IsFraction fraction)
    (hexponent : IsExponent exponent) :
    Fixed (afterInteger negative n dropped) (fraction ++ exponent) := by
  cases hfraction with
  | digits hds =>
    obtain ⟨m, e, hm⟩ := fraction_append negative n dropped hds
    obtain ⟨e', he⟩ := optionalExponent_append negative m e hexponent
    obtain ⟨outcome, ho⟩ := scaled_append negative m e'
    refine ⟨outcome, fun rest hrest => ?_⟩
    rw [← ho, ← he rest hrest, ← hm _ (hexponent.startsWithDigit_append hrest),
      List.append_assoc, List.cons_append]
    rfl
  | none =>
    cases hexponent with
    | none =>
      by_cases hdropped : dropped = 0
      · refine ⟨.ok (integerNumber negative n), fun rest hrest => ?_⟩
        rw [List.nil_append, List.nil_append, hrest.afterInteger, if_pos hdropped]
        rfl
      · obtain ⟨outcome, ho⟩ := scaled_append negative n dropped
        refine ⟨outcome, fun rest hrest => ?_⟩
        rw [List.nil_append, List.nil_append, hrest.afterInteger, if_neg hdropped, ho]
    | @digits mark sign ds hmark hsign hds =>
      obtain ⟨e', he⟩ := exponentPart_append negative n dropped hsign hds
      obtain ⟨outcome, ho⟩ := scaled_append negative n e'
      refine ⟨outcome, fun rest hrest => ?_⟩
      have hpoint : mark ≠ '.' := by rintro rfl; simp at hmark
      rw [List.nil_append, List.cons_append, afterInteger_cons, if_neg hpoint,
        if_pos (by simpa using hmark), he rest hrest.startsWithDigit, ho]

/-- The integer digits make a significand, from which the rest is read. -/
theorem unsignedNumber_append_integer (h : IsInteger whole) : ∃ m dropped, ∀ rest,
    startsWithDigit rest = false →
      unsignedNumber negative (whole ++ rest) = afterInteger negative m dropped rest := by
  cases h with
  | zero =>
    refine ⟨0, 0, fun rest hrest => ?_⟩
    rw [List.cons_append, List.nil_append, unsignedNumber, if_neg (Bool.eq_false_iff.1 hrest)]
  | @digits d ds hzero hds =>
    have hd : d.isDigit = true := hds.2 d List.mem_cons_self
    refine ⟨(accumulate 0 (d :: ds)).1, ((accumulate 0 (d :: ds)).2.takeWhile Char.isDigit).length,
      fun rest hrest => ?_⟩
    rw [List.cons_append, unsignedNumber, if_pos hd, ← List.cons_append]
    · simp only [accumulate_append hrest, takeWhile_append hrest, dropWhile_append hrest,
        dropWhile_accumulate hds, List.nil_append]
    · exact hzero

theorem IsInteger.number_append (h : IsInteger whole) (rest : List Char) :
    Token.number (whole ++ rest) = unsignedNumber false (whole ++ rest) := by
  obtain ⟨d, ds, rfl, hd⟩ := h.eq_cons
  rw [List.cons_append, Token.number]
  rintro cs heq
  rw [(List.cons.inj heq).1] at hd
  cases hd

/-- What is read from a number does not depend on the text behind it. -/
theorem number_fixed {cs : List Char} (h : IsNumber cs) : Fixed Token.number cs := by
  have hunsigned (negative : Bool) {whole fraction exponent : List Char} (hwhole : IsInteger whole)
      (hfraction : IsFraction fraction) (hexponent : IsExponent exponent) :
      Fixed (unsignedNumber negative) (whole ++ (fraction ++ exponent)) := by
    obtain ⟨m, dropped, hm⟩ := unsignedNumber_append_integer negative hwhole
    obtain ⟨outcome, ho⟩ := afterInteger_fixed negative m dropped hfraction hexponent
    refine ⟨outcome, fun rest hrest => ?_⟩
    have htail := hfraction.startsWithDigit_append (hexponent.startsWithDigit_append hrest)
    rw [← ho rest hrest, List.append_assoc, hm _ (by rwa [List.append_assoc])]
  cases h with
  | positive hwhole hfraction hexponent =>
    obtain ⟨outcome, ho⟩ := hunsigned false hwhole hfraction hexponent
    refine ⟨outcome, fun rest hrest => ?_⟩
    rw [← ho rest hrest, List.append_assoc, hwhole.number_append]
  | negative hwhole hfraction hexponent => exact hunsigned true hwhole hfraction hexponent

end

end Dataflow.Json
