import Dataflow.Json
import Dataflow.Json.Fault

/-! # The tokens of JSON

Readers for blank space, literals, strings and numbers, each from the front of a list of
characters. Parts of a text that nobody wants are passed over by looser readers, which accept
surrogates without partners and numbers of any size.

* `dropBlank`: passes over blank space.
* `stringTail`, `skipString`: a string after its opening quote, read or passed over.
* `number`, `skipNumber`: a number, read or passed over.
-/

namespace Dataflow.Json.Token

/-! ## Blank space and literals -/

/-- Whether a character is blank space between tokens. -/
def isBlank (c : Char) : Bool :=
  c = ' ' ∨ c = '\n' ∨ c = '\t' ∨ c = '\r'

/-- The text from its first character that is not blank. -/
def dropBlank (cs : List Char) : List Char :=
  cs.dropWhile isBlank

/-- The rest of a literal whose first character has been read. -/
def literal : List Char → List Char → Except Fault (List Char)
  | [], cs => .ok cs
  | _ :: _, [] => .error (.ended .value)
  | e :: es, c :: cs => if c = e then literal es cs else .error .expectedIdent

/-- The text behind the colon after a key. -/
def colon (cs : List Char) : Except Fault (List Char) :=
  match dropBlank cs with
  | [] => .error (.ended .object)
  | ':' :: rest => .ok rest
  | _ => .error .expectedColon

/-! ## Strings -/

/-- The value of a hexadecimal digit. -/
def hexValue? (c : Char) : Option Nat :=
  if '0' ≤ c ∧ c ≤ '9' then some (c.toNat - 48)
  else if 'a' ≤ c ∧ c ≤ 'f' then some (c.toNat - 87)
  else if 'A' ≤ c ∧ c ≤ 'F' then some (c.toNat - 55)
  else none

/-- The length of the text in UTF-8, the unit in which positions are counted. -/
def byteLength (cs : List Char) : Nat :=
  cs.foldl (fun n c => n + c.utf8Size) 0

/-- Four hexadecimal digits. A text of fewer than four bytes ends too early, whatever it holds. -/
def hexEscape : List Char → Step Nat
  | a :: b :: c :: d :: rest =>
    match hexValue? a, hexValue? b, hexValue? c, hexValue? d with
    | some a, some b, some c, some d => .ok (((a * 16 + b) * 16 + c) * 16 + d, rest)
    | _, _, _, _ => .error .invalidEscape
  | cs => .error (if byteLength cs < 4 then .ended .string else .invalidEscape)

/-- Whether a code unit is the first of a surrogate pair. -/
def isLeading (n : Nat) : Bool := 0xD800 ≤ n ∧ n ≤ 0xDBFF

/-- Whether a code unit is the second of a surrogate pair. -/
def isTrailing (n : Nat) : Bool := 0xDC00 ≤ n ∧ n ≤ 0xDFFF

/-- The trailing unit that has to follow a leading one. -/
def trailingUnit : List Char → Step Nat
  | [] => .error (.ended .string)
  | ['\\'] => .error (.ended .string)
  | '\\' :: 'u' :: rest =>
    (hexEscape rest).andThen fun n rest =>
      if isTrailing n then .ok (n, rest) else .error .loneSurrogate
  | _ => .error .unfinishedPair

/-- A character escaped by its code units, after the `u`. -/
def unicodeEscape (cs : List Char) : Step Char :=
  (hexEscape cs).andThen fun n rest =>
    if isTrailing n then .error .loneSurrogate
    else if isLeading n then
      (trailingUnit rest).andThen fun m rest =>
        .ok (Char.ofNat ((n - 0xD800) * 0x400 + (m - 0xDC00) + 0x10000), rest)
    else .ok (Char.ofNat n, rest)

/-- The character that a one-letter escape stands for. -/
def simpleEscape? : Char → Option Char
  | '"' => some '"'
  | '\\' => some '\\'
  | '/' => some '/'
  | 'b' => some '\x08'
  | 'f' => some '\x0c'
  | 'n' => some '\n'
  | 'r' => some '\r'
  | 't' => some '\t'
  | _ => none

/-- The character escaped by what follows a backslash. -/
def escape : List Char → Step Char
  | [] => .error (.ended .string)
  | 'u' :: rest => unicodeEscape rest
  | c :: rest =>
    match simpleEscape? c with
    | some e => .ok (e, rest)
    | none => .error .invalidEscape

/-- The text behind an escape that is passed over: surrogates need no partner here. -/
def skipEscape : List Char → Except Fault (List Char)
  | [] => .error (.ended .string)
  | 'u' :: rest => (hexEscape rest).andThen fun _ rest => .ok rest
  | c :: rest =>
    match simpleEscape? c with
    | some _ => .ok rest
    | none => .error .invalidEscape

theorem hexEscape_shorter {cs : List Char} {n : Nat} {rest : List Char}
    (h : hexEscape cs = .ok (n, rest)) : rest.length < cs.length := by
  unfold hexEscape at h
  split at h
  · split at h
    · cases h
      simp only [List.length_cons]
      omega
    · cases h
  · cases h

theorem trailingUnit_shorter {cs : List Char} {n : Nat} {rest : List Char}
    (h : trailingUnit cs = .ok (n, rest)) : rest.length < cs.length := by
  unfold trailingUnit at h
  split at h
  · cases h
  · cases h
  · obtain ⟨m, after, hm, h⟩ := Step.andThen_eq_ok h
    have := hexEscape_shorter hm
    split at h
    · cases h
      simp only [List.length_cons]
      omega
    · cases h
  · cases h

theorem unicodeEscape_shorter {cs : List Char} {c : Char} {rest : List Char}
    (h : unicodeEscape cs = .ok (c, rest)) : rest.length < cs.length := by
  obtain ⟨n, after, hn, h⟩ := Step.andThen_eq_ok h
  have hn := hexEscape_shorter hn
  split at h
  · cases h
  · split at h
    · obtain ⟨m, last, hm, h⟩ := Step.andThen_eq_ok h
      have hm := trailingUnit_shorter hm
      simp only [Except.ok.injEq, Prod.mk.injEq] at h
      exact h.2 ▸ Nat.lt_trans hm hn
    · cases h
      exact hn

theorem escape_shorter {cs : List Char} {c : Char} {rest : List Char}
    (h : escape cs = .ok (c, rest)) : rest.length < cs.length := by
  unfold escape at h
  split at h
  · cases h
  · exact Nat.lt_succ_of_lt (unicodeEscape_shorter h)
  · split at h
    · cases h
      exact Nat.lt_succ_self _
    · cases h

theorem skipEscape_shorter {cs rest : List Char} (h : skipEscape cs = .ok rest) :
    rest.length < cs.length := by
  unfold skipEscape at h
  split at h
  · cases h
  · obtain ⟨n, after, hn, h⟩ := Step.andThen_eq_ok h
    have := hexEscape_shorter hn
    cases h
    exact Nat.lt_succ_of_lt this
  · split at h
    · cases h
      exact Nat.lt_succ_self _
    · cases h

/-- The characters of a string after its opening quote, and the text after the closing one. -/
def stringTail : List Char → Step (List Char)
  | [] => .error (.ended .string)
  | '"' :: rest => .ok ([], rest)
  | '\\' :: rest =>
    match h : escape rest with
    | .error e => .error e
    | .ok (c, after) =>
      have := escape_shorter h
      (stringTail after).andThen fun cs rest => .ok (c :: cs, rest)
  | c :: rest =>
    if c.toNat < 0x20 then .error .controlCharacter
    else (stringTail rest).andThen fun cs rest => .ok (c :: cs, rest)
termination_by cs => cs.length

/-- A string, after its opening quote. -/
def string (cs : List Char) : Step String :=
  (stringTail cs).andThen fun s rest => .ok (String.ofList s, rest)

/-- The text after a string that is passed over, from behind its opening quote. -/
def skipString : List Char → Except Fault (List Char)
  | [] => .error (.ended .string)
  | '"' :: rest => .ok rest
  | '\\' :: rest =>
    match h : skipEscape rest with
    | .error e => .error e
    | .ok after =>
      have := skipEscape_shorter h
      skipString after
  | c :: rest => if c.toNat < 0x20 then .error .controlCharacter else skipString rest
termination_by cs => cs.length

/-! ## Numbers -/

/-- The value of a decimal digit. -/
def digit? (c : Char) : Option Nat :=
  if c.isDigit then some (c.toNat - 48) else none

/-- The number that a run of decimal digits spells. -/
def digitsValue (cs : List Char) : Nat :=
  cs.foldl (fun n c => n * 10 + (c.toNat - 48)) 0

/-- Appends digits to a significand as long as it fits 64 bits. -/
def accumulate (significand : Nat) : List Char → Nat × List Char
  | [] => (significand, [])
  | c :: rest =>
    match digit? c with
    | some d =>
      if significand * 10 + d < Nat.pow 2 64 then accumulate (significand * 10 + d) rest
      else (significand, c :: rest)
    | none => (significand, c :: rest)

/-- Whether a digit comes next: none may after a leading zero, one has to after a point. -/
def startsWithDigit : List Char → Bool
  | [] => false
  | c :: _ => c.isDigit

/-- The double `± significand · 10 ^ exponent`. The significand is rounded to a double first, then
multiplied or divided by the power of ten. -/
def scaled (negative : Bool) (significand : Nat) (exponent : Int) (rest : List Char) :
    Step Number :=
  match (Binary64.ofNat significand).scale exponent with
  | none => .error .numberOutOfRange
  | some x => .ok (.double (if negative then x.neg else x), rest)

/-- The exponent after its `e`, added to the exponent so far. -/
def exponentPart (negative : Bool) (significand : Nat) (exponent : Int) (cs : List Char) :
    Step Number :=
  let (minus, cs) := match cs with
    | '+' :: rest => (false, rest)
    | '-' :: rest => (true, rest)
    | cs => (false, cs)
  match cs with
  | [] => .error (.ended .value)
  | c :: _ =>
    if c.isDigit then
      let e : Int := digitsValue (cs.takeWhile Char.isDigit)
      scaled negative significand (if minus then exponent - e else exponent + e)
        (cs.dropWhile Char.isDigit)
    else .error .invalidNumber

/-- The exponent if there is one, else the number without. -/
def optionalExponent (negative : Bool) (significand : Nat) (exponent : Int) :
    List Char → Step Number
  | 'e' :: rest => exponentPart negative significand exponent rest
  | 'E' :: rest => exponentPart negative significand exponent rest
  | rest => scaled negative significand exponent rest

/-- The digits after the point. Those that the significand has no room for are passed over. -/
def fraction (negative : Bool) (significand : Nat) (exponent : Int) (cs : List Char) :
    Step Number :=
  let (sum, rest) := accumulate significand cs
  let places := cs.length - rest.length
  if places = 0 ∧ ¬ startsWithDigit rest then
    .error (if rest = [] then .ended .value else .invalidNumber)
  else optionalExponent negative sum (exponent - places) (rest.dropWhile Char.isDigit)

/-- An integer that fits the significand. Zero with a sign and integers below `-2 ^ 63` are
doubles. -/
def integerNumber (negative : Bool) (significand : Nat) : Number :=
  if negative then
    if h : 0 < significand ∧ significand ≤ 9223372036854775808 then
      .negative ⟨significand - 1, by omega⟩
    else .double (Binary64.ofNat significand).neg
  else .natural significand.toUInt64

/-- A number after its integer digits, of which `dropped` did not fit the significand. -/
def afterInteger (negative : Bool) (significand dropped : Nat) : List Char → Step Number
  | '.' :: rest => fraction negative significand dropped rest
  | 'e' :: rest => exponentPart negative significand dropped rest
  | 'E' :: rest => exponentPart negative significand dropped rest
  | rest =>
    if dropped = 0 then .ok (integerNumber negative significand, rest)
    else scaled negative significand dropped rest

/-- A number, after its minus sign if it has one. -/
def unsignedNumber (negative : Bool) : List Char → Step Number
  | [] => .error (.ended .value)
  | '0' :: rest =>
    if startsWithDigit rest then .error .invalidNumber else afterInteger negative 0 0 rest
  | c :: rest =>
    if c.isDigit then
      let (significand, rest) := accumulate 0 (c :: rest)
      let dropped := (rest.takeWhile Char.isDigit).length
      afterInteger negative significand dropped (rest.dropWhile Char.isDigit)
    else .error .invalidNumber

/-- A number, from its first character on. -/
def number : List Char → Step Number
  | '-' :: rest => unsignedNumber true rest
  | cs => unsignedNumber false cs

/-- The text after an exponent that is passed over, from behind its `e`. -/
def skipExponent (cs : List Char) : Except Fault (List Char) :=
  let cs := match cs with
    | '+' :: rest => rest
    | '-' :: rest => rest
    | cs => cs
  if startsWithDigit cs then .ok (cs.dropWhile Char.isDigit) else .error .invalidNumber

/-- The text after an exponent, if there is one, that is passed over. -/
def skipOptionalExponent : List Char → Except Fault (List Char)
  | 'e' :: rest => skipExponent rest
  | 'E' :: rest => skipExponent rest
  | rest => .ok rest

/-- The text after the part of a number that follows its integer digits. -/
def skipAfterInteger : List Char → Except Fault (List Char)
  | '.' :: rest =>
    if startsWithDigit rest then skipOptionalExponent (rest.dropWhile Char.isDigit)
    else .error .invalidNumber
  | rest => skipOptionalExponent rest

/-- The text behind a number that is passed over, so that its size does not matter. -/
def skipNumber (cs : List Char) : Except Fault (List Char) :=
  let cs := match cs with
    | '-' :: rest => rest
    | cs => cs
  match cs with
  | '0' :: rest => if startsWithDigit rest then .error .invalidNumber else skipAfterInteger rest
  | cs =>
    if startsWithDigit cs then skipAfterInteger (cs.dropWhile Char.isDigit)
    else .error .invalidNumber

end Dataflow.Json.Token
