import Dataflow.Toml.Token

/-! # Numbers, dates and other scalars of TOML

Settings hold no scalars but strings, so a scalar is only told from a malformed one and its value
is not kept.

* `isInteger`, `isFloat`, `isMoment`: the kinds of scalars.
* `scalar?`: the text behind a scalar.
-/

namespace Dataflow.Toml.Scalar

open Token

/-! ## Numbers -/

/-- The text behind digits that follow a digit; one underscore may stand between two. -/
def moreDigits (isDigit : Char → Bool) : List Char → List Char
  | '_' :: c :: rest => if isDigit c then moreDigits isDigit rest else '_' :: c :: rest
  | c :: rest => if isDigit c then moreDigits isDigit rest else c :: rest
  | [] => []

/-- The text behind at least one digit. -/
def digits? (isDigit : Char → Bool) : List Char → Option (List Char)
  | c :: rest => if isDigit c then some (moreDigits isDigit rest) else none
  | [] => none

/-- The text behind an optional sign. -/
def dropSign : List Char → List Char
  | '+' :: rest => rest
  | '-' :: rest => rest
  | cs => cs

/-- The text behind a decimal integer without a sign, which has no leading zeros. -/
def decimal? : List Char → Option (List Char)
  | '0' :: rest => some rest
  | cs => digits? Char.isDigit cs

/-- Whether a character is a hexadecimal digit, in either case. -/
def isHex (c : Char) : Bool :=
  (Json.Token.hexValue? c).isSome

/-- Whether every underscore of a text stands between two hexadecimal digits; `before` tells whether
one stands before the text. -/
def isGrouped (before : Bool) : List Char → Bool
  | [] => true
  | '_' :: rest => before && rest.head?.any isHex && isGrouped false rest
  | c :: rest => isGrouped (isHex c) rest

/-- Whether a character tells that a number is not an integer. -/
def isFloatMark (c : Char) : Bool :=
  c = '.' ∨ c = 'e' ∨ c = 'E'

/-- Whether a word is an integer whose first digits an underscore follows, or without digits its
sign. From there on only the neighbours of underscores are looked at, as the value is not kept. -/
def isGroupedInteger (word : List Char) : Bool :=
  let size := dropSign word
  let rest := size.dropWhile Char.isDigit
  word.head? ≠ some '_' && size.head? ≠ some '0' && rest.head? = some '_' &&
    !rest.any (fun c => c = ' ' || isFloatMark c) && isGrouped true rest

/-- Whether a word is digits alone, of which there may be none. -/
def isDigits (isDigit : Char → Bool) (word : List Char) : Bool :=
  word = [] || digits? isDigit word = some []

/-- Whether a word is an integer, in decimal or with the mark of another base. -/
def isInteger : List Char → Bool
  | '0' :: 'x' :: rest => isDigits isHex rest
  | '0' :: 'o' :: rest => isDigits (fun c => '0' ≤ c ∧ c ≤ '7') rest
  | '0' :: 'b' :: rest => isDigits (fun c => c = '0' ∨ c = '1') rest
  | word => decimal? (dropSign word) = some [] || isGroupedInteger word

/-- The text behind a sign and the digits before a fraction. They have no leading zeros, unless an
underscore stands between them and a sign. -/
def mantissa? : List Char → Option (List Char)
  | '+' :: '_' :: rest => digits? Char.isDigit rest
  | '-' :: '_' :: rest => digits? Char.isDigit rest
  | cs => decimal? (dropSign cs)

/-- The text behind an optional exponent. -/
def exponent? : List Char → Option (List Char)
  | 'e' :: rest => digits? Char.isDigit (dropSign rest)
  | 'E' :: rest => digits? Char.isDigit (dropSign rest)
  | cs => some cs

/-- The text behind an optional fraction; a point needs a digit after it. -/
def fraction? : List Char → Option (List Char)
  | '.' :: rest => digits? Char.isDigit rest
  | cs => some cs

/-- Whether a word is a number with a fraction, with an exponent or with both, or a special one. -/
def isFloat (word : List Char) : Bool :=
  let size := dropSign word
  size = ['i', 'n', 'f'] || size = ['n', 'a', 'n'] ||
    (word.any isFloatMark && (((mantissa? word).bind fraction?).bind exponent?) = some [])

/-! ## Dates and times -/

/-- Reads exactly `count` digits, as dates and times have them. -/
def fixed? (count : Nat) (cs : List Char) : Reading Nat :=
  let digits := cs.take count
  if digits.length = count && digits.all Char.isDigit then
    some (digits.foldl (fun n c => n * 10 + (c.toNat - 48)) 0, cs.drop count)
  else none

/-- The text behind a number of two digits that is not above a bound. -/
def pair? (most : Nat) (cs : List Char) : Option (List Char) :=
  (fixed? 2 cs).bind fun (n, rest) => if n ≤ most then some rest else none

/-- The days of a month in the Gregorian calendar. -/
def daysOf (year month : Nat) : Nat :=
  if month = 2 then
    if year % 4 = 0 ∧ (year % 100 ≠ 0 ∨ year % 400 = 0) then 29 else 28
  else if month = 4 ∨ month = 6 ∨ month = 9 ∨ month = 11 then 30
  else 31

/-- The text behind a date, which has to exist in the calendar. -/
def date? (cs : List Char) : Option (List Char) := do
  let (year, cs) ← fixed? 4 cs
  let (month, cs) ← fixed? 2 (← mark? '-' cs)
  let (day, cs) ← fixed? 2 (← mark? '-' cs)
  if 1 ≤ month ∧ month ≤ 12 ∧ 1 ≤ day ∧ day ≤ daysOf year month then some cs else none

/-- The text behind the fraction of a second, if there is one. -/
def secondFraction? : List Char → Option (List Char)
  | '.' :: rest => if rest.head?.any Char.isDigit then some (rest.dropWhile Char.isDigit) else none
  | cs => some cs

/-- The text behind a time of day. Seconds may be left out, and a leap second is allowed. -/
def time? (cs : List Char) : Option (List Char) := do
  let cs ← pair? 59 (← mark? ':' (← pair? 23 cs))
  match cs with
  | ':' :: rest => secondFraction? (← pair? 60 rest)
  | cs => some cs

/-- The text behind the offset of a time, if there is one. -/
def offset? : List Char → Option (List Char)
  | 'Z' :: rest => some rest
  | 'z' :: rest => some rest
  | '+' :: rest => (pair? 23 rest).bind fun cs => (mark? ':' cs).bind (pair? 59)
  | '-' :: rest => (pair? 23 rest).bind fun cs => (mark? ':' cs).bind (pair? 59)
  | cs => some cs

/-- Whether a character stands between a date and a time. -/
def joinsTime (c : Char) : Bool :=
  c = 'T' ∨ c = 't' ∨ c = ' '

/-- Whether a word is a date, a time, or a date with a time. -/
def isMoment (word : List Char) : Bool :=
  time? word = some [] ||
    match date? word with
    | some [] => true
    | some (c :: rest) => joinsTime c && ((time? rest).bind offset?) = some []
    | none => false

/-! ## Scalars -/

/-- Whether a word is a value other than a string. -/
def isScalar (word : List Char) : Bool :=
  word = ['t', 'r', 'u', 'e'] || word = ['f', 'a', 'l', 's', 'e'] ||
    isInteger word || isFloat word || isMoment word

/-- Whether a character is no mark of the grammar, blank space or line break. -/
def isAtom (c : Char) : Bool :=
  !(isBlank c || c = '\n' || c = '\r' || c = '#' || c = '.' || c = ',' || c = '=' ||
    c = '[' || c = ']' || c = '{' || c = '}')

/-- The word at the front of a text, where `blank` holds the blank space before the text, the last
first. Blank space belongs to the word if an atom follows it that does not begin with a quote. -/
def wordAfter (blank : List Char) : List Char → List Char
  | [] => []
  | c :: rest =>
    if isBlank c then wordAfter (c :: blank) rest
    else if blank.isEmpty && (isAtom c || c = '.') then c :: wordAfter [] rest
    else if isAtom c && c ≠ '"' && c ≠ '\'' then blank.reverse ++ c :: wordAfter [] rest
    else []

/-- The word at the front of a text: all that can be meant as one scalar. -/
def word (cs : List Char) : List Char :=
  wordAfter [] cs

/-- The text behind a scalar; its value is not kept, as no setting takes one. -/
def scalar? (cs : List Char) : Option (List Char) :=
  if isScalar (word cs) then some (cs.drop (word cs).length) else none

end Dataflow.Toml.Scalar
