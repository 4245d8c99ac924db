import Dataflow.Json.Token

/-! # The tokens of TOML

Readers for blank space, comments, strings and keys, each from the front of a list of characters.
A reader gives what it read and the text after it, or nothing if the text is malformed.

* `lineEnd`, `gap`: what may stand behind an expression, and between the parts of a value.
* `string?`: a string in any of its four forms.
* `key?`: a simple key, bare or quoted.
-/

namespace Dataflow.Toml.Token

/-- The outcome of reading from the front of a text. -/
abbrev Reading (α : Type) := Option (α × List Char)

/-- The text behind the character `c`. -/
def mark? (c : Char) : List Char → Option (List Char)
  | d :: rest => if d = c then some rest else none
  | [] => none

/-! ## Blank space and comments -/

/-- Whether a character is blank space within a line. -/
def isBlank (c : Char) : Bool :=
  c = ' ' ∨ c = '\t'

/-- The text from its first character that is not blank. -/
def dropBlank (cs : List Char) : List Char :=
  cs.dropWhile isBlank

/-- Whether a character may stand in a comment or a string: every one but the control characters,
of which the tab is allowed. -/
def isText (c : Char) : Bool :=
  c = '\t' ∨ (' ' ≤ c ∧ c ≠ '\x7f')

/-- The text behind the rest of a line that holds nothing but perhaps a comment. -/
def restOfLine (inComment : Bool) : List Char → Option (List Char)
  | [] => some []
  | '\n' :: rest => some rest
  | '\r' :: '\n' :: rest => some rest
  | c :: rest =>
    if inComment then if isText c then restOfLine true rest else none
    else if isBlank c then restOfLine false rest
    else if c = '#' then restOfLine true rest
    else none

/-- The text behind the rest of a line, outside comments. -/
def lineEnd (cs : List Char) : Option (List Char) :=
  restOfLine false cs

/-- The text behind blank space, line breaks and comments. -/
def gapFrom (inComment : Bool) : List Char → Option (List Char)
  | [] => some []
  | '\n' :: rest => gapFrom false rest
  | '\r' :: '\n' :: rest => gapFrom false rest
  | c :: rest =>
    if inComment then if isText c then gapFrom true rest else none
    else if isBlank c then gapFrom false rest
    else if c = '#' then gapFrom true rest
    else some (c :: rest)

/-- The text behind what may stand between the parts of a value. -/
def gap (cs : List Char) : Option (List Char) :=
  gapFrom false cs

/-! ## Escapes -/

/-- The number that hexadecimal digits spell. -/
def hexNumber? (digits : List Char) : Option Nat :=
  digits.foldl
    (fun n c => n.bind fun n => (Json.Token.hexValue? c).map fun d => n * 16 + d) (some 0)

/-- The character with a number that `count` hexadecimal digits spell. -/
def hexEscape? (count : Nat) (cs : List Char) : Reading Char :=
  if cs.length < count then none
  else
    (hexNumber? (cs.take count)).bind fun n =>
      if n.isValidChar then some (Char.ofNat n, cs.drop count) else none

/-- The character escaped by what follows a backslash. -/
def escape? : List Char → Reading Char
  | 'b' :: rest => some ('\x08', rest)
  | 't' :: rest => some ('\t', rest)
  | 'n' :: rest => some ('\n', rest)
  | 'f' :: rest => some ('\x0c', rest)
  | 'r' :: rest => some ('\r', rest)
  | 'e' :: rest => some ('\x1b', rest)
  | '"' :: rest => some ('"', rest)
  | '\\' :: rest => some ('\\', rest)
  | 'x' :: rest => hexEscape? 2 rest
  | 'u' :: rest => hexEscape? 4 rest
  | 'U' :: rest => hexEscape? 8 rest
  | _ => none

/-- The text from its first character that is neither blank nor a line break. -/
def dropBlankLines : List Char → List Char
  | '\n' :: rest => dropBlankLines rest
  | '\r' :: '\n' :: rest => dropBlankLines rest
  | c :: rest => if isBlank c then dropBlankLines rest else c :: rest
  | [] => []

/-- The text behind an escaped line break and the blank space after it, after the backslash. -/
def foldedLine? (cs : List Char) : Option (List Char) :=
  match dropBlank cs with
  | '\n' :: rest => some (dropBlankLines rest)
  | '\r' :: '\n' :: rest => some (dropBlankLines rest)
  | _ => none

/-! ## Strings -/

/-- The four forms of strings. -/
structure Form where
  quote : Char
  escapes : Bool
  /-- Whether the string may span lines; it then stands between tripled quotes. -/
  lines : Bool

/-- Reads a string up to its closing quotes; `read` holds its characters so far, the last first.
Of more than three quotes that close a string with lines, up to two belong to the string. Every
round reads a character, so the text's length bounds the rounds. -/
def body (f : Form) : Nat → List Char → List Char → Reading String
  | 0, _, _ => none
  | _, _, [] => none
  | rounds + 1, read, '\r' :: '\n' :: rest =>
    if f.lines then body f rounds ('\n' :: '\r' :: read) rest else none
  | rounds + 1, read, '\n' :: rest =>
    if f.lines then body f rounds ('\n' :: read) rest else none
  | rounds + 1, read, c :: rest =>
    if c = f.quote then
      if f.lines then
        let run := ((c :: rest).takeWhile (· = f.quote)).length
        if run < 3 then
          body f rounds (List.replicate run f.quote ++ read) ((c :: rest).drop run)
        else
          let own := min (run - 3) 2
          some (.ofList (List.replicate own f.quote ++ read).reverse, (c :: rest).drop (own + 3))
      else some (.ofList read.reverse, rest)
    else if f.escapes && c = '\\' then
      match if f.lines then foldedLine? rest else none with
      | some rest => body f rounds read rest
      | none => (escape? rest).bind fun (e, rest) => body f rounds (e :: read) rest
    else if isText c then body f rounds (c :: read) rest
    else none

/-- Reads a string of a form, after its opening quotes. -/
def stringTail? (f : Form) (cs : List Char) : Reading String :=
  body f (cs.length + 1) [] cs

/-- A multi-line string does not begin with the break after its quotes. -/
def dropFirstBreak : List Char → List Char
  | '\n' :: rest => rest
  | '\r' :: '\n' :: rest => rest
  | cs => cs

/-- Reads a string in any of the four forms. -/
def string? : List Char → Reading String
  | '"' :: '"' :: '"' :: rest => stringTail? ⟨'"', true, true⟩ (dropFirstBreak rest)
  | '\'' :: '\'' :: '\'' :: rest => stringTail? ⟨'\'', false, true⟩ (dropFirstBreak rest)
  | '"' :: rest => stringTail? ⟨'"', true, false⟩ rest
  | '\'' :: rest => stringTail? ⟨'\'', false, false⟩ rest
  | _ => none

/-! ## Keys -/

/-- Whether a character may stand in a key without quotes. -/
def isBare (c : Char) : Bool :=
  c.isAlphanum ∨ c = '_' ∨ c = '-'

/-- Reads a key, quoted or bare. -/
def key? : List Char → Reading String
  | '"' :: rest => stringTail? ⟨'"', true, false⟩ rest
  | '\'' :: rest => stringTail? ⟨'\'', false, false⟩ rest
  | cs =>
    match cs.takeWhile isBare with
    | [] => none
    | name => some (.ofList name, cs.dropWhile isBare)

end Dataflow.Toml.Token
