import Dataflow.Decimal.Layout
import Dataflow.Json

/-! # Writing JSON

A tree as text, either compact or spread over lines. Both layouts put the same tokens in the same
order; they differ in the blank space between them.

* `Json.Layout`: the two layouts.
* `Json.write`: the characters of a tree.
* `Json.compact`, `Json.pretty`: the text of a tree.
* `Json.print`: the text of a tree for those who expect that there may be none.
-/

namespace Dataflow.Json

/-- How the tokens of a document are set apart. -/
inductive Layout
  | compact
  /-- Every item and member on a line of its own, two spaces further in than its container. -/
  | pretty
deriving DecidableEq

/-- The break before an item or a closing bracket at a depth. -/
def Layout.lineBreak : Layout → Nat → List Char
  | .compact, _ => []
  | .pretty, depth => '\n' :: List.replicate (2 * depth) ' '

/-- What stands between a key and its value. -/
def Layout.colon : Layout → List Char
  | .compact => [':']
  | .pretty => [':', ' ']

/-! ## Strings -/

/-- A character inside a string: quotes, backslashes and control characters are escaped. -/
def escaped (c : Char) : List Char :=
  if c = '"' then ['\\', '"']
  else if c = '\\' then ['\\', '\\']
  else if c = '\x08' then ['\\', 'b']
  else if c = '\t' then ['\\', 't']
  else if c = '\n' then ['\\', 'n']
  else if c = '\x0c' then ['\\', 'f']
  else if c = '\r' then ['\\', 'r']
  else if c.toNat < 0x20 then
    ['\\', 'u', '0', '0', Nat.digitChar (c.toNat / 16), Nat.digitChar (c.toNat % 16)]
  else [c]

/-- The characters of a string with those escaped that must be. -/
def escapedAll : List Char → List Char
  | [] => []
  | c :: rest => escaped c ++ escapedAll rest

/-- A string as JSON text. -/
def quoted (s : String) : List Char :=
  '"' :: (escapedAll s.toList ++ ['"'])

/-! ## Numbers -/

/-- A double: the fewest digits that read back, of two equally near the even, with a point for
numbers from `1e-5` to below `1e16` and an exponent for all others. -/
def doubleText (x : Binary64) : String :=
  match x.parts with
  | .finite negative m q =>
    let sign := if negative then "-" else ""
    if m = 0 then sign ++ "0.0"
    else
      let digits := Decimal.shortest .toEven m q
      let lead := Decimal.leadingExponent digits
      let plain : Bool := -5 ≤ lead ∧ lead < 16
      sign ++ if plain then Decimal.positional true digits else Decimal.scientific digits
  | _ => "null"

/-- A number as JSON text; a double in its shortest form. -/
def Number.write : Number → List Char
  | .natural n => Decimal.digitChars n.toNat
  | .negative n => '-' :: Decimal.digitChars (n.val + 1)
  | .double x => (doubleText x).toList

/-! ## Trees -/

mutual

/-- A tree as JSON text, `depth` levels inside the document. -/
def write (l : Layout) (depth : Nat) : Json → List Char
  | .null => ['n', 'u', 'l', 'l']
  | .bool true => ['t', 'r', 'u', 'e']
  | .bool false => ['f', 'a', 'l', 's', 'e']
  | .number n => n.write
  | .string s => quoted s
  | .array [] => ['[', ']']
  | .array (j :: rest) =>
    '[' :: (l.lineBreak (depth + 1) ++ write l (depth + 1) j ++ writeItems l (depth + 1) rest ++
      l.lineBreak depth ++ [']'])
  | .object [] => ['{', '}']
  | .object ((key, j) :: rest) =>
    '{' :: (l.lineBreak (depth + 1) ++ quoted key ++ l.colon ++ write l (depth + 1) j ++
      writeMembers l (depth + 1) rest ++ l.lineBreak depth ++ ['}'])

/-- The elements after the first, each after its comma. -/
def writeItems (l : Layout) (depth : Nat) : List Json → List Char
  | [] => []
  | j :: rest => ',' :: (l.lineBreak depth ++ write l depth j ++ writeItems l depth rest)

/-- The members after the first, each after its comma. -/
def writeMembers (l : Layout) (depth : Nat) : List (String × Json) → List Char
  | [] => []
  | (key, j) :: rest =>
    ',' :: (l.lineBreak depth ++ quoted key ++ l.colon ++ write l depth j ++
      writeMembers l depth rest)

end

/-- The text of a tree. -/
def render (l : Layout) (j : Json) : String :=
  String.ofList (write l 0 j)

/-- A tree on one line. -/
def compact (j : Json) : String := render .compact j

/-- A tree on lines of its own for every item and member. -/
def pretty (j : Json) : String := render .pretty j

/-- The text of a tree, or why it has none. Keys are texts and every number has digits, so there is
no tree without one. -/
def print (l : Layout) (j : Json) : Except String String :=
  .ok (render l j)

end Dataflow.Json
