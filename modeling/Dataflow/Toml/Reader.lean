import Dataflow.Toml
import Dataflow.Toml.Scalar

/-! # Reading TOML

A document is a run of assignments and headers, one a line; a value may span lines between its
brackets or braces. At most `depthLimit` arrays and inline tables are nested, and at most as many
keys are joined by dots.

* `value?`: reads a value.
* `lines?`: reads the assignments and headers of a document.
* `document?`: the root table, or nothing if the text is malformed or binds a key twice.
-/

namespace Dataflow.Toml.Reader

open Token

/-! ## Keys -/

/-- The bytes between two rests of a document of `total` bytes. -/
def spanBetween (total : Nat) (before after : List Char) : Span :=
  let left := Json.Token.byteLength before
  ⟨total - left, left - Json.Token.byteLength after⟩

/-- Reads one part of a dotted key, with the span it stands in. -/
def simpleKey? (total : Nat) (cs : List Char) : Reading Key :=
  (key? cs).map fun (name, rest) => (⟨name, spanBetween total cs rest⟩, rest)

/-- How many arrays and inline tables may be nested, and how many keys joined. -/
def depthLimit : Nat := 80

/-- Reads at most so many keys joined by dots, and the blank space behind them: the last one and
those before it, where `path` holds those already read, the last first. -/
def keysAfter? (total : Nat) : Nat → List Key → List Char → Reading (List Key × Key)
  | 0, _, _ => none
  | most + 1, path, cs =>
    (simpleKey? total cs).bind fun (k, rest) =>
      match dropBlank rest with
      | '.' :: rest => keysAfter? total most (k :: path) (dropBlank rest)
      | rest => some ((path.reverse, k), rest)

/-- Reads keys joined by dots, and the blank space behind them. -/
def keys? (total : Nat) (cs : List Char) : Reading (List Key × Key) :=
  keysAfter? total depthLimit [] cs

/-! ## Values -/

/-- An assignment: the keys before the last one, and the entry under the last one. -/
abbrev Assignment := List Key × Entry Tree

/-- Reads an assignment, where `skip` gives the text behind what may stand around its sign. -/
def assignment? (total : Nat) (skip : List Char → Option (List Char))
    (value : List Char → Reading Tree) (cs : List Char) : Reading Assignment :=
  (keys? total cs).bind fun ((path, k), rest) =>
    ((skip rest).bind (mark? '=')).bind fun rest =>
      (skip rest).bind fun before =>
        (value before).map fun (t, after) => ((path, ⟨k, t, spanBetween total before after⟩), after)

/-- Reads items up to a closing character. A comma stands between two items, and one may stand
behind the last. -/
def items? {α : Type} (close : Char) (item : List Char → Reading α) :
    Nat → List α → List Char → Reading (List α)
  | 0, _, _ => none
  | rounds + 1, read, cs =>
    (gap cs).bind fun
      | [] => none
      | c :: rest =>
        if c = close then some (read.reverse, rest)
        else
          (item (c :: rest)).bind fun (a, rest) =>
            (gap rest).bind fun
              | [] => none
              | c :: rest =>
                if c = close then some ((a :: read).reverse, rest)
                else if c = ',' then items? close item rounds (a :: read) rest
                else none

/-- Reads a value, in which at most `depth` arrays and inline tables are nested. -/
def value? (total : Nat) : Nat → List Char → Reading Tree
  | 0, '[' :: _ => none
  | 0, '{' :: _ => none
  | depth + 1, '[' :: rest =>
    (items? ']' (value? total depth) (rest.length + 1) [] rest).map fun (ts, rest) =>
      (.array ts, rest)
  | depth + 1, '{' :: rest =>
    (items? '}' (assignment? total gap (value? total depth)) (rest.length + 1) [] rest).bind
      fun (as, rest) => (assignAll? [] as).map fun entries => (.table .inline entries, rest)
  | _, '"' :: rest => (string? ('"' :: rest)).map fun (s, rest) => (.string s, rest)
  | _, '\'' :: rest => (string? ('\'' :: rest)).map fun (s, rest) => (.string s, rest)
  | _, cs => (Scalar.scalar? cs).map fun rest => (.scalar, rest)

/-! ## Documents -/

/-- A line of a document that says something. -/
inductive Line
  | assignment (a : Assignment)
  | table (path : List Key) (key : Key)
  | element (path : List Key) (key : Key)

/-- Reads the keys of a header and its closing brackets. -/
def header? (total : Nat) (close : List Char) (cs : List Char) : Reading (List Key × Key) :=
  (keys? total (dropBlank cs)).bind fun (keys, rest) =>
    if rest.take close.length = close then some (keys, rest.drop close.length) else none

/-- Reads a header or an assignment. -/
def line? (total : Nat) : List Char → Reading Line
  | '[' :: '[' :: rest =>
    (header? total [']', ']'] rest).map fun ((path, k), rest) => (.element path k, rest)
  | '[' :: rest => (header? total [']'] rest).map fun ((path, k), rest) => (.table path k, rest)
  | cs =>
    (assignment? total (fun cs => some (dropBlank cs)) (value? total depthLimit) cs).map
      fun (a, rest) => (.assignment a, rest)

/-- Reads lines up to the end of the text, where `read` holds those already read, the last first.
-/
def lines? (total : Nat) : Nat → List Line → List Char → Option (List Line)
  | 0, _, _ => none
  | rounds + 1, read, cs =>
    (gap cs).bind fun
      | [] => some read.reverse
      | c :: rest =>
        (line? total (c :: rest)).bind fun (l, rest) =>
          (lineEnd rest).bind fun rest => lines? total rounds (l :: read) rest

/-- A header with the assignments below it. -/
structure Section where
  /-- Whether the header is that of an element of an array of tables. -/
  isElement : Bool
  path : List Key
  key : Key
  assignments : List Assignment

/-- The assignments before the first header, and the sections. -/
def sections : List Line → List Assignment × List Section
  | [] => ([], [])
  | .assignment a :: rest => (a :: (sections rest).1, (sections rest).2)
  | .table path k :: rest => ([], ⟨false, path, k, (sections rest).1⟩ :: (sections rest).2)
  | .element path k :: rest => ([], ⟨true, path, k, (sections rest).1⟩ :: (sections rest).2)

/-- Enters a section under its header. -/
def addSection? (entries : Entries) (s : Section) : Option Entries :=
  if s.isElement then append? s.path s.key s.assignments entries
  else define? s.path s.key s.assignments entries

/-- Skips the byte order mark. -/
def dropMark : List Char → List Char
  | '\uFEFF' :: rest => rest
  | cs => cs

/-- The root table of a document, or nothing if it is malformed or binds a key twice. -/
def document? (text : String) : Option Entries := do
  let cs := dropMark text.toList
  let (own, later) := sections (← lines? text.utf8ByteSize (cs.length + 1) [] cs)
  let root ← assignAll? [] own
  later.foldlM addSection? root

end Dataflow.Toml.Reader
