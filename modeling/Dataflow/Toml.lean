/-! # TOML trees

The tables of a TOML document, with the bytes that spell each key and value, and the rules by which
headers and dotted keys put them together: a key is bound once, a table is defined once, and what
was written as a value is never extended.

* `Tree`: a value, a table or an array of tables.
* `assign?`: binds a dotted key within a table.
* `define?`, `append?`: what a header of a table, and of an element of an array of tables, does.
-/

namespace Dataflow.Toml

/-- A range of bytes of a document. -/
structure Span where
  start : Nat
  length : Nat
deriving DecidableEq, Inhabited

/-- A key and where it stands. -/
structure Key where
  name : String
  span : Span
deriving DecidableEq

/-- How a table came to be, which decides what may be added to it. -/
inductive Origin
  | header
  | implied
  | dotted
  | inline
deriving DecidableEq

/-- A key, what it is bound to, and where that stands. -/
structure Entry (τ : Type) where
  key : Key
  value : τ
  span : Span

/-- What a key can be bound to. -/
inductive Tree
  | string (text : String)
  /-- A number, a boolean or a date, of which nothing else is kept. -/
  | scalar
  | array (items : List Tree)
  | table (origin : Origin) (entries : List (Entry Tree))
  /-- An array whose elements have headers of their own, the last one first. -/
  | tables (latest : List (Entry Tree)) (earlier : List (List (Entry Tree)))

/-- The entries of a table. -/
abbrev Entries := List (Entry Tree)

/-- The entry under a name. -/
def find? (name : String) (entries : Entries) : Option (Entry Tree) :=
  List.find? (fun e => e.key.name = name) entries

/-- Enters or replaces an entry, which comes last either way. -/
def put (entries : Entries) (e : Entry Tree) : Entries :=
  (entries.filter fun other => other.key.name ≠ e.key.name) ++ [e]

/-- Changes the table that a path of keys leads to. Tables that are missing on the way are made,
with the origin `made`; an array of tables is entered at its last element. Along dotted keys only
tables without a header can be entered. -/
def descend? (made : Origin) (change : Origin → Entries → Option Entries) :
    List Key → Origin → Entries → Option Entries
  | [], origin, entries => change origin entries
  | k :: path, _, entries =>
    match find? k.name entries with
    | none => do
      let inner ← descend? made change path made []
      return put entries ⟨k, .table made inner, k.span⟩
    | some ⟨key, .table origin inner, span⟩ =>
      if origin = .inline ∨ (made = .dotted ∧ origin = .header) then none
      else do
        let inner ← descend? made change path origin inner
        return put entries ⟨key, .table origin inner, span⟩
    | some ⟨key, .tables latest earlier, span⟩ => do
      let latest ← descend? made change path .header latest
      return put entries ⟨key, .tables latest earlier, span⟩
    | some _ => none

/-- Binds the last of some keys within the table that the others lead to. That table has to come
from the same kind of key, and the last key has to be free. -/
def assign? (path : List Key) (e : Entry Tree) (entries : Entries) : Option Entries :=
  descend? .dotted
    (fun origin inner =>
      if path ≠ [] ∧ origin ≠ .dotted ∨ (find? e.key.name inner).isSome then none
      else some (put inner e))
    path .header entries

/-- Makes assignments in turn; there is no result if one clashes with an earlier one. -/
def assignAll? (entries : Entries) : List (List Key × Entry Tree) → Option Entries
  | [] => some entries
  | (path, e) :: rest => (assign? path e entries).bind fun entries => assignAll? entries rest

/-- Defines a table by its header and the assignments below it. It may have been implied before,
and then keeps what is in it. -/
def define? (path : List Key) (key : Key) (assignments : List (List Key × Entry Tree))
    (entries : Entries) : Option Entries :=
  descend? .implied
    (fun _ inner => do
      let known ← match find? key.name inner with
        | none => some []
        | some ⟨_, .table .implied known, _⟩ => some known
        | some _ => none
      let table ← assignAll? known assignments
      return put inner ⟨key, .table .header table, key.span⟩)
    path .header entries

/-- Appends an element to an array of tables by its header and the assignments below it. -/
def append? (path : List Key) (key : Key) (assignments : List (List Key × Entry Tree))
    (entries : Entries) : Option Entries :=
  descend? .implied
    (fun _ inner => do
      let table ← assignAll? [] assignments
      match find? key.name inner with
      | none => some (put inner ⟨key, .tables table [], key.span⟩)
      | some ⟨known, .tables latest earlier, span⟩ =>
        some (put inner ⟨known, .tables table (latest :: earlier), span⟩)
      | some _ => none)
    path .header entries

end Dataflow.Toml
