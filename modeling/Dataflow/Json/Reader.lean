import Dataflow.Json.Printer
import Dataflow.Json.Token
import Dataflow.Text.Quoted

/-! # Reading JSON

Readers for containers and for the values that records are made of. A reader that finds a value of
another type names what it found. `depth` is the number of containers that may still be opened;
parts that are passed over may be nested to any depth.

* `list`, `object`: fold a reader over the items or members of a container.
* `skip`: passes over a value.
* `value`: reads a value as a tree.
* `text`, `int64`, `binary64`, `optional`: read values of one type.
* `document`: reads a whole text.
-/

namespace Dataflow.Json.Reader

open Token

/-! ## Containers -/

/-- The faults of a comma that nothing follows, which differ between parts that are read and parts
that are passed over. -/
structure CommaFaults where
  beforeBracket : Fault
  beforeBrace : Fault
  beforeEnd : Fault

/-- The faults of a list or record that is read into a value. -/
def CommaFaults.reading : CommaFaults := ⟨.trailingComma, .trailingComma, .ended .value⟩

/-- The faults of a value that is only skipped, whose messages differ. -/
def CommaFaults.skipping : CommaFaults := ⟨.expectedValue, .keyNotString, .ended .object⟩

variable {σ α β : Type}

/-- Folds `item` over the items up to the closing bracket; `first` tells whether none has been
read. Every round reads a character, so the text's length bounds the rounds. -/
def items (faults : CommaFaults) (item : σ → List Char → Step σ) :
    Nat → Bool → σ → List Char → Step σ
  | 0, _, _, _ => .error (.ended .list)
  | rounds + 1, first, acc, cs =>
    match dropBlank cs with
    | [] => .error (.ended .list)
    | ']' :: rest => .ok (acc, rest)
    | c :: rest =>
      if first then
        (item acc (c :: rest)).andThen fun acc rest => items faults item rounds false acc rest
      else if c = ',' then
        match dropBlank rest with
        | [] => .error (.ended .value)
        | ']' :: _ => .error faults.beforeBracket
        | cs => (item acc cs).andThen fun acc rest => items faults item rounds false acc rest
      else .error .expectedCommaOrBracket

/-- Folds `item` over the items of a list, after its opening bracket. -/
def list (faults : CommaFaults) (item : σ → List Char → Step σ) (start : σ) (cs : List Char) :
    Step σ :=
  items faults item (cs.length + 1) true start cs

/-- Folds `member` over the members up to the closing brace. `key` reads a key behind its opening
quote, and `member` goes on behind the closing one. -/
def members (faults : CommaFaults) (key : List Char → Step String)
    (member : σ → String → List Char → Step σ) : Nat → Bool → σ → List Char → Step σ
  | 0, _, _, _ => .error (.ended .object)
  | rounds + 1, first, acc, cs =>
    let read (rest : List Char) : Step σ :=
      (key rest).andThen fun k rest =>
        (member acc k rest).andThen fun acc rest => members faults key member rounds false acc rest
    match dropBlank cs with
    | [] => .error (.ended .object)
    | '}' :: rest => .ok (acc, rest)
    | c :: rest =>
      if first then
        if c = '"' then read rest else .error .keyNotString
      else if c = ',' then
        match dropBlank rest with
        | [] => .error faults.beforeEnd
        | '}' :: _ => .error faults.beforeBrace
        | '"' :: rest => read rest
        | _ => .error .keyNotString
      else .error .expectedCommaOrBrace

/-- Folds `member` over the members of an object, after its opening brace. -/
def object (faults : CommaFaults) (key : List Char → Step String)
    (member : σ → String → List Char → Step σ) (start : σ) (cs : List Char) : Step σ :=
  members faults key member (cs.length + 1) true start cs

/-! ## Passing over a value -/

/-- The text after a part that is passed over, as a step without a result. -/
def passed (rest : Except Fault (List Char)) : Step Unit :=
  rest.map fun rest => ((), rest)

/-- Whether a character begins a number. -/
def startsNumber (c : Char) : Bool :=
  c = '-' ∨ c.isDigit

/-- Passes over a value in which at most `levels` containers are nested. -/
def skipWithin : Nat → List Char → Step Unit
  | 0, _ => .error .expectedValue
  | levels + 1, cs =>
    match dropBlank cs with
    | [] => .error (.ended .value)
    | 'n' :: rest => passed (literal ['u', 'l', 'l'] rest)
    | 't' :: rest => passed (literal ['r', 'u', 'e'] rest)
    | 'f' :: rest => passed (literal ['a', 'l', 's', 'e'] rest)
    | '"' :: rest => passed (skipString rest)
    | '[' :: rest => list .skipping (fun _ cs => skipWithin levels cs) () rest
    | '{' :: rest =>
      object .skipping (fun cs => (passed (skipString cs)).andThen fun _ rest => .ok ("", rest))
        (fun _ _ cs => (passed (colon cs)).andThen fun _ cs => skipWithin levels cs) () rest
    | c :: rest =>
      if startsNumber c then passed (skipNumber (c :: rest)) else .error .expectedValue

/-- Passes over a value. Every container takes a character, so the text's length bounds the
nesting. -/
def skip (cs : List Char) : Step Unit :=
  skipWithin (cs.length + 1) cs

/-! ## Trees -/

/-- Reads any value, `depth` levels of nesting allowed. -/
def value (depth : Nat) (cs : List Char) : Step Json :=
  match dropBlank cs with
  | [] => .error (.ended .value)
  | 'n' :: rest => (passed (literal ['u', 'l', 'l'] rest)).andThen fun _ rest => .ok (.null, rest)
  | 't' :: rest =>
    (passed (literal ['r', 'u', 'e'] rest)).andThen fun _ rest => .ok (.bool true, rest)
  | 'f' :: rest =>
    (passed (literal ['a', 'l', 's', 'e'] rest)).andThen fun _ rest => .ok (.bool false, rest)
  | '"' :: rest => (Token.string rest).andThen fun s rest => .ok (.string s, rest)
  | '[' :: rest =>
    match depth with
    | 0 => .error .tooDeep
    | depth + 1 =>
      (list .reading
        (fun read cs => (value depth cs).andThen fun j rest => .ok (j :: read, rest))
        [] rest).andThen fun read rest => .ok (.array read.reverse, rest)
  | '{' :: rest =>
    match depth with
    | 0 => .error .tooDeep
    | depth + 1 =>
      (object .reading Token.string
        (fun read key cs =>
          (passed (colon cs)).andThen fun _ cs =>
            (value depth cs).andThen fun j rest => .ok ((key, j) :: read, rest)) [] rest).andThen
        fun read rest => .ok (.object read.reverse, rest)
  | c :: rest =>
    if startsNumber c then
      (Token.number (c :: rest)).andThen fun n rest => .ok (.number n, rest)
    else .error .expectedValue

/-! ## Values of one type -/

/-- A number as the messages about wrong types name it. -/
def shown : Number → String
  | .natural n => s!"integer `{n.toNat}`"
  | .negative n => s!"integer `-{n.val + 1}`"
  | .double x => s!"floating point `{doubleText x}`"

/-- The fault of a value that should have been something else. The value is read as far as naming
it takes, so a fault in it comes first. -/
def mismatch (expected : String) : List Char → Fault
  | [] => .ended .value
  | 'n' :: rest =>
    match literal ['u', 'l', 'l'] rest with
    | .error fault => fault
    | .ok _ => .wrongType "null" expected
  | 't' :: rest =>
    match literal ['r', 'u', 'e'] rest with
    | .error fault => fault
    | .ok _ => .wrongType "boolean `true`" expected
  | 'f' :: rest =>
    match literal ['a', 'l', 's', 'e'] rest with
    | .error fault => fault
    | .ok _ => .wrongType "boolean `false`" expected
  | '"' :: rest =>
    match Token.string rest with
    | .error fault => fault
    | .ok (s, _) => .wrongType s!"string {Text.quoted s}" expected
  | '[' :: _ => .wrongType "sequence" expected
  | '{' :: _ => .wrongType "map" expected
  | c :: rest =>
    if startsNumber c then
      match Token.number (c :: rest) with
      | .error fault => fault
      | .ok (n, _) => .wrongType (shown n) expected
    else .expectedValue

/-- Reads a string where the format asks for one. -/
def text (cs : List Char) : Step String :=
  match dropBlank cs with
  | '"' :: rest => Token.string rest
  | cs => .error (mismatch "a string" cs)

/-- A number as a 64-bit integer. A fraction or an exponent makes it a double, hence an error. -/
def int64OfNumber : Number → Except Fault Int64
  | .natural n =>
    if n.toNat < Nat.pow 2 63 then .ok (Int64.ofNat n.toNat)
    else .error (.integerOutOfRange n.toNat)
  | .negative n => .ok (Int64.ofInt (-1 - n.val))
  | .double x => .error (.wrongType (shown (.double x)) "i64")

/-- Reads an integer that fits 64 bits with a sign; a double is none, even an integral one. -/
def int64 (cs : List Char) : Step Int64 :=
  match dropBlank cs with
  | [] => .error (.ended .value)
  | c :: rest =>
    if startsNumber c then
      (Token.number (c :: rest)).andThen fun n rest => (int64OfNumber n).map fun i => (i, rest)
    else .error (mismatch "i64" (c :: rest))

/-- A number as a double; integers beyond 53 bits are rounded. -/
def binary64OfNumber : Number → Binary64
  | .natural n => Binary64.ofNat n.toNat
  | .negative n => (Binary64.ofNat (n.val + 1)).neg
  | .double x => x

/-- Reads a number where the format asks for a double. -/
def binary64 (cs : List Char) : Step Binary64 :=
  match dropBlank cs with
  | [] => .error (.ended .value)
  | c :: rest =>
    if startsNumber c then
      (Token.number (c :: rest)).andThen fun n rest => .ok (binary64OfNumber n, rest)
    else .error (mismatch "f64" (c :: rest))

/-- Reads `null` as nothing and anything else with a reader. -/
def optional (read : List Char → Step α) (cs : List Char) : Step (Option α) :=
  match dropBlank cs with
  | 'n' :: rest => (passed (literal ['u', 'l', 'l'] rest)).andThen fun _ rest => .ok (none, rest)
  | cs => (read cs).andThen fun a rest => .ok (some a, rest)

/-- Reads an array whose elements `read` reads. -/
def listOf (read : Nat → List Char → Step α) (depth : Nat) (cs : List Char) : Step (List α) :=
  match dropBlank cs with
  | '[' :: rest =>
    match depth with
    | 0 => .error .tooDeep
    | depth + 1 =>
      (list .reading
        (fun acc cs => (read depth cs).andThen fun a rest => .ok (a :: acc, rest)) [] rest).andThen
        fun acc rest => .ok (acc.reverse, rest)
  | cs => .error (mismatch "a sequence" cs)

/-- Reads an object by folding over its members, whose values are read behind their colons. -/
def fold (expected : String) (start : σ) (member : Nat → σ → String → List Char → Step σ)
    (depth : Nat) (cs : List Char) : Step σ :=
  match dropBlank cs with
  | '{' :: rest =>
    match depth with
    | 0 => .error .tooDeep
    | depth + 1 =>
      object .reading Token.string
        (fun acc key cs => (passed (colon cs)).andThen fun _ cs => member depth acc key cs)
        start rest
  | cs => .error (mismatch expected cs)

/-- Reads an object as a map; the last value of a repeated key stays. -/
def mapOf (read : Nat → List Char → Step α) (depth : Nat) (cs : List Char) : Step (KeyMap α) :=
  fold "a map" KeyMap.empty
    (fun depth m key cs => (read depth cs).andThen fun a rest => .ok (m.insert key a, rest))
    depth cs

/-! ## Documents -/

/-- The number of containers that may be nested in a text. -/
def depthLimit : Nat := 127

/-- Reads a whole text, which must hold one value and nothing else. -/
def document (read : Nat → List Char → Step α) (text : String) : Except Fault α :=
  (read depthLimit text.toList).andThen fun a rest =>
    if dropBlank rest = [] then .ok a else .error .trailingCharacters

end Dataflow.Json.Reader
