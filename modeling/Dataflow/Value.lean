import Dataflow.Decimal.Layout

/-! # Property values

A property value is an integer, a string or a double. Equality is by kind and content, doubles by
their bits.

* `Kind`: the three kinds of value, with their names.
* `Value`: a value, `Value.kind` and the three partial views.
* `Value.text`: a value as shown to people.
-/

namespace Dataflow

/-- The kinds of property value. -/
inductive Kind
  | int
  | string
  | double
deriving DecidableEq

/-- The spelling in the documents. -/
def Kind.name : Kind → String
  | .int => "INT"
  | .string => "STRING"
  | .double => "DOUBLE"

/-- Every kind, in the order the messages list them. -/
def Kind.all : List Kind := [.int, .string, .double]

/-- A property value. -/
inductive Value
  | int (n : Int64)
  | string (s : String)
  | double (x : Binary64)
deriving DecidableEq

namespace Value

/-- The kind of the value, which a schema or a parameter is checked against. -/
def kind : Value → Kind
  | .int _ => .int
  | .string _ => .string
  | .double _ => .double

/-- The integer, if the value is one. -/
def int? : Value → Option Int64
  | .int n => some n
  | _ => none

/-- The text, if the value is one. -/
def string? : Value → Option String
  | .string s => some s
  | _ => none

/-- The double, if the value is one. -/
def double? : Value → Option Binary64
  | .double x => some x
  | _ => none

/-- A minus sign for negative numbers. -/
def sign (negative : Bool) : String :=
  if negative then "-" else ""

/-- A double for people: the fewest digits that read back, of two equally near the one farther from
zero, never an exponent, and no point after an integral number. -/
def doubleText (x : Binary64) : String :=
  match x.parts with
  | .nan => "NaN"
  | .infinite negative => sign negative ++ "inf"
  | .finite negative 0 _ => sign negative ++ "0"
  | .finite negative m q => sign negative ++ Decimal.positional false (Decimal.shortest .up m q)

/-- A value for people: integers in decimal, strings as they are. -/
def text : Value → String
  | .int n => toString n.toInt
  | .string s => s
  | .double x => doubleText x

end Value

end Dataflow
