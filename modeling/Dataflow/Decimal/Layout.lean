import Dataflow.Decimal.Shortest

/-! # Layouts of decimals

How digits and an exponent are written. `positional` never uses an exponent, `scientific` always
does. Which of the two a number gets, and whether an integral one keeps its point, is for the
format that writes it.
-/

namespace Dataflow.Decimal

/-- The decimal digits of `n`, without leading zeros. -/
def digitChars (n : Nat) : List Char :=
  Nat.toDigits 10 n

/-- The padding between the digits and the point. -/
def zeros (count : Nat) : List Char :=
  List.replicate count '0'

/-- Digits without an exponent. An integral number ends in `.0` if `point` asks for it. -/
def positional (point : Bool) (d : Digits) : String :=
  let digits := digitChars d.coefficient
  String.ofList <|
    if 0 ≤ d.exponent then
      digits ++ zeros d.exponent.toNat ++ if point then ['.', '0'] else []
    else
      let places := (-d.exponent).toNat
      if places < digits.length then
        let whole := digits.length - places
        digits.take whole ++ '.' :: digits.drop whole
      else
        '0' :: '.' :: zeros (places - digits.length) ++ digits

/-- The power of ten of the first digit; it decides between plain and scientific layout. -/
def leadingExponent (d : Digits) : Int :=
  d.exponent + (digitChars d.coefficient).length - 1

/-- One digit, a point before further ones, and the exponent with its sign. -/
def scientific (d : Digits) : String :=
  let mantissa := match digitChars d.coefficient with
    | first :: second :: rest => first :: '.' :: second :: rest
    | digits => digits
  let e := leadingExponent d
  let sign := if e < 0 then '-' else '+'
  String.ofList (mantissa ++ 'e' :: sign :: digitChars e.natAbs)

end Dataflow.Decimal
