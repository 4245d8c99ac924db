import Dataflow.Binary64

/-! # Shortest decimals

The fewest decimal digits that read back as the same double. A positive double stands for every
real that rounds to it, an interval around its value; of all grids `10 ^ k` the coarsest with a
point in the interval gives the fewest digits, and of two such points the nearer is taken. Which
one that is when both are equally near is for the format that writes the digits.

* `Decimal.Digits`: a natural times a power of ten.
* `Decimal.Tie`: the choice between two points that are equally near.
* `Decimal.gridPoint`: the point of one grid that lies in the interval.
* `Decimal.shortest`: the point on the coarsest grid that has one.
-/

namespace Dataflow.Decimal

/-- The number `coefficient · 10 ^ exponent`. -/
structure Digits where
  coefficient : Nat
  exponent : Int
deriving DecidableEq

/-- The choice between the two neighbours of a value that lies in the middle between them. -/
inductive Tie where
  | toEven
  | up
deriving DecidableEq

/-- Whether a tie goes to the lower of the two candidates. -/
def Tie.takesBelow (tie : Tie) (below : Nat) : Bool :=
  match tie with
  | .toEven => below % 2 == 0
  | .up => false

/-- The nearest multiple of `10 ^ k` to `m · 2 ^ q` if it rounds to that double, where the ends of
the interval count exactly for an even `m`. Lengths are measured in quarters of the last bit, as
the gap below a power of two is half as wide as the one above. -/
def gridPoint (tie : Tie) (m : Nat) (q k : Int) : Option Digits :=
  let unit := Nat.pow 2 (q - 2).toNat * Nat.pow 10 (-k).toNat
  let step := Nat.pow 2 (2 - q).toNat * Nat.pow 10 k.toNat
  let value := 4 * m * unit
  let low := (4 * m - if m = Nat.pow 2 52 ∧ -1074 < q then 1 else 2) * unit
  let high := (4 * m + 2) * unit
  let inside (d : Nat) : Bool :=
    if m % 2 = 0 then low ≤ d * step ∧ d * step ≤ high else low < d * step ∧ d * step < high
  let below := value / step
  let above := below + 1
  let middle := (below + above) * step
  let nearer :=
    if 2 * value < middle ∨ (2 * value = middle ∧ tie.takesBelow below) then below else above
  let farther := if nearer = below then above else below
  if inside nearer then some ⟨nearer, k⟩
  else if inside farther then some ⟨farther, k⟩
  else none

/-- The fewest digits that read back as `m · 2 ^ q`, for `0 < m`. The search starts at a power of
ten above the value; seventeen digits always suffice. -/
def shortest (tie : Tie) (m : Nat) (q : Int) : Digits :=
  let start : Int := (m.log2 + 1 + q) * 30103 / 100000 + 2
  ((List.range 24).findSome? fun (i : Nat) => gridPoint tie m q (start - i)).getD ⟨m, q⟩

end Dataflow.Decimal
