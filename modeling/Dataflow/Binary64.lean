/-! # Doubles as bit patterns

`Binary64` is an IEEE 754 double held as its 64 bits, so two doubles are equal exactly when their
bits are: a NaN equals itself and `0.0` differs from `-0.0`. Arithmetic is exact rational
arithmetic followed by one rounding to nearest, ties to even.

* `Binary64.parts`: what the bits stand for.
* `Binary64.ofRatio`: the double nearest to a quotient of naturals.
* `Binary64.scale`: a double times a power of ten, rounded once for each factor.
-/

namespace Dataflow

/-- A double, by its bits. -/
structure Binary64 where
  bits : UInt64
deriving DecidableEq

namespace Binary64

/-- What a bit pattern stands for. -/
inductive Parts
  | nan
  | infinite (negative : Bool)
  /-- The number `significand · 2 ^ exponent`, up to sign. -/
  | finite (negative : Bool) (significand : Nat) (exponent : Int)
deriving DecidableEq

/-- The parts of a double; the exponent of a finite one is at least -1074. -/
def parts (x : Binary64) : Parts :=
  let n := x.bits.toNat
  let negative := n / Nat.pow 2 63 = 1
  let biased : Nat := n / Nat.pow 2 52 % Nat.pow 2 11
  let fraction : Nat := n % Nat.pow 2 52
  if biased = 2047 then
    if fraction = 0 then .infinite negative else .nan
  else if biased = 0 then .finite negative fraction (-1074)
  else .finite negative (Nat.pow 2 52 + fraction) ((biased : Int) - 1075)

/-- Whether a double is a number, so neither NaN nor an infinity. -/
def isFinite (x : Binary64) : Bool :=
  match x.parts with
  | .finite .. => true
  | _ => false

/-- Whether a double is one of the two zeros. -/
def isZero (x : Binary64) : Bool :=
  match x.parts with
  | .finite _ 0 _ => true
  | _ => false

/-- The opposite double: only the sign bit changes, in zeros and infinities too. -/
def neg (x : Binary64) : Binary64 :=
  ⟨x.bits ^^^ 0x8000000000000000⟩

/-- Positive zero. -/
def zero : Binary64 := ⟨0⟩

/-- Positive infinity, what a result beyond the largest finite double rounds to. -/
def infinity : Binary64 := ⟨0x7ff0000000000000⟩

/-- The quotient `n / d` rounded to the nearest natural, ties to even. -/
def roundDiv (n d : Nat) : Nat :=
  let q := n / d
  let r := n % d
  if 2 * r < d ∨ (2 * r = d ∧ q % 2 = 0) then q else q + 1

/-- The fraction `num / (den · 2 ^ q)` as numerator and denominator. -/
def scaled (num den : Nat) (q : Int) : Nat × Nat :=
  (num * Nat.pow 2 (-q).toNat, den * Nat.pow 2 q.toNat)

/-- The nearest double to `num / den`, ties to even; infinity beyond the largest one. The exponent
of the last bit is chosen so that the significand has 53 bits, or fewer at the bottom of the
range; a significand rounded up to `2 ^ 53` carries into the exponent field. -/
def ofRatio (num den : Nat) : Binary64 :=
  if num = 0 then zero
  else
    let low : Int := max ((num.log2 : Int) - den.log2 - 53) (-1074)
    let (n, d) := scaled num den low
    let q := if n / d < Nat.pow 2 53 then low else low + 1
    let (n, d) := scaled num den q
    let bits := (q + 1074).toNat * Nat.pow 2 52 + roundDiv n d
    if bits < 0x7ff0000000000000 then ⟨bits.toUInt64⟩ else infinity

/-- The double nearest to `n`, ties to even. -/
def ofNat (n : Nat) : Binary64 :=
  ofRatio n 1

/-- The size of a finite double as a fraction of naturals. -/
def ratio (x : Binary64) : Nat × Nat :=
  match x.parts with
  | .finite _ m q => (m * Nat.pow 2 q.toNat, Nat.pow 2 (-q).toNat)
  | _ => (0, 1)

/-- The product of two non-negative finite doubles. -/
def mul (x y : Binary64) : Binary64 :=
  ofRatio (x.ratio.1 * y.ratio.1) (x.ratio.2 * y.ratio.2)

/-- The quotient of a non-negative finite double by a positive one. -/
def div (x y : Binary64) : Binary64 :=
  ofRatio (x.ratio.1 * y.ratio.2) (x.ratio.2 * y.ratio.1)

/-- The double nearest to `10 ^ n`. -/
def powTen (n : Nat) : Binary64 :=
  ofNat (Nat.pow 10 n)

/-- Divides by `10 ^ n`, in steps of 308 because larger powers of ten are no doubles. -/
def divPowTen (x : Binary64) (n : Nat) : Binary64 :=
  if n ≤ 308 then x.div (powTen n)
  else if x = zero then x
  else (x.div (powTen 308)).divPowTen (n - 308)
termination_by n

/-- A non-negative double times `10 ^ e`; `none` if that is beyond the largest double. -/
def scale (x : Binary64) : Int → Option Binary64
  | .ofNat e =>
    if x = zero then some x
    else if 308 < e then none
    else
      let y := x.mul (powTen e)
      if y.isFinite then some y else none
  | .negSucc e => some (x.divPowTen (e + 1))

end Binary64

end Dataflow
