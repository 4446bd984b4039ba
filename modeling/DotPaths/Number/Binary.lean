import DotPaths.Number.Scale

/-! # Doubles by their parts

    A finite double is `± mantissa · 2 ^ exponent` with a mantissa below
    `2 ^ 53`.  This module takes a double apart, and builds the double nearest
    to a quotient of natural numbers.  Both directions work on exact natural
    numbers, so nothing is rounded twice.
-/

namespace DotPaths.Binary

/-- A finite double, `± mantissa · 2 ^ exponent`. -/
structure Parts where
  negative : Bool
  mantissa : Nat
  exponent : Int
  deriving DecidableEq, Repr

/-- The least exponent: that of the subnormal doubles. -/
def leastExponent : Int := -1074

/-- Is the sign bit set?  True for `-0.0` and for a NaN with that bit. -/
def signBit (x : Float) : Bool :=
  x.toBits.toNat / twoTo 63 == 1

/-- The parts of a finite double; `none` for infinities and NaN. -/
def parts? (x : Float) : Option Parts :=
  let bits := x.toBits.toNat
  let exponent : Nat := bits / twoTo 52 % twoTo 11
  let fraction : Nat := bits % twoTo 52
  if exponent == 2047 then none
  else if exponent == 0 then some ⟨signBit x, fraction, leastExponent⟩
  else some ⟨signBit x, twoTo 52 + fraction, exponent - 1075⟩

/-- Numerator and denominator of `mantissa · 2 ^ exponent`. -/
def ratio (mantissa : Nat) (exponent : Int) : Nat × Nat :=
  (mantissa * twoTo exponent.toNat, twoTo (-exponent).toNat)

/-- The quotient rounded to the nearest natural number, a half going to the
    even neighbour. -/
def roundDiv (num den : Nat) : Nat :=
  let q := num / den
  let r := num % den
  if 2 * r < den || (2 * r == den && q % 2 == 0) then q else q + 1

/-- The exponent of the double nearest to `num / den`: the one that leaves a
    mantissa of 53 bits, and at least that of the subnormal doubles. -/
def exponentFor (num den : Nat) : Int :=
  let e : Int := (num.log2 : Int) - den.log2 - 53
  let scaled := ratio 1 (-e)
  let e := if den * scaled.2 * twoTo 53 ≤ num * scaled.1 then e + 1 else e
  max e leastExponent

/-- The bits of `± mantissa · 2 ^ exponent`.  A mantissa of `2 ^ 53` carries
    into the exponent. -/
def bitsOf (negative : Bool) (mantissa : Nat) (exponent : Int) : Nat :=
  let magnitude :=
    if mantissa < twoTo 52 then mantissa
    else (exponent + 1075).toNat * twoTo 52 + (mantissa - twoTo 52)
  (if negative then twoTo 63 else 0) + magnitude

/-- A zero with the given sign. -/
def zero (negative : Bool) : Float :=
  Float.ofBits (bitsOf negative 0 leastExponent).toUInt64

/-- The infinity with the given sign. -/
def infinity (negative : Bool) : Float :=
  Float.ofBits (bitsOf negative (twoTo 52) 972).toUInt64

def nan : Float := 0.0 / 0.0

/-- The double nearest to `± num / den`, a half going to the even mantissa;
    `none` when that is beyond the finite doubles. -/
def ofRatio? (negative : Bool) (num den : Nat) : Option Float :=
  if num == 0 then some (zero negative)
  else
    let e := exponentFor num den
    let scaled := ratio 1 (-e)
    let mantissa := roundDiv (num * scaled.1) (den * scaled.2)
    let bits := bitsOf false mantissa e
    if bits < 2047 * twoTo 52 then some (Float.ofBits (bitsOf negative mantissa e).toUInt64)
    else none

/-- The double `± mantissa · 2 ^ exponent`, infinite when it is too large. -/
def ofParts (p : Parts) : Float :=
  let r := ratio p.mantissa p.exponent
  (ofRatio? p.negative r.1 r.2).getD (infinity p.negative)

/-- The double nearest to an integer; `none` when that is beyond the finite
    doubles. -/
def ofInt? (n : Int) : Option Float :=
  ofRatio? (n < 0) n.natAbs 1

/-- Is the double a whole number? -/
def isWhole (x : Float) : Bool :=
  match parts? x with
  | some p => 0 ≤ p.exponent || p.mantissa % twoTo (-p.exponent).toNat == 0
  | none => false

/-- The whole number next to the double on the side of zero; zero for infinities
    and NaN. -/
def truncate (x : Float) : Int :=
  match parts? x with
  | some p =>
    let r := ratio p.mantissa p.exponent
    if p.negative then -(r.1 / r.2 : Nat) else (r.1 / r.2 : Nat)
  | none => 0

/-- Is the double an odd whole number? -/
def isOdd (x : Float) : Bool :=
  match parts? x with
  | some p =>
    isWhole x && p.exponent ≤ 0 && p.mantissa / twoTo (-p.exponent).toNat % 2 == 1
  | none => false

/-- The exact order of an integer and a double; `none` for NaN. -/
def compareInt (n : Int) (x : Float) : Option Ordering :=
  match parts? x with
  | some p =>
    let r := ratio p.mantissa p.exponent
    let top : Int := if p.negative then -(r.1 : Int) else r.1
    some (compare (n * r.2) top)
  | none =>
    if x.isNaN then none
    else some (if signBit x then .gt else .lt)

/-- The exact remainder of two doubles, with the sign of the first. -/
def remainder (x y : Float) : Float :=
  match parts? x, parts? y with
  | some p, some q =>
    if q.mantissa == 0 then nan
    else
      let e := min p.exponent q.exponent
      let top := p.mantissa * twoTo (p.exponent - e).toNat
      let bottom := q.mantissa * twoTo (q.exponent - e).toNat
      ofParts ⟨p.negative, top % bottom, e⟩
  | some _, none => if y.isNaN then nan else x
  | none, _ => nan

/-- The remainder that takes the sign of the divisor. -/
def floorRemainder (x y : Float) : Float :=
  let r := remainder x y
  if r == 0.0 then zero (signBit y)
  else if (y < 0.0) != (r < 0.0) then r + y
  else r

end DotPaths.Binary
