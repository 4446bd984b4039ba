import DotPaths.Number.Arith
import DotPaths.Number.Hypotenuse

/-! # Powers

    An integer to a non-negative integer power is exact.  Any other power of
    numbers that are not complex is computed with doubles, where zero bases,
    infinities and NaN have rules of their own; a negative base with a
    fractional exponent gives a complex number.
-/

namespace DotPaths

namespace Complex

/-- The power by repeated squaring: `p` is the current square and `r` the
    product so far. -/
def powNatLoop : Nat → Nat → Complex → Complex → Complex
  | 0, _, r, _ => r
  | fuel + 1, n, r, p =>
    if n == 0 then r
    else powNatLoop fuel (n / 2) (if n % 2 == 1 then r.mul p else r) (p.mul p)

/-- A power with a natural exponent. -/
def powNat (p : Complex) (n : Nat) : Complex :=
  powNatLoop (n + 1) n one p

/-- A power with a whole exponent; `none` for a zero to a negative power. -/
def powInt? (p : Complex) (n : Int) : Option Complex :=
  if 0 < n then some (p.powNat n.toNat) else one.div? (p.powNat n.natAbs)

/-- A power through length and angle.  There is `none` for a zero to a negative
    or complex power, and when the angle grows beyond the doubles, as it then
    has no direction. -/
def powPolar? (p q : Complex) : Option Complex :=
  if q.re == 0.0 && q.im == 0.0 then some one
  else if p.re == 0.0 && p.im == 0.0 then
    if q.im != 0.0 || q.re < 0.0 then none else some ⟨0.0, 0.0⟩
  else
    let size := Hypotenuse.length p.re p.im
    let angle := Float.atan2 p.im p.re
    let length := size.pow q.re
    let phase := angle * q.re
    let length := if q.im != 0.0 then length / Float.exp (angle * q.im) else length
    let phase := if q.im != 0.0 then phase + q.im * size.log else phase
    if phase.isInf then none else some ⟨length * phase.cos, length * phase.sin⟩

/-- The largest whole exponent that is computed by repeated squaring. -/
def squaringLimit : Float := 100.0

def pow (p q : Complex) : Except ArithFault Number :=
  let result :=
    if q.im == 0.0 && q.re == q.re.floor && q.re.abs ≤ squaringLimit then
      p.powInt? (if q.re < 0.0 then -((-q.re).toUInt64.toNat : Int) else q.re.toUInt64.toNat)
    else p.powPolar? q
  match result with
  | none => .error (.zeroToNegative .complex)
  | some r => if r.re.isInf || r.im.isInf then .error (.powerTooLarge .complex) else .ok r.toNumber

end Complex

namespace Number

/-- A power to an infinite exponent, by the size of the base. -/
def powInfinite (x y : Float) : Float :=
  if x.abs == 1.0 then 1.0
  else if (0.0 < y) == (1.0 < x.abs) then Binary.infinity false
  else 0.0

/-- A power of an infinity: infinite or zero, negative for an odd exponent. -/
def infinitePow (x y : Float) : Float :=
  let negative := Binary.isOdd y && Binary.signBit x
  if 0.0 < y then Binary.infinity negative else Binary.zero negative

/-- A power of a finite base other than zero with a finite exponent other than
    zero, where a negative base needs a whole exponent. -/
def powFinite (x y : Float) : Except ArithFault Number :=
  let negative := x < 0.0 && Binary.isOdd y
  let r := if x.abs == 1.0 then 1.0 else x.abs.pow y
  if r.isInf then .error (.powerTooLarge .real)
  else .ok (.real (if negative then -r else r))

/-- The power of two doubles. -/
def powReals (x y : Float) : Except ArithFault Number :=
  if y == 0.0 then .ok (.real 1.0)
  else if x.isNaN then .ok (.real x)
  else if y.isNaN then .ok (.real (if x == 1.0 then 1.0 else y))
  else if y.isInf then .ok (.real (powInfinite x y))
  else if x.isInf then .ok (.real (infinitePow x y))
  else if x == 0.0 then
    if y < 0.0 then .error (.zeroToNegative .real)
    else .ok (.real (if Binary.isOdd y then x else 0.0))
  else if x < 0.0 && !Binary.isWhole y then (Complex.ofReal x).pow (Complex.ofReal y)
  else powFinite x y

def pow (a b : Number) : Except ArithFault Number := do
  match ← widen a b with
  | .ints m n =>
    if 0 ≤ n then pure (.int (Integer.power m n.toNat))
    else powReals (← realOfInt m) (← realOfInt n)
  | .reals x y => powReals x y
  | .complexes p q => p.pow q

end Number

end DotPaths
