import DotPaths.Number.Binary

/-! # The shortest decimal of a double

    A double is written with the fewest decimal digits that read back as the
    same double.  Every real number in an interval around the double rounds to
    it; for one digit, two digits and so on the two neighbours of the double on
    the grid of decimals with so many digits are tried, and the first grid with
    a neighbour in the interval wins.
-/

namespace DotPaths.Shortest

/-- The decimal `digits · 10 ^ exponent`. -/
structure Decimal where
  digits : Nat
  exponent : Int
  deriving DecidableEq, Repr

/-- Factors `(a, b)` with `10 ^ p / 2 ^ q = a / b`. -/
def factors (p q : Int) : Nat × Nat :=
  (tenTo p.toNat * twoTo (-q).toNat, tenTo (-p).toNat * twoTo q.toNat)

/-- The interval of the reals that round to `mantissa · 2 ^ exponent`, in
    quarters of `2 ^ exponent`: lower end, upper end, and whether the ends
    belong to it.  Below a power of two the doubles lie twice as dense. -/
def interval (mantissa : Nat) (exponent : Int) : Nat × Nat × Bool :=
  let low :=
    if mantissa == twoTo 52 && Binary.leastExponent < exponent then 4 * mantissa - 1
    else 4 * mantissa - 2
  (low, 4 * mantissa + 2, mantissa % 2 == 0)

/-- The largest `p` with `10 ^ p ≤ mantissa · 2 ^ exponent`, for a positive
    mantissa.  The binary logarithm leaves three candidates. -/
def decimalExponent (mantissa : Nat) (exponent : Int) : Int :=
  let guess := ((mantissa.log2 : Int) + exponent) * 30103 / 100000
  let fits (p : Int) : Bool :=
    let f := factors p exponent
    f.1 ≤ mantissa * f.2
  if fits (guess + 1) then guess + 1
  else if fits guess then guess
  else guess - 1

/-- The neighbour of `mantissa · 2 ^ exponent` on the grid of multiples of
    `10 ^ p` that rounds to it, if there is one; of two the nearer. -/
def onGrid (mantissa : Nat) (exponent p : Int) (low high : Nat) (closed : Bool) :
    Option Decimal :=
  let f := factors p (exponent - 2)
  let inside (k : Nat) : Bool :=
    if closed then low * f.2 ≤ k * f.1 && k * f.1 ≤ high * f.2
    else low * f.2 < k * f.1 && k * f.1 < high * f.2
  let value := 4 * mantissa * f.2
  let below := value / f.1
  let above := below + 1
  let nearer :=
    if 2 * value < (below + above) * f.1 then below
    else if 2 * value == (below + above) * f.1 && below % 2 == 0 then below
    else above
  if inside below && inside above then some ⟨nearer, p⟩
  else if inside below then some ⟨below, p⟩
  else if inside above then some ⟨above, p⟩
  else none

/-- Drop the zeros at the end of the digits. -/
def stripZeros : Nat → Decimal → Decimal
  | 0, d => d
  | fuel + 1, d =>
    if d.digits != 0 && d.digits % 10 == 0 then
      stripZeros fuel ⟨d.digits / 10, d.exponent + 1⟩
    else d

/-- The shortest decimal that rounds to `mantissa · 2 ^ exponent`, for a
    positive mantissa.  Seventeen digits always suffice. -/
def shortest (mantissa : Nat) (exponent : Int) : Decimal :=
  let (low, high, closed) := interval mantissa exponent
  let top := decimalExponent mantissa exponent
  let found := (List.range 17).findSome? fun (n : Nat) =>
    onGrid mantissa exponent (top - n) low high closed
  stripZeros 18 (found.getD ⟨mantissa * twoTo exponent.toNat, 0⟩)

end DotPaths.Shortest
