import DotPaths.Number.Basic

/-! # Calculating with numbers

    A calculation takes place in the wider of the kinds of its two operands:
    integers stay exact, an integer beside a double becomes the nearest double,
    and beside a complex number both become complex.
-/

namespace DotPaths

/-- A complex number of two doubles. -/
structure Complex where
  re : Float
  im : Float

namespace Complex

def ofReal (x : Float) : Complex := ⟨x, 0.0⟩

def one : Complex := ⟨1.0, 0.0⟩

def toNumber (p : Complex) : Number := .complex p.re p.im

def add (p q : Complex) : Complex := ⟨p.re + q.re, p.im + q.im⟩

def sub (p q : Complex) : Complex := ⟨p.re - q.re, p.im - q.im⟩

def mul (p q : Complex) : Complex :=
  ⟨p.re * q.re - p.im * q.im, p.re * q.im + p.im * q.re⟩

/-- The quotient, computed by scaling with the larger part of the divisor;
    `none` for a zero divisor. -/
def div? (p q : Complex) : Option Complex :=
  if q.im.abs ≤ q.re.abs then
    if q.re.abs == 0.0 then none
    else
      let ratio := q.im / q.re
      let scale := q.re + q.im * ratio
      some ⟨(p.re + p.im * ratio) / scale, (p.im - p.re * ratio) / scale⟩
  else if q.re.abs ≤ q.im.abs then
    let ratio := q.re / q.im
    let scale := q.re * ratio + q.im
    some ⟨(p.re * ratio + p.im) / scale, (p.im * ratio - p.re) / scale⟩
  else some ⟨Binary.nan, Binary.nan⟩

end Complex

/-- Two operands brought to one kind. -/
inductive Operands where
  | ints (a b : Int)
  | reals (x y : Float)
  | complexes (p q : Complex)

namespace Number

/-- The double nearest to an integer, which must be within the doubles. -/
def realOfInt (n : Int) : Except ArithFault Float :=
  match Binary.ofInt? n with
  | some x => .ok x
  | none => .error .integerTooLarge

/-- The number as a complex number. -/
def toComplex : Number → Except ArithFault Complex
  | .int n => (realOfInt n).map Complex.ofReal
  | .real x => .ok (Complex.ofReal x)
  | .complex re im => .ok ⟨re, im⟩

/-- Two numbers brought to the wider of their kinds. -/
def widen : Number → Number → Except ArithFault Operands
  | .int a, .int b => .ok (.ints a b)
  | .int a, .real y => (realOfInt a).map (.reals · y)
  | .real x, .int b => (realOfInt b).map (.reals x ·)
  | .real x, .real y => .ok (.reals x y)
  | a, b => do
    let p ← a.toComplex
    let q ← b.toComplex
    pure (.complexes p q)

def add (a b : Number) : Except ArithFault Number := do
  match ← widen a b with
  | .ints m n => pure (.int (m + n))
  | .reals x y => pure (.real (x + y))
  | .complexes p q => pure (p.add q).toNumber

def sub (a b : Number) : Except ArithFault Number := do
  match ← widen a b with
  | .ints m n => pure (.int (m - n))
  | .reals x y => pure (.real (x - y))
  | .complexes p q => pure (p.sub q).toNumber

def mul (a b : Number) : Except ArithFault Number := do
  match ← widen a b with
  | .ints m n => pure (.int (m * n))
  | .reals x y => pure (.real (x * y))
  | .complexes p q => pure (p.mul q).toNumber

/-- The quotient of two integers, as the nearest double.  A zero quotient is
    negative when the divisor is. -/
def divInts (m n : Int) : Except ArithFault Number :=
  if n == 0 then .error (.divisionByZero .whole)
  else
    match Binary.ofRatio? ((m < 0) != (n < 0)) m.natAbs n.natAbs with
    | some x => .ok (.real x)
    | none => .error .quotientTooLarge

def div (a b : Number) : Except ArithFault Number := do
  match ← widen a b with
  | .ints m n => divInts m n
  | .reals x y => if y == 0.0 then throw (.divisionByZero .real) else pure (.real (x / y))
  | .complexes p q =>
    match p.div? q with
    | some r => pure r.toNumber
    | none => throw (.divisionByZero .complex)

/-- The remainder, which takes the sign of the divisor. -/
def mod (a b : Number) : Except ArithFault Number :=
  if a.kind == .complex || b.kind == .complex then .error (.unsupported "%" a.kind b.kind)
  else do
    match ← widen a b with
    | .ints m n => if n == 0 then throw (.moduloByZero .whole) else pure (.int (m.fmod n))
    | .reals x y =>
      if y == 0.0 then throw (.moduloByZero .real) else pure (.real (Binary.floorRemainder x y))
    | .complexes _ _ => throw (.unsupported "%" a.kind b.kind)

/-- A bitwise operation, which only integers have. -/
def bitwise (symbol : String) (f : Int → Int → Int) : Number → Number → Except ArithFault Number
  | .int m, .int n => .ok (.int (f m n))
  | a, b => .error (.unsupported symbol a.kind b.kind)

/-! ## Comparing -/

/-- The order of two doubles; `none` when one is a NaN. -/
def compareReals (x y : Float) : Option Ordering :=
  if x < y then some .lt
  else if y < x then some .gt
  else if x == y then some .eq
  else none

/-- Equality of two numbers of any kinds, exact between an integer and a
    double. -/
def equals : Number → Number → Bool
  | .int m, b => b.equalsInt m
  | a, .int n => a.equalsInt n
  | .real x, .real y => x == y
  | .real x, .complex re im => re == x && im == 0.0
  | .complex re im, .real y => re == y && im == 0.0
  | .complex re im, .complex re' im' => re == re' && im == im'

/-- The order of two numbers, exact between an integer and a double: outside
    `none` when they have no order at all, inside `none` next to a NaN. -/
def order? : Number → Number → Option (Option Ordering)
  | .int m, .int n => some (some (compare m n))
  | .int m, .real y => some (Binary.compareInt m y)
  | .real x, .int n => some ((Binary.compareInt n x).map Ordering.swap)
  | .real x, .real y => some (compareReals x y)
  | _, _ => none

/-- A comparison that holds for the orders that `holds` accepts. -/
def ordered (symbol : String) (holds : Ordering → Bool) (a b : Number) :
    Except ArithFault Bool :=
  match order? a b with
  | some (some o) => .ok (holds o)
  | some none => .ok false
  | none => .error (.unordered symbol a.kind b.kind)

end Number

end DotPaths
