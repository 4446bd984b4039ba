import DotPaths.Number.Scale
import DotPaths.Text.Blank
import DotPaths.Text.Digit

/-! # Integers as text and as bits

    Writing and reading whole numbers in decimal, both bounded by the same
    limit on the number of digits, and the bitwise operations on integers of
    unbounded width in two's complement.
-/

namespace DotPaths.Integer

/-- The most decimal digits that are written or read. -/
def digitLimit : Nat := 4300

/-! ## Writing -/

/-- The decimal digits with a minus sign in front of a negative number. -/
def decimal (n : Int) : List Char :=
  if n < 0 then '-' :: Nat.toDigits 10 n.natAbs else Nat.toDigits 10 n.natAbs

/-- Does the number have more digits than are written? -/
def isTooLong (n : Int) : Bool :=
  tenTo digitLimit ≤ n.natAbs

/-! ## Reading -/

/-- Why a text is not read as an integer. -/
inductive Rejection where
  /-- It does not follow the grammar. -/
  | malformed
  /-- It has so many digits, more than the limit. -/
  | tooLong (digits : Nat)
  deriving DecidableEq, Repr

/-- Digits collected from the front of a text. -/
structure Scan where
  /-- The digits, last one first. -/
  digits : List Nat
  /-- Was the last character taken a digit? -/
  closed : Bool
  /-- What follows. -/
  rest : List Char

/-- Take digits, with single underscores between them, as long as they last.
    An underscore is taken only after a digit. -/
def scan (digits : List Nat) (closed : Bool) : List Char → Scan
  | [] => ⟨digits, closed, []⟩
  | c :: cs =>
    match Text.digitValue? c with
    | some d => scan (d :: digits) true cs
    | none => if c == '_' && closed then scan digits false cs else ⟨digits, closed, c :: cs⟩

/-- The number that digits spell, last digit first. -/
def ofDigits : List Nat → Nat
  | [] => 0
  | d :: ds => ofDigits ds * 10 + d

/-- A sign and what follows it. -/
def readSign : List Char → Bool × List Char
  | '-' :: cs => (true, cs)
  | '+' :: cs => (false, cs)
  | cs => (false, cs)

/-- Read an integer: padding, an optional sign, decimal digits of any script
    with single underscores between them, padding. -/
def read (cs : List Char) : Except Rejection Int :=
  let (negative, body) := readSign (cs.dropWhile Text.isPadding)
  let s := scan [] false body
  if !s.closed then .error .malformed
  else if digitLimit < s.digits.length then .error (.tooLong s.digits.length)
  else if !(s.rest.dropWhile Text.isPadding).isEmpty then .error .malformed
  else .ok (if negative then -(ofDigits s.digits : Int) else ofDigits s.digits)

/-- Read an integer from a text that may hold ASCII characters only. -/
def readAscii (cs : List Char) : Except Rejection Int :=
  if cs.all fun c => c.toNat < 128 then read cs else .error .malformed

/-! ## Powers -/

/-- The power with a natural exponent.  Bases without size need no
    multiplication, so the exponent may be of any size for them. -/
def power (m : Int) (n : Nat) : Int :=
  if n = 0 then 1
  else if m.natAbs ≤ 1 then if n % 2 = 0 then m * m else m
  else
    let size : Int := Nat.pow m.natAbs n
    if m < 0 && n % 2 = 1 then -size else size

/-! ## Bits -/

/-- The bits that differ from the sign of the number. -/
def magnitude (n : Int) : Nat :=
  if n < 0 then (-n - 1).toNat else n.toNat

/-- The number with the given sign whose other bits are `bits`. -/
def ofMagnitude (negative : Bool) (bits : Nat) : Int :=
  if negative then -(bits : Int) - 1 else bits

/-- The bits of `a` that `b` does not have. -/
def without (a b : Nat) : Nat := a ^^^ (a &&& b)

/-- Bitwise conjunction. -/
def bitAnd (a b : Int) : Int :=
  let m := magnitude a
  let n := magnitude b
  match decide (a < 0), decide (b < 0) with
  | false, false => ofMagnitude false (m &&& n)
  | false, true => ofMagnitude false (without m n)
  | true, false => ofMagnitude false (without n m)
  | true, true => ofMagnitude true (m ||| n)

/-- Bitwise disjunction. -/
def bitOr (a b : Int) : Int :=
  let m := magnitude a
  let n := magnitude b
  match decide (a < 0), decide (b < 0) with
  | false, false => ofMagnitude false (m ||| n)
  | false, true => ofMagnitude true (without n m)
  | true, false => ofMagnitude true (without m n)
  | true, true => ofMagnitude true (m &&& n)

/-- Bitwise exclusive disjunction. -/
def bitXor (a b : Int) : Int :=
  ofMagnitude ((a < 0) != (b < 0)) (magnitude a ^^^ magnitude b)

end DotPaths.Integer
