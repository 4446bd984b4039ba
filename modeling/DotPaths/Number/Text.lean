import DotPaths.Number.Basic
import DotPaths.Number.Shortest

/-! # Numbers as text

    Integers are written in decimal, as long as they have no more than 4300
    digits.  A double is written with the fewest digits that read back; the
    layout says which exponents are written positionally.
-/

namespace DotPaths

/-- How the shortest decimal of a double is laid out. -/
structure Layout where
  /-- The least exponent of ten that is written positionally. -/
  lowest : Int
  /-- The greatest exponent of ten that is written positionally. -/
  highest : Int
  /-- Does a whole number get a point and a zero? -/
  pointZero : Bool

namespace Layout

/-- The exponent part: its sign and at least two digits. -/
def exponentPart (e : Int) : List Char :=
  let digits := Nat.toDigits 10 e.natAbs
  'e' :: (if e < 0 then '-' else '+') :: List.replicate (2 - digits.length) '0' ++ digits

/-- A decimal under a layout. -/
def write (l : Layout) (d : Shortest.Decimal) : List Char :=
  let digits := Nat.toDigits 10 d.digits
  let top : Int := d.exponent + digits.length - 1
  if l.lowest ≤ top && top ≤ l.highest then
    if 0 ≤ d.exponent then
      digits ++ List.replicate d.exponent.toNat '0' ++ (if l.pointZero then ['.', '0'] else [])
    else if 0 ≤ top then
      digits.take (top.toNat + 1) ++ '.' :: digits.drop (top.toNat + 1)
    else '0' :: '.' :: List.replicate ((-top).toNat - 1) '0' ++ digits
  else
    match digits with
    | [d] => d :: exponentPart top
    | d :: ds => d :: '.' :: ds ++ exponentPart top
    | [] => []

/-- A double under a layout. -/
def writeReal (l : Layout) (x : Float) : List Char :=
  match Binary.parts? x with
  | some p =>
    let d : Shortest.Decimal :=
      if p.mantissa == 0 then ⟨0, 0⟩ else Shortest.shortest p.mantissa p.exponent
    (if p.negative then ['-'] else []) ++ l.write d
  | none =>
    if x.isNaN then "nan".toList
    else if Binary.signBit x then "-inf".toList
    else "inf".toList

end Layout

namespace Number

/-- Doubles are written positionally below `10 ^ 16` and from `10 ^ -4` on,
    and whole ones show a point and a zero. -/
def realLayout : Layout := ⟨-4, 15, true⟩

/-- The parts of a complex number leave out the point and the zero. -/
def partLayout : Layout := ⟨-4, 15, false⟩

/-- A complex number: between brackets, or the imaginary part alone when the
    real part is a positive zero. -/
def complexText (re im : Float) : String :=
  let imaginary := partLayout.writeReal im ++ ['j']
  if re == 0.0 && !Binary.signBit re then String.ofList imaginary
  else
    let plus := if imaginary.head? == some '-' then [] else ['+']
    String.ofList ('(' :: partLayout.writeReal re ++ plus ++ imaginary ++ [')'])

/-- The text of a number.  Integers with too many digits have none. -/
def text : Number → Except ArithFault String
  | .int n =>
    if Integer.isTooLong n then .error .tooManyDigits else .ok (String.ofList (Integer.decimal n))
  | .real x => .ok (String.ofList (realLayout.writeReal x))
  | .complex re im => .ok (complexText re im)

/-! ## Reading a number back -/

/-- Digits at the front of a text, last one first, and what follows; `none` when
    an underscore stands behind them. -/
def takeDigits? (cs : List Char) : Option (List Nat × List Char) :=
  let s := Integer.scan [] false cs
  if s.closed || s.digits.isEmpty then some (s.digits, s.rest) else none

/-- Beyond this power of ten all decimals are infinite as doubles, and below its
    inverse all are zero. -/
def decimalReach : Int := 400

/-- The double nearest to `digits · 10 ^ exponent`. -/
def ofDecimal (negative : Bool) (digits : Nat) (exponent : Int) : Float :=
  let magnitude : Int := (digits.log2 : Int) * 30103 / 100000 + exponent
  if digits == 0 || magnitude < -decimalReach then Binary.zero negative
  else if decimalReach < magnitude then Binary.infinity negative
  else
    (Binary.ofRatio? negative (digits * tenTo exponent.toNat) (tenTo (-exponent).toNat)).getD
      (Binary.infinity negative)

/-- An exponent part, or nothing. -/
def readExponent : List Char → Option Int
  | [] => some 0
  | e :: cs =>
    if e == 'e' || e == 'E' then
      let (negative, body) := Integer.readSign cs
      match takeDigits? body with
      | some (d :: ds, []) =>
        let n : Int := Integer.ofDigits (d :: ds)
        some (if negative then -n else n)
      | _ => none
    else none

/-- A point and the digits behind it, or nothing. -/
def readFraction : List Char → Option (List Nat × List Char)
  | '.' :: cs => takeDigits? cs
  | cs => some ([], cs)

/-- A double in decimal: digits with a point, an exponent, or both. -/
def readDecimal? (negative : Bool) (cs : List Char) : Option Float := do
  let (whole, rest) ← takeDigits? cs
  let (fraction, rest) ← readFraction rest
  let e ← readExponent rest
  if whole.isEmpty && fraction.isEmpty then none
  else pure (ofDecimal negative (Integer.ofDigits (fraction ++ whole)) (e - fraction.length))

/-- Read a double: padding, an optional sign, a decimal or one of the words for
    infinity and NaN, padding. -/
def readReal? (cs : List Char) : Option Float :=
  let bare := ((cs.dropWhile Text.isPadding).reverse.dropWhile Text.isPadding).reverse
  let (negative, body) := Integer.readSign bare
  let word := String.ofList (body.map Char.toLower)
  if word == "inf" || word == "infinity" then some (Binary.infinity negative)
  else if word == "nan" then some Binary.nan
  else readDecimal? negative body

/-- Is the text an integer in plain digits, with an optional sign? -/
def isPlainInteger (cs : List Char) : Bool :=
  let (_, body) := Integer.readSign cs
  !body.isEmpty && body.all Char.isDigit

/-- An integer in plain digits, or else a double. -/
def ofText? (s : String) : Option Number :=
  if isPlainInteger s.toList then
    let (negative, body) := Integer.readSign s.toList
    let n : Int := Integer.ofDigits (body.reverse.map fun c => c.toNat - '0'.toNat)
    some (.int (if negative then -n else n))
  else (readReal? s.toList).map .real

end Number

end DotPaths
