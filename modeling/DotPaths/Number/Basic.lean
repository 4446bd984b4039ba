import DotPaths.Number.Binary
import DotPaths.Number.Integer
import DotPaths.Text.Quoted

/-! # Numbers

    What a dot carries as its value and as its id: an integer of any size, a
    double, or a complex number of two doubles.  This module also lists what
    can go wrong in a calculation.
-/

namespace DotPaths

/-- The three kinds of numbers. -/
inductive NumberKind where
  | whole
  | real
  | complex
  deriving DecidableEq, Repr

/-- The name by which messages speak of a kind of numbers. -/
def NumberKind.label : NumberKind → String
  | .whole => "int"
  | .real => "float"
  | .complex => "complex"

/-- A value or an id of a dot. -/
inductive Number where
  | int (n : Int)
  | real (x : Float)
  | complex (re im : Float)
  deriving DecidableEq

namespace Number

instance : Inhabited Number := ⟨.int 0⟩

def kind : Number → NumberKind
  | .int _ => .whole
  | .real _ => .real
  | .complex _ _ => .complex

/-- Is the number zero, of whatever kind? -/
def isZero : Number → Bool
  | .int n => n == 0
  | .real x => x == 0.0
  | .complex re im => re == 0.0 && im == 0.0

/-- Does the number equal the integer `n`, whatever its own kind? -/
def equalsInt (a : Number) (n : Int) : Bool :=
  match a with
  | .int m => m == n
  | .real x => Binary.compareInt n x == some .eq
  | .complex re im => im == 0.0 && Binary.compareInt n re == some .eq

/-- The number itself, or the integer zero for a zero of any kind. -/
def orZero (a : Number) : Number :=
  if a.isZero then .int 0 else a

@[simp] theorem orZero_int (n : Int) : orZero (.int n) = .int n := by
  by_cases h : n = 0 <;> simp [orZero, isZero, h]

end Number

/-- What can go wrong in a calculation. -/
inductive ArithFault where
  /-- Division by a zero; the kind is that of the calculation. -/
  | divisionByZero (kind : NumberKind)
  /-- Remainder by a zero. -/
  | moduloByZero (kind : NumberKind)
  /-- A zero raised to a negative power. -/
  | zeroToNegative (kind : NumberKind)
  /-- A quotient of integers beyond the doubles. -/
  | quotientTooLarge
  /-- An integer beyond the doubles in a calculation with doubles. -/
  | integerTooLarge
  /-- A power beyond the doubles. -/
  | powerTooLarge (kind : NumberKind)
  /-- An operation that the kinds of its operands do not have. -/
  | unsupported (symbol : String) (left right : NumberKind)
  /-- A comparison of numbers without an order. -/
  | unordered (symbol : String) (left right : NumberKind)
  /-- An integer with more digits than are written. -/
  | tooManyDigits
  /-- A number that is no integer, where a character code is needed. -/
  | notWhole (kind : NumberKind)
  /-- A character code that does not fit into 32 bits. -/
  | codeTooWide
  /-- A character code that no character has. -/
  | codeOutOfRange
  /-- An operator cell with a character that names no operation. -/
  | unknownOperator (symbol : String)
  /-- A typographic operator in place of the plain one. -/
  | typographicOperator (symbol plain : String)
  deriving DecidableEq

/-- The text of a fault. -/
def ArithFault.message : ArithFault → String
  | .divisionByZero .whole => "division by zero"
  | .divisionByZero .real => "float division by zero"
  | .divisionByZero .complex => "complex division by zero"
  | .moduloByZero .whole => "integer modulo by zero"
  | .moduloByZero _ => "float modulo"
  | .zeroToNegative .complex => "0.0 to a negative or complex power"
  | .zeroToNegative _ => "0.0 cannot be raised to a negative power"
  | .quotientTooLarge => "integer division result too large for a float"
  | .integerTooLarge => "int too large to convert to float"
  | .powerTooLarge .complex => "complex exponentiation"
  | .powerTooLarge _ => "(34, 'Numerical result out of range')"
  | .unsupported symbol l r =>
    "unsupported operand type(s) for " ++ symbol ++ ": '" ++ l.label ++ "' and '" ++ r.label ++ "'"
  | .unordered symbol l r =>
    "'" ++ symbol ++ "' not supported between instances of '" ++ l.label ++ "' and '" ++
      r.label ++ "'"
  | .tooManyDigits =>
    "Exceeds the limit (4300 digits) for integer string conversion; " ++
      "use sys.set_int_max_str_digits() to increase the limit"
  | .notWhole k => "'" ++ k.label ++ "' object cannot be interpreted as an integer"
  | .codeTooWide => "Python int too large to convert to C int"
  | .codeOutOfRange => "chr() arg not in range(0x110000)"
  | .unknownOperator symbol => Text.quoted symbol
  | .typographicOperator symbol plain =>
    "Unicode operator used. Operator \"" ++ symbol ++ "\" should be replaced with \"" ++
      plain ++ "\"."

end DotPaths
