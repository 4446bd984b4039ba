import DotPaths.Number.Power

/-! # Operators

    The operations that two dots perform when they meet at an operator cell,
    and the characters that name them.
-/

namespace DotPaths

/-- An operation on two numbers. -/
inductive Operator where
  | add | sub | mul | div | pow | mod
  | or | xor | and
  | ne | eq | gt | ge | lt | le
  deriving DecidableEq, Repr

/-- The result of an operation: a number, or the truth of a comparison. -/
inductive Answer where
  | number (n : Number)
  | truth (b : Bool)

/-- The number that a dot takes up: the answer times one.  A truth counts as
    one or zero; only a complex number can change, in the signs of its zeros. -/
def Answer.toNumber : Answer → Number
  | .number (.complex re im) => (Complex.mul ⟨re, im⟩ Complex.one).toNumber
  | .number n => n
  | .truth b => .int (if b then 1 else 0)

namespace Operator

/-- The plain symbols. -/
def ofPlain? : String → Option Operator
  | "+" => some .add
  | "-" => some .sub
  | "*" => some .mul
  | "/" => some .div
  | "^" => some .pow
  | "%" => some .mod
  | "o" => some .or
  | "x" => some .xor
  | "&" => some .and
  | "!" => some .ne
  | "=" => some .eq
  | ">" => some .gt
  | "G" => some .ge
  | "<" => some .lt
  | "L" => some .le
  | _ => none

/-- Typographic symbols and the plain ones that stand for them. -/
def plainFor? : String → Option String
  | "÷" => some "/"
  | "≠" => some "!"
  | "≤" => some "L"
  | "≥" => some "G"
  | _ => none

/-- The operation that a symbol names. -/
def ofSymbol (symbol : String) : Except ArithFault Operator :=
  match plainFor? symbol with
  | some plain => .error (.typographicOperator symbol plain)
  | none =>
    match ofPlain? symbol with
    | some op => .ok op
    | none => .error (.unknownOperator symbol)

/-- Perform the operation. -/
def apply (op : Operator) (a b : Number) : Except ArithFault Answer :=
  match op with
  | .add => (a.add b).map .number
  | .sub => (a.sub b).map .number
  | .mul => (a.mul b).map .number
  | .div => (a.div b).map .number
  | .pow => (a.pow b).map .number
  | .mod => (a.mod b).map .number
  | .or => (Number.bitwise "|" Integer.bitOr a b).map .number
  | .xor => (Number.bitwise "^" Integer.bitXor a b).map .number
  | .and => (Number.bitwise "&" Integer.bitAnd a b).map .number
  | .ne => .ok (.truth (!a.equals b))
  | .eq => .ok (.truth (a.equals b))
  | .gt => (Number.ordered ">" (· == .gt) a b).map .truth
  | .ge => (Number.ordered ">=" (· != .lt) a b).map .truth
  | .lt => (Number.ordered "<" (· == .lt) a b).map .truth
  | .le => (Number.ordered "<=" (· != .gt) a b).map .truth

/-- Look the symbol up and perform its operation. -/
def calculate (symbol : String) (a b : Number) : Except ArithFault Answer := do
  let op ← ofSymbol symbol
  op.apply a b

end Operator

end DotPaths
