import DotPaths.Number.Scale

/-! # Indexes

    An index counts from the front of a list, or from its end when it is
    negative.  Indexes are 64 bits wide.
-/

namespace DotPaths

/-- Why an index leads nowhere. -/
inductive IndexFault where
  | outOfRange
  /-- It has more than 64 bits. -/
  | tooWide
  deriving DecidableEq, Repr

/-- The text of a fault. -/
def IndexFault.message : IndexFault → String
  | .outOfRange => "list index out of range"
  | .tooWide => "cannot fit 'int' into an index-sized integer"

namespace Index

/-- Does a number fit into the 64 bits of an index? -/
def fits (i : Int) : Bool := -(twoTo 63 : Int) ≤ i && i < (twoTo 63 : Int)

/-- The index counted from the front. -/
def fromFront (length : Nat) (i : Int) : Int := if i < 0 then i + length else i

/-- The place that an index stands for in a list of some length. -/
def resolve (length : Nat) (i : Int) : Except IndexFault Nat :=
  if !fits i then .error .tooWide
  else if fromFront length i < 0 ∨ length ≤ fromFront length i then .error .outOfRange
  else .ok (fromFront length i).toNat

/-- The element at an index. -/
def element {α : Type} (l : List α) (i : Int) : Except IndexFault α :=
  match resolve l.length i with
  | .error f => .error f
  | .ok n =>
    match l[n]? with
    | some a => .ok a
    | none => .error .outOfRange

end Index

end DotPaths
