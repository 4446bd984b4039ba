import DotPaths.Number.Binary

/-! # The length of a hypotenuse

    The root of the sum of two squares, in doubles.  Operands whose squares
    would overflow or vanish are scaled first, and one correction step takes
    back most of the rounding of the root.
-/

namespace DotPaths.Hypotenuse

/-- The factor that makes huge operands small; dividing by it makes tiny ones
    large. -/
def scale : Float := Binary.ofParts ⟨false, 1, -600⟩

/-- Operands beyond this are huge. -/
def huge : Float := Binary.ofParts ⟨false, 1, 511⟩

/-- Operands below this are tiny. -/
def tiny : Float := Binary.ofParts ⟨false, 1, -459⟩

/-- An operand that is this small beside the other one adds nothing but its
    own size. -/
def negligible : Float := Binary.ofParts ⟨false, 1, -54⟩

/-- What the root `h` of `a * a + b * b` is corrected by, for `b ≤ a`. -/
def correction (a b h : Float) : Float :=
  if h ≤ 2.0 * b then
    let d := h - b
    a * (2.0 * d - a) + (d - 2.0 * (a - b)) * d
  else
    let d := h - a
    2.0 * d * (a - 2.0 * b) + ((4.0 * d - b) * b + d * d)

/-- The length for operands with harmless squares and `b ≤ a`. -/
def corrected (a b : Float) : Float :=
  let h := (a * a + b * b).sqrt
  h - correction a b h / (2.0 * h)

/-- The length for finite operands with `0 ≤ b ≤ a`. -/
def ofOrdered (a b : Float) : Float :=
  if huge < a then
    if b ≤ a * negligible then a + b else corrected (a * scale) (b * scale) / scale
  else if b < tiny then
    if b / negligible ≤ a then a + b else corrected (a / scale) (b / scale) * scale
  else if b ≤ a * negligible then a + b
  else corrected a b

/-- The length of the hypotenuse over two sides.  An infinite side makes it
    infinite, whatever the other one is. -/
def length (x y : Float) : Float :=
  if x.isInf || y.isInf then Binary.infinity false
  else if x.isNaN || y.isNaN then Binary.nan
  else if x.abs < y.abs then ofOrdered y.abs x.abs
  else ofOrdered x.abs y.abs

end DotPaths.Hypotenuse
