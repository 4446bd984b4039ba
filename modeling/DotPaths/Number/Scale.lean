/-! # Powers of two and of ten

    The scales on which binary and decimal numbers are written.
-/

namespace DotPaths

/-- The `n`-th power of two. -/
def twoTo (n : Nat) : Nat := Nat.pow 2 n

/-- The `n`-th power of ten. -/
def tenTo (n : Nat) : Nat := Nat.pow 10 n

end DotPaths
