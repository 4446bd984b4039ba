/-! # Positions and directions

    A position is a column and a row of the drawing; `y` grows downwards.  The
    same type serves for directions, which are added to positions.
-/

namespace DotPaths

/-- A column `x` and a row `y`; also a displacement. -/
structure Pos where
  x : Int
  y : Int
  deriving DecidableEq, Repr, Inhabited

namespace Pos

instance : Add Pos := ⟨fun p q => ⟨p.x + q.x, p.y + q.y⟩⟩

instance : Sub Pos := ⟨fun p q => ⟨p.x - q.x, p.y - q.y⟩⟩

instance : Neg Pos := ⟨fun p => ⟨-p.x, -p.y⟩⟩

@[simp] theorem add_x (p q : Pos) : (p + q).x = p.x + q.x := rfl
@[simp] theorem add_y (p q : Pos) : (p + q).y = p.y + q.y := rfl
@[simp] theorem sub_x (p q : Pos) : (p - q).x = p.x - q.x := rfl
@[simp] theorem sub_y (p q : Pos) : (p - q).y = p.y - q.y := rfl
@[simp] theorem neg_x (p : Pos) : (-p).x = -p.x := rfl
@[simp] theorem neg_y (p : Pos) : (-p).y = -p.y := rfl

def up : Pos := ⟨0, -1⟩
def right : Pos := ⟨1, 0⟩
def down : Pos := ⟨0, 1⟩
def left : Pos := ⟨-1, 0⟩

/-- The four directions, in the order in which neighbours are looked at. -/
def directions : List Pos := [up, right, down, left]

/-- A direction with a vertical part. -/
def isVertical (d : Pos) : Bool := d.y != 0

/-- A direction with a horizontal part. -/
def isHorizontal (d : Pos) : Bool := d.x != 0

/-- The plain pair, as in a list of positions. -/
def pair (p : Pos) : String :=
  "(" ++ toString p.x ++ ", " ++ toString p.y ++ ")"

/-- The position with its name, as a single field shows it. -/
def label (p : Pos) : String :=
  "<Pos" ++ p.pair ++ ">"

end Pos

end DotPaths
