import DotPaths.Index
import DotPaths.World.Directive

/-! # The world

    The finished drawing: the rows of the program followed by those of every
    library it uses.
-/

namespace DotPaths

/-- A finished drawing. -/
structure World where
  /-- The rows of cells. -/
  rows : List (List Cell)
  /-- The next link number that is free. -/
  nextLink : Int
  deriving DecidableEq, Repr

namespace World

instance : Inhabited World := ⟨⟨[], 0⟩⟩

/-- The cell at a position, if the position exists. -/
def cell? (w : World) (p : Pos) : Option Cell :=
  if p.x < 0 || p.y < 0 then none
  else (w.rows[p.y.toNat]?).bind fun row => row[p.x.toNat]?

/-- Does the position exist? -/
def contains (w : World) (p : Pos) : Bool := (w.cell? p).isSome

/-- Is the character `c` at the position? -/
def hasGlyph (w : World) (p : Pos) (c : Char) : Bool :=
  (w.cell? p).any (·.glyph == c)

/-- The cell at a position whose coordinates are taken as indexes. -/
def cellAt (w : World) (p : Pos) : Except IndexFault Cell := do
  let row ← Index.element w.rows p.y
  Index.element row p.x

/-- The number of cells. -/
def area (w : World) : Nat := w.rows.flatten.length

/-- The cells of some rows with their positions, row by row. -/
def located (rows : List (List Cell)) : List (Pos × Cell) :=
  rows.zipIdx.flatMap fun (row, y) =>
    row.zipIdx.map fun (c, x) => (⟨(x : Int), (y : Int)⟩, c)

/-- The cells of the rows that are no directives, with their positions. -/
def locatedOpen (rows : List (List Cell)) : List (Pos × Cell) :=
  rows.zipIdx.flatMap fun (row, y) =>
    if isDirective row then [] else row.zipIdx.map fun (c, x) => (⟨(x : Int), (y : Int)⟩, c)

/-- Where dots start, row by row. -/
def starts (w : World) : List Pos :=
  ((locatedOpen w.rows).filter (·.2.kind.isStart)).map (·.1)

end World

end DotPaths
