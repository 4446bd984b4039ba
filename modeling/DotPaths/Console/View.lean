import DotPaths.Console.Basic

/-! # The view of the drawing

    Which cells are shown, where and in which colour.  Blank rows that follow
    each other are shown as one, rows are cut at the right, and the view ends
    one line before its last.
-/

namespace DotPaths.View

/-- A cell on the screen. -/
structure Patch where
  column : Nat
  glyph : Char
  colour : Nat
  deriving DecidableEq, Repr

/-- Has the row nothing but blanks? -/
def isBlankRow (row : List Cell) : Bool :=
  (Text.trimRight (World.glyphs row)).isEmpty

/-- Each run of blank rows reduced to its first row; `afterBlank` says that a
    blank row stands in front. -/
def collapse : Bool → List (List Cell × Nat) → List (List Cell × Nat)
  | _, [] => []
  | afterBlank, (row, y) :: rows =>
    if isBlankRow row then
      if afterBlank then collapse true rows else (row, y) :: collapse true rows
    else (row, y) :: collapse false rows

/-- The rows of the drawing that are shown, each with its number. -/
def shownRows (viewLines : Int) (rows : List (List Cell)) : List (List Cell × Nat) :=
  (collapse false rows.zipIdx).take (viewLines - 1).toNat

/-- The colour of a cell without a dot. -/
def colourOf (c : Cell) : Nat :=
  if c.kind.isLibraryWarp then 2
  else if c.kind.isWarp then 3
  else if c.glyph == '#' || c.glyph == '@' || c.glyph == '~' || c.kind.isOperator then 4
  else 0

/-- How a cell is shown: a dot has a colour of its own, and is seen on a blank
    cell too. -/
def patch (dots : List Pos) (p : Pos) (c : Cell) : Patch :=
  let column := p.x.toNat
  if dots.contains p then ⟨column, if c.glyph == ' ' then '.' else c.glyph, 1⟩
  else ⟨column, c.glyph, colourOf c⟩

/-- How a row is shown, cut to the columns before the last. -/
def shownRow (columns : Int) (dots : List Pos) (row : List Cell) (y : Nat) : List Patch :=
  (row.take (columns - 1).toNat).zipIdx.map fun (c, x) =>
    patch dots ⟨(x : Int), (y : Int)⟩ c

/-- The whole view: the rows of the screen from the top. -/
def frame (columns viewLines : Int) (w : World) (dots : List Pos) : List (List Patch) :=
  (shownRows viewLines w.rows).map fun (row, y) => shownRow columns dots row y

/-- A patch as text, with the codes that set and reset its colour. -/
def Patch.plain (p : Patch) : String :=
  if p.colour == 0 then String.singleton p.glyph
  else "\x1b[0;3" ++ toString p.colour ++ "m" ++ String.singleton p.glyph ++ "\x1b[0m"

/-- A row as text. -/
def plainRow (row : List Patch) : String :=
  String.join (row.map Patch.plain) ++ "\n"

/-- A row as calls that draw it. -/
def windowRow (row : List Patch) (y : Nat) : List Call :=
  row.map fun p => .windowPut y p.column p.glyph p.colour

end DotPaths.View
